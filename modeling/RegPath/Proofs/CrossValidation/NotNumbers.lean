import RegPath.Proofs.CrossValidation.Alignment
import RegPath.Proofs.RealOrNan

namespace RegPath.CrossValidation

/-!
# Errors that are not numbers

An engine that fails may leave iterates that are not numbers.  A path that keeps unsolved steps keeps
them, and the errors at such a step are not numbers either.  The search for the smallest mean error
takes the first of them, so that it is chosen although other penalties have proper errors.

* `Choice`, `Selector.choice_of_ok` — what every fit with a positive penalty chooses;
* `lapsingEngine` — an engine that answers zero, and from one half on nothing that is a number;
* `Selector.not_forall_isNumber` — with it a fit chooses what is not a number.
-/

variable {α : Type} [Scalar α] {σ : Type}

/-- What has been chosen in a table: the penalty and the coefficients at the first mean test error
    that is not a number, or else at the first of the smallest ones. -/
structure Choice (curve : Curve α) (path : Path.Result α) (best : α) (coef : List α) (k : Nat)
    (v : α) : Prop where
  /-- The mean test error that the search ends with. -/
  chosen : Chosen curve.test k v
  /-- The penalty stands at its position. -/
  penalty : curve.lam[k]? = some best
  /-- So does the point with the coefficients, which belongs to the penalty. -/
  point : ∃ pt, path.points[k]? = some pt ∧ pt.lam = best ∧ pt.x = coef

namespace Selector

variable {split : Nat → Except (Fault α) (List Split)} {F : Nat → Factory α σ} {s : Settings α}
  {form : MatrixForm α} {A : RowMatrix α} {b : List α} {top : α}

/-- Every fit of data with a positive penalty that succeeds has a table with the means of the test
    errors of its folds, and it chooses the first of them that is not a number, or else the first of
    the smallest ones.  So the chosen error is a number only if all of them are. -/
theorem choice_of_ok (hord : Scalar.Ordered α) (hbounds : Scalar.BoundsNumbers α)
    (hA : form.read = .ok A) (htop : lambdaMax A b = .ok top) (hpos : ¬ top ≤ 0) {t : Selector α}
    {choices : List Nat} (h : (t.fitBy split F s choices form b).outcome = .ok ()) :
    ∃ splits errors curve path best coef k v,
      layOut split s A.height top = .ok (curve.lam, splits) ∧
        Fold.outcomes F s A b top splits = .ok errors ∧
        curve.test = foldMeans curve.lam.length (errors.map FoldErrors.test) ∧
        (t.fitBy split F s choices form b).selector =
          ⟨some curve, some best, some coef, some path⟩ ∧
        Choice curve path best coef k v ∧
        (Scalar.IsNumber v ↔ ∀ u ∈ curve.test, Scalar.IsNumber u) := by
  have hlearns := learns_of_fitBy h
  generalize (t.fitBy split F s choices form b).selector = u at hlearns ⊢
  cases hlearns with
  | degenerate hA' htop' hle hroom =>
    cases hA.symm.trans hA'
    cases htop.symm.trans htop'
    exact absurd hle hpos
  | @regular A' top' lambdas splits errors path hA' htop' hpos' hlayOut herrors hpath =>
    cases hA.symm.trans hA'
    cases htop.symm.trans htop'
    obtain ⟨schedule, hmake, hgrid, -⟩ := layOut_ok.1 hlayOut
    have hpoints := lam_of_fullPath htop hpos hmake hgrid hpath
    let curve : Curve α := {
      lam := lambdas
      train := foldMeans lambdas.length (errors.map FoldErrors.train)
      test := foldMeans lambdas.length (errors.map FoldErrors.test)
      nonzeros := path.points.map fun pt => Vec.nonzeros pt.x }
    obtain ⟨k, v, pt, hchosen, hk, hpt, hcoef⟩ := exists_chosen hord (ne_nil_of_grid hgrid)
      (show curve.test.length = lambdas.length from length_foldMeans _ _) hpoints
      fun u v _ => hbounds u v
    have hlam : some pt.lam = lambdas[k]? := by
      rw [← hpoints, List.getElem?_map, hpt, Option.map_some]
    refine ⟨splits, errors, curve, path, _, _, k, v, hlayOut, herrors, rfl, rfl,
      ⟨hchosen, hk, pt, hpt, ?_, hcoef.symm⟩, hchosen.isNumber_iff⟩
    exact Option.some.inj (hlam.trans hk)

end Selector

/-! ### An engine that lapses -/

open RealOrNan (real nan)

/-- Zero as long as all penalties are above one half, and else a failure with nothing that is a
    number. -/
noncomputable def lapse (q : Request RealOrNan) : Solution RealOrNan :=
  if ∃ t ∈ q.colTerms, t.scale ≤ Scalar.half then
    ⟨List.replicate q.width nan, List.replicate q.height nan, .failed, 1⟩
  else ⟨Vec.zeros q.width, Vec.zeros q.height, .success, 1⟩

/-- The engine that answers so. -/
noncomputable def lapsingEngine : Engine RealOrNan Unit where
  solve _ q := (.quiet (.ok (lapse q)), ())

/-- It serves every problem. -/
theorem lapsingEngine_serves (p : Problem RealOrNan) : lapsingEngine.Serves p := by
  intro e q hq
  have hwidth : q.width = p.width := congrArg (fun design => design.matrix.cols) hq.design
  have hheight : q.height = p.height := congrArg (fun design => design.matrix.height) hq.design
  refine ⟨lapse q, rfl, ?_⟩
  unfold lapse
  split
  · exact ⟨List.length_replicate.trans hwidth, List.length_replicate.trans hheight⟩
  · exact ⟨(Vec.length_zeros _).trans hwidth, (Vec.length_zeros _).trans hheight⟩

/-- What it answers on the lasso of a single column. -/
theorem lapse_lasso {q : Request RealOrNan} {A : RowMatrix RealOrNan} {b : List RealOrNan}
    {lam : RealOrNan} {h : 0 < lam} (hA : A.cols = 1) (hq : q.form = GraphForm.lasso A b lam h) :
    (lapse q).x = if lam ≤ Scalar.half then [nan] else [0] := by
  have hwidth : q.width = 1 := (congrArg (fun P => P.matrix.cols) hq).trans hA
  have hterms : q.colTerms = [(Term.unit .abs 0).withScale lam h] := by
    have hcolTerms : q.colTerms = (Term.penalties A.cols).map fun t => t.withScale lam h :=
      congrArg GraphForm.colTerms hq
    rw [hcolTerms, hA]
    rfl
  unfold lapse
  rw [hterms, hwidth]
  by_cases hle : lam ≤ Scalar.half
  · rw [if_pos ⟨_, List.mem_singleton_self _, hle⟩, if_pos hle]
    rfl
  · have hnone : ¬ ∃ t ∈ [(Term.unit .abs 0).withScale lam h], t.scale ≤ Scalar.half := by
      rintro ⟨t, ht, hscale⟩
      rw [List.mem_singleton.1 ht] at hscale
      exact hle hscale
    rw [if_neg hnone, if_neg hle]
    rfl

/-! ### A column -/

/-- A column with two ones. -/
noncomputable def onesLayout : Csr RealOrNan := ⟨2, 1, .narrow, [0, 1, 2], [0, 0], [1, 1]⟩

/-- It is accepted. -/
theorem onesLayout_accepted : onesLayout.Accepted where
  pointerLength := rfl
  starts := rfl
  ends := rfl
  dataLength := rfl
  ordered := by decide
  inRange := by simp [onesLayout]

/-- The column. -/
noncomputable def ones : RowMatrix RealOrNan := onesLayout.toRows onesLayout_accepted

/-- The layout is read as the column. -/
theorem read_ones : (MatrixForm.compressed onesLayout).read = .ok ones :=
  MatrixForm.read_compressed onesLayout_accepted

/-- The threshold of the observations one and zero is one. -/
theorem lambdaMax_ones : lambdaMax ones [1, 0] = .ok 1 := by
  have hproduct : ones.transpose.mulVec [1, 0] = [1 * 1 + (1 * 0 + 0)] := rfl
  have hvalue : (1 * 1 + (1 * 0 + 0) : RealOrNan) = real 1 := by
    rw [RealOrNan.one_eq, RealOrNan.zero_eq, RealOrNan.real_mul, RealOrNan.real_mul,
      RealOrNan.real_add, RealOrNan.real_add]
    norm_num
  have hstored : ones.stored = 2 := rfl
  have hheight : ¬ ([1, 0] : List RealOrNan).length ≠ ones.height := not_not.2 rfl
  have hroom : ¬ ¬ Scalar.HasRoom RealOrNan ones.cols := not_not.2 (RealOrNan.hasRoom _)
  rw [lambdaMax, if_neg hheight, hstored, if_neg (by decide), if_neg hroom, hproduct, hvalue]
  have hle : ¬ real 1 ≤ (0 : RealOrNan) := by
    rw [RealOrNan.zero_eq, RealOrNan.real_le_real]
    norm_num
  have hge : (0 : RealOrNan) ≤ real 1 := by
    rw [RealOrNan.zero_eq, RealOrNan.real_le_real]
    norm_num
  show Except.ok (Scalar.sup (Scalar.abs (real 1)) 0) = _
  rw [Scalar.abs, if_neg hle, Scalar.sup, if_neg hle, if_pos hge]
  rfl

/-- The two rows, each tested once. -/
def swapSplits : List Split := [⟨[0], [1]⟩, ⟨[1], [0]⟩]

/-- The way to split rows into them. -/
def swapRows (_ : ℕ) : Except (Fault RealOrNan) (List Split) := .ok swapSplits

/-- The error of a coefficient on a tested row. -/
theorem error_ones {split : Split} (hsplit : split ∈ swapSplits) (x : RealOrNan) :
    ∃ c : ℝ, meanSquaredError (ones.selectRows split.test) [x] (select [1, 0] split.test) =
      .ok (Vec.mean [(1 * x + 0 - real c) * (1 * x + 0 - real c)]) := by
  rcases List.mem_cons.1 hsplit with rfl | hsplit
  · exact ⟨0, rfl⟩
  · obtain rfl := List.mem_singleton.1 hsplit
    exact ⟨1, rfl⟩

/-! ### Two penalties -/

/-- Two folds with two penalties. -/
noncomputable def halvingSettings : Settings RealOrNan where
  count := 2
  ratio := Scalar.half
  folds := 2
  seed := 0
  warmStart := true
  workers := 1
  two_le_folds := pairSettings.two_le_folds

/-- One half is a proper fraction. -/
theorem half_proper : (0 : RealOrNan) < Scalar.half ∧ (Scalar.half : RealOrNan) < 1 := by
  rw [RealOrNan.half_eq]
  exact Scalar.half_mem

/-- It is a number. -/
theorem half_le_half : (Scalar.half : RealOrNan) ≤ Scalar.half := by
  rw [RealOrNan.half_eq]
  exact RealOrNan.isNumber_real _

/-- One is not below it. -/
theorem not_one_le_half : ¬ (1 : RealOrNan) ≤ Scalar.half := by
  rw [RealOrNan.half_eq]
  exact not_le.2 Scalar.half_mem.2

/-- The penalties from one on are one and one half. -/
theorem entries_halving {schedule : Schedule RealOrNan}
    (h : Schedule.make 1 2 Scalar.half = .ok schedule) :
    schedule.entry? 0 = some 1 ∧ schedule.entry? 1 = some Scalar.half := by
  obtain ⟨htop, hcount, hratio⟩ := Schedule.make_ok h
  have hcount : schedule.count = 2 := by omega
  have hhalf : (0 : ℝ) < Scalar.half := Scalar.half_mem.1
  have hlogTop : schedule.logTop = real 0 := by
    have hlog := schedule.logTop_eq
    rw [htop, RealOrNan.one_eq, RealOrNan.log?_real one_pos, Real.log_one] at hlog
    exact (Option.some.inj hlog).symm
  have hlogBottom : schedule.logBottom = real (Real.log Scalar.half) := by
    have hlog := schedule.logBottom_eq
    rw [htop, hratio, RealOrNan.one_eq, RealOrNan.half_eq, RealOrNan.real_mul, mul_one,
      RealOrNan.log?_real hhalf] at hlog
    exact (Option.some.inj hlog).symm
  have hentry : ∀ i c : ℕ, schedule.count - 1 - i = c → schedule.entry? i =
      some (real (Real.exp ((0 * c + Real.log Scalar.half * i) / ((1 : ℕ) : ℝ)))) := by
    intro i c hc
    rw [Schedule.entry?, if_neg (by omega), Schedule.logEntry, hc, hcount, hlogTop, hlogBottom]
    simp only [RealOrNan.natCast_eq, RealOrNan.real_mul, RealOrNan.real_add]
    rw [RealOrNan.real_div _ (by norm_num), RealOrNan.exp?_real]
  constructor
  · rw [hentry 0 1 (by omega)]
    simp [RealOrNan.one_eq]
  · rw [hentry 1 0 (by omega), Nat.cast_one, Nat.cast_zero, mul_zero, zero_add, mul_one, div_one,
      Real.exp_log hhalf, RealOrNan.half_eq]

/-- The settings are accepted for paths from one, with these penalties. -/
theorem halvingSettings_accepted :
    ∃ schedule, halvingSettings.Accepted 1 schedule [1, Scalar.half] := by
  obtain ⟨schedule, hmake⟩ : ∃ schedule : Schedule RealOrNan,
      Schedule.make 1 2 Scalar.half = .ok schedule := by
    have hproduct : (Scalar.half : RealOrNan) * 1 = real Scalar.half := by
      rw [RealOrNan.half_eq, RealOrNan.one_eq, RealOrNan.real_mul, mul_one]
    have hlog : Scalar.log? ((Scalar.half : RealOrNan) * 1) =
        some (real (Real.log Scalar.half)) := by
      rw [hproduct, RealOrNan.log?_real Scalar.half_mem.1]
    have htwo : 0 < 2 := two_pos
    exact Schedule.exists_make_of_logs Scalar.one_pos htwo half_proper
      (RealOrNan.log?_real one_pos) hlog
  obtain ⟨hfirst, hsecond⟩ := entries_halving hmake
  have hcount : schedule.count = 2 := by
    have hcount := (Schedule.make_ok hmake).2.1
    omega
  have hgrid : schedule.grid = .ok [1, Scalar.half] := by
    rw [Schedule.grid, Schedule.indexed?, hcount]
    simp [List.range_succ, hfirst, hsecond]
  refine ⟨schedule, ?_⟩
  constructor
  case config =>
    refine exists_config (by show ¬ (2 : ℤ) < 1; decide) half_proper ?_
    rw [Scalar.ratio, RealOrNan.natCast_eq, RealOrNan.natCast_eq,
      RealOrNan.real_div _ (by norm_num), RealOrNan.zero_eq, RealOrNan.real_lt_real]
    norm_num
  case make => exact hmake
  case size =>
    rw [hcount]
    decide
  case grid => exact hgrid
  case positive =>
    intro lam hlam
    rcases List.mem_cons.1 hlam with rfl | hlam
    · exact Scalar.one_pos
    · rw [List.mem_singleton.1 hlam]
      exact half_proper.1

/-! ### A choice that is not a number -/

/-- The source of the engine. -/
noncomputable def lapsingFactory : Factory RealOrNan Unit := .ok (lapsingEngine, ())

/-- What a fold with this engine is replied. -/
theorem outcome_lapsing {s : Settings RealOrNan} {A : RowMatrix RealOrNan} {b : List RealOrNan}
    {top : RealOrNan} {split : Split} {c : Request RealOrNan × Reply RealOrNan}
    (hc : c ∈ Fold.calls lapsingFactory s A b top split) : c.2.outcome = .ok (lapse c.1) := by
  cases hdriver : Factory.driver lapsingFactory s with
  | error f =>
    rw [Fold.calls, hdriver] at hc
    cases hc
  | ok source =>
    obtain ⟨d, setup⟩ := source
    rw [Fold.calls_of_driver hdriver] at hc
    obtain ⟨engine, fresh, config, hF, -, rfl, rfl⟩ := Factory.driver_ok.1 hdriver
    cases hF
    obtain ⟨e, hreply⟩ := Path.Driver.exists_reply hc
    rw [hreply]
    rfl

/-- The test error of a fold at a penalty is the error of what the engine answers there. -/
theorem test_lapsing {e : FoldErrors RealOrNan} {split : Split} (hsplit : split ∈ swapSplits)
    (h : e.TakenAlong lapsingFactory halvingSettings ones [1, 0] 1 [1, Scalar.half] split) {i : ℕ}
    {lam x : RealOrNan} (hlam : [1, Scalar.half][i]? = some lam)
    (hx : (if lam ≤ Scalar.half then [nan] else [0]) = [x]) :
    ∃ c : ℝ, e.test[i]? =
      some (Vec.mean [(1 * x + 0 - real c) * (1 * x + 0 - real c)]) := by
  obtain ⟨q, reply, a, u, v, hpos, hcall, ha, hform, -, -, hv, herror⟩ := h.taken i lam hlam
  have houtcome := outcome_lapsing (List.mem_of_getElem? hcall)
  obtain rfl := Except.ok.inj (ha.symm.trans houtcome)
  rw [lapse_lasso rfl hform, hx] at herror
  obtain ⟨c, hc⟩ := error_ones hsplit x
  exact ⟨c, hv.trans (congrArg some (Except.ok.inj (herror.symm.trans hc)))⟩

/-- One is positive. -/
theorem not_one_le_zero : ¬ (1 : RealOrNan) ≤ 0 := by
  rw [RealOrNan.one_eq, RealOrNan.zero_eq, RealOrNan.real_le_real]
  norm_num

/-- The fit of the observations one and zero with this engine. -/
noncomputable def lapsingFit : Fit RealOrNan :=
  Selector.new.fitBy swapRows (fun _ => lapsingFactory) halvingSettings []
    (.compressed onesLayout) [1, 0]

/-- It succeeds.  Its mean test error is a number at one, and none at one half, which is chosen. -/
theorem lapsingFit_eq : lapsingFit.outcome = .ok () ∧ ∃ curve coef path v,
    lapsingFit.selector = ⟨some curve, some Scalar.half, some coef, some path⟩ ∧
      curve.lam = [1, Scalar.half] ∧ curve.test = [v, nan] ∧ Scalar.IsNumber v := by
  have hserves : ∀ p, lapsingFactory.Serves p :=
    fun p => ⟨_, _, rfl, (lapsingEngine_serves p).servesFrom ()⟩
  have hsplit : swapRows ones.height = .ok swapSplits := rfl
  obtain ⟨schedule, haccepted⟩ := halvingSettings_accepted
  obtain ⟨errors, curve, path, hlearns, haligned⟩ :=
    Selector.exists_learns (F := fun _ => lapsingFactory) read_ones lambdaMax_ones not_one_le_zero
      haccepted hsplit (fun _ _ _ => hserves _) (hserves _) Selector.new
  obtain ⟨houtcome, hselector⟩ := Selector.fitBy_of_learns hlearns []
  have htaken : ∀ e ∈ errors, ∃ split ∈ swapSplits,
      e.TakenAlong lapsingFactory halvingSettings ones [1, 0] 1 [1, Scalar.half] split := by
    intro e he
    obtain ⟨i, hi⟩ := List.getElem?_of_mem he
    obtain ⟨split, hsplit, htaken⟩ := haligned.taken i e hi
    exact ⟨split, List.mem_of_getElem? hsplit, htaken⟩
  have herrors : errors.length = 2 := haligned.length_errors
  have hlength : curve.test.length = 2 := haligned.test.1
  obtain ⟨v, u, htest⟩ := List.length_eq_two.1 hlength
  have hv : Scalar.IsNumber v := by
    -- At one each fold answers zero, and the mean is one of two numbers.
    obtain ⟨vs, hvs, rfl⟩ := haligned.test.2 0 v (by rw [htest]; rfl)
    have hlen : vs.length = 2 := by
      have hlen := congrArg List.length hvs
      rw [List.length_map, List.length_map, herrors] at hlen
      exact hlen.symm
    refine RealOrNan.isNumber_mean (List.ne_nil_of_length_pos (by omega)) fun w hw => ?_
    have hmem : some w ∈ errors.map fun e => e.test[0]? := by
      rw [hvs]
      exact List.mem_map_of_mem hw
    obtain ⟨e, he, hw⟩ := List.mem_map.1 hmem
    obtain ⟨split, hsplit, htaken⟩ := htaken e he
    obtain ⟨c, hc⟩ := test_lapsing (i := 0) (x := 0) hsplit htaken rfl (if_neg not_one_le_half)
    rw [hw] at hc
    rw [Option.some.inj hc]
    refine RealOrNan.isNumber_mean (List.cons_ne_nil _ _) fun w hw => ?_
    rw [List.mem_singleton.1 hw]
    exact RealOrNan.isNumber_real ((1 * 0 + 0 - c) * (1 * 0 + 0 - c))
  have hu : u = nan := by
    -- At one half no fold answers a number.
    obtain ⟨vs, hvs, rfl⟩ := haligned.test.2 1 u (by rw [htest]; rfl)
    obtain ⟨e, he⟩ := List.exists_mem_of_length_pos (l := errors) (by omega)
    obtain ⟨split, hsplit, htaken⟩ := htaken e he
    obtain ⟨c, hc⟩ := test_lapsing (i := 1) (x := nan) hsplit htaken rfl (if_pos half_le_half)
    have hmem : some nan ∈ vs.map some := by
      rw [← hvs, ← RealOrNan.mean_of_not_number (l := [nan]) List.mem_cons_self]
      exact List.mem_map.2 ⟨e, he, hc⟩
    exact RealOrNan.mean_of_not_number (List.mem_map_of_injective (Option.some_injective _) |>.1 hmem)
  have hargmin : argmin curve.test = some 1 := by
    have hle : ¬ v ≤ nan := fun hle => RealOrNan.not_isNumber_nan (RealOrNan.boundsNumbers _ _ hle)
    rw [htest, hu]
    show some (argminFrom v 0 [(nan, 1)]) = some 1
    rw [argminFrom, if_neg (not_not.2 hv), if_neg hle]
    rfl
  rw [hargmin] at hselector
  exact ⟨houtcome, curve, _, path, v, hselector, haligned.lam, by rw [htest, hu], hv⟩

/-- The choice of this fit. -/
theorem Selector.choice_of_ok_lapsing : ∃ splits errors curve path best coef k v,
    layOut swapRows halvingSettings ones.height 1 = .ok (curve.lam, splits) ∧
      Fold.outcomes (fun _ => lapsingFactory) halvingSettings ones [1, 0] 1 splits = .ok errors ∧
      curve.test = foldMeans curve.lam.length (errors.map FoldErrors.test) ∧
      lapsingFit.selector = ⟨some curve, some best, some coef, some path⟩ ∧
      Choice curve path best coef k v ∧
      (Scalar.IsNumber v ↔ ∀ u ∈ curve.test, Scalar.IsNumber u) :=
  Selector.choice_of_ok RealOrNan.ordered RealOrNan.boundsNumbers read_ones lambdaMax_ones
    not_one_le_zero lapsingFit_eq.1

/-- Not every fit for which some mean test error is a number chooses the smallest of these errors:
    this one chooses what is not a number. -/
theorem Selector.not_forall_isNumber :
    ¬ ∀ (split : ℕ → Except (Fault RealOrNan) (List Split)) (F : ℕ → Factory RealOrNan Unit)
      (s : Settings RealOrNan) (choices : List ℕ) (t : Selector RealOrNan)
      (form : MatrixForm RealOrNan) (A : RowMatrix RealOrNan) (b : List RealOrNan)
      (top best : RealOrNan) (curve : Curve RealOrNan),
      form.read = .ok A → lambdaMax A b = .ok top → 0 < top →
      (t.fitBy split F s choices form b).outcome = .ok () →
      (t.fitBy split F s choices form b).selector.curve = some curve →
      (t.fitBy split F s choices form b).selector.best = some best →
      (∃ u ∈ curve.test, Scalar.IsNumber u) →
        ∃ (k : ℕ) (v : RealOrNan), curve.lam[k]? = some best ∧ curve.test[k]? = some v ∧
          Scalar.IsNumber v ∧ ∀ u ∈ curve.test, Scalar.IsNumber u → v ≤ u := by
  intro h
  obtain ⟨houtcome, curve, coef, path, v, hselector, hlam, htest, hv⟩ := lapsingFit_eq
  have hmem : v ∈ curve.test := by
    rw [htest]
    exact List.mem_cons_self
  obtain ⟨k, u, hk, hu, hnumber, -⟩ := h swapRows (fun _ => lapsingFactory) halvingSettings []
    Selector.new (.compressed onesLayout) ones [1, 0] 1 Scalar.half curve read_ones lambdaMax_ones
    Scalar.one_pos houtcome (congrArg Selector.curve hselector)
    (congrArg Selector.best hselector) ⟨v, hmem, hv⟩
  -- One half stands at the second position only, where the error is not a number.
  rw [hlam] at hk
  rw [htest] at hu
  match k with
  | 0 =>
    have hone : (1 : RealOrNan) = Scalar.half := Option.some.inj hk
    have hle := not_one_le_half
    rw [hone] at hle
    exact hle half_le_half
  | 1 =>
    obtain rfl : nan = u := Option.some.inj hu
    exact RealOrNan.not_isNumber_nan hnumber
  | k + 2 => cases hk

end RegPath.CrossValidation
