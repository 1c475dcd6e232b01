import RegPath.Proofs.CrossValidation.Alignment
import RegPath.Proofs.Path.Solved

namespace RegPath.CrossValidation

/-!
# Monotone training errors

The training error of a fold is the mean residual of its path.  If the steps are solved exactly the
residuals of each fold do not grow along the penalties, and neither do their means.

* `pairwise_foldMeans` — means of errors that do not grow;
* `Fold.pairwise_train` — the training errors of an exact fold;
* `Selector.monotone_of_exact` — exact paths and exact fits.
-/

variable {σ τ : Type}

/-! ### Means -/

/-- Where a list of errors that do not grow ends, zeros may follow. -/
theorem getD_le_getD {l : List ℝ} (h : l.Pairwise (· ≥ ·)) (hnonneg : ∀ v ∈ l, 0 ≤ v) {i j : ℕ}
    (hij : i < j) : l[j]?.getD 0 ≤ l[i]?.getD 0 := by
  by_cases hj : j < l.length
  · have hi : i < l.length := hij.trans hj
    rw [List.getElem?_eq_getElem hj, List.getElem?_eq_getElem hi]
    exact List.pairwise_iff_getElem.1 h i j hi hj hij
  · rw [List.getElem?_eq_none (not_lt.1 hj), Option.getD_none]
    cases hv : l[i]? with
    | none => exact le_rfl
    | some v => exact hnonneg v (List.mem_of_getElem? hv)

/-- Means of errors that do not grow do not grow. -/
theorem pairwise_foldMeans (n : ℕ) {errors : List (List ℝ)}
    (h : ∀ l ∈ errors, l.Pairwise (· ≥ ·)) (hnonneg : ∀ l ∈ errors, ∀ v ∈ l, 0 ≤ v) :
    (foldMeans n errors).Pairwise (· ≥ ·) := by
  unfold foldMeans
  rw [List.pairwise_map]
  refine List.pairwise_lt_range.imp fun {i j} hij => ?_
  have hsum : (errors.map fun l => l[j]?.getD 0).sum ≤ (errors.map fun l => l[i]?.getD 0).sum :=
    List.sum_le_sum fun l hl => getD_le_getD (h l hl) (hnonneg l hl) hij
  show Vec.mean _ ≤ Vec.mean _
  rw [Vec.mean, Vec.mean, List.length_map, List.length_map]
  exact div_le_div_of_nonneg_right hsum (Nat.cast_nonneg _)

/-! ### Folds -/

/-- A mean residual is not negative. -/
theorem meanResidual_nonneg (A : RowMatrix ℝ) (b x : List ℝ) : 0 ≤ meanResidual A b x := by
  unfold meanResidual
  split
  · exact le_rfl
  · exact div_nonneg (Vec.sumSquares_nonneg _) (Nat.cast_nonneg _)

/-- A smaller residual has a smaller mean. -/
theorem meanResidual_le {A : RowMatrix ℝ} {b x x' : List ℝ}
    (h : A.residual b x' ≤ A.residual b x) : meanResidual A b x' ≤ meanResidual A b x := by
  unfold meanResidual
  split
  · exact le_rfl
  · exact div_le_div_of_nonneg_right h (Nat.cast_nonneg _)

namespace Fold

variable {F : Factory ℝ σ} {s : Settings ℝ} {A : RowMatrix ℝ} {b : List ℝ} {top : ℝ}
  {split : Split}

/-- The training errors of a fold whose steps are solved exactly are mean residuals that do not
    grow. -/
theorem pairwise_train (hexact : Path.Exact (calls F s A b top split)) {e : FoldErrors ℝ}
    (h : (start F s A b top split).finish.outcome = .ok e) :
    e.train.Pairwise (· ≥ ·) ∧ ∀ v ∈ e.train, 0 ≤ v := by
  obtain ⟨d, setup, r, hdriver, hr, htrain, -⟩ := outcome_finish_start.1 h
  rw [calls_of_driver hdriver] at hexact
  have hp : (Problem.ofLasso ⟨0, A.selectRows split.train⟩ (select b split.train)).SameData
      (problem A b split) := ⟨rfl, rfl, rfl, rfl⟩
  have hpoints := Path.Driver.points_eq_steps hr
  have hmonotone := Path.Driver.isMonotone_steps hp hexact
  rw [← hpoints] at hmonotone
  have hlen : ∀ pt ∈ r.points, pt.x.length = (A.selectRows split.train).cols := by
    intro pt hpt
    rw [hpoints] at hpt
    obtain ⟨i, hi⟩ := List.getElem?_of_mem hpt
    obtain ⟨-, hpos, hmin⟩ := Path.Driver.step_isMinimiser hp hexact hi
    exact hmin.length
  -- The errors are values, so the list of outcomes can be read back as a list of mean residuals.
  have heq : e.train = r.points.map fun pt =>
      meanResidual (A.selectRows split.train) (select b split.train) pt.x := by
    have hmap : (r.points.map fun pt => (Except.ok (meanResidual (A.selectRows split.train)
        (select b split.train) pt.x) : Except (Fault ℝ) ℝ)) = e.train.map .ok := by
      rw [← htrain, errorsOf]
      refine List.map_congr_left fun pt hpt => ?_
      exact (meanSquaredError_eq (hlen pt hpt) (observations_length A b split.train)).symm
    have hinjective : Function.Injective (Except.ok : ℝ → Except (Fault ℝ) ℝ) :=
      fun _ _ => Except.ok.inj
    refine hinjective.list_map ?_
    rw [← hmap, List.map_map]
    rfl
  rw [heq]
  constructor
  · rw [List.pairwise_map]
    exact hmonotone.imp fun {pt pt'} hpt => meanResidual_le hpt.2
  · intro v hv
    obtain ⟨pt, -, rfl⟩ := List.mem_map.1 hv
    exact meanResidual_nonneg _ _ _

end Fold

/-! ### Fits -/

namespace Selector

/-- The mean training errors of a fit do not grow along its table, if the steps of all folds are
    solved exactly. -/
theorem pairwise_curve {split : ℕ → Except (Fault ℝ) (List Split)} {F : ℕ → Factory ℝ σ}
    {s : Settings ℝ} {form : MatrixForm ℝ} {A : RowMatrix ℝ} {b : List ℝ} {top : ℝ}
    {splits : List Split} (hA : form.read = .ok A) (htop : lambdaMax A b = .ok top)
    (hsplit : split A.height = .ok splits)
    (hexact : ∀ (i : ℕ) (sp : Split), splits[i]? = some sp →
      Path.Exact (Fold.calls (F i) s A b top sp)) {t u : Selector ℝ}
    (h : Learns split F s form b t u) :
    ∃ curve, u.curve = some curve ∧ curve.train.Pairwise (· ≥ ·) := by
  cases h with
  | degenerate => exact ⟨_, rfl, List.Pairwise.nil⟩
  | @regular A' top' lambdas splits' errors path hA' htop' hpos hlayOut herrors hpath =>
    obtain rfl := Except.ok.inj (hA.symm.trans hA')
    obtain rfl := Except.ok.inj (htop.symm.trans htop')
    obtain ⟨schedule, -, -, hsplit'⟩ := layOut_ok.1 hlayOut
    obtain rfl := Except.ok.inj (hsplit.symm.trans hsplit')
    have htrain : ∀ l ∈ errors.map FoldErrors.train, l.Pairwise (· ≥ ·) ∧ ∀ v ∈ l, 0 ≤ v := by
      intro l hl
      obtain ⟨e, he, rfl⟩ := List.mem_map.1 hl
      obtain ⟨i, hi⟩ := List.getElem?_of_mem he
      obtain ⟨sp, hsp, hok⟩ := Fold.exists_of_outcomes herrors hi
      exact Fold.pairwise_train (hexact i sp hsp) hok
    exact ⟨_, rfl, pairwise_foldMeans _ (fun l hl => (htrain l hl).1) fun l hl => (htrain l hl).2⟩

/-- Along a path on a lasso whose steps are solved exactly the absolute sum does not fall and the
    residual does not grow.  So the training errors of each fold of a fit do not grow, and neither
    do their means in its table. -/
theorem monotone_of_exact :
    (∀ (A : RowMatrix ℝ) (b : List ℝ) (s : Path.Setup ℝ σ) (d : Path.Driver ℝ σ) (p : Problem ℝ)
        (pinned : Option ℝ), (Problem.ofLasso ⟨0, A⟩ b).SameData p →
        Path.Exact (d.calls s p pinned) →
          Path.IsMonotone A b (d.steps s p pinned) ∧
            ∀ r, (d.run s p pinned).outcome = .ok r → Path.IsMonotone A b r.points) ∧
      ∀ (split : ℕ → Except (Fault ℝ) (List Split)) (F : ℕ → Factory ℝ τ) (s : Settings ℝ)
        (choices : List ℕ) (t : Selector ℝ) (form : MatrixForm ℝ) (A : RowMatrix ℝ) (b : List ℝ)
        (top : ℝ) (splits : List Split), form.read = .ok A → lambdaMax A b = .ok top →
        split A.height = .ok splits →
        (∀ (i : ℕ) (sp : Split), splits[i]? = some sp →
          Path.Exact (Fold.calls (F i) s A b top sp)) →
          (∀ (i : ℕ) (sp : Split) (e : FoldErrors ℝ), splits[i]? = some sp →
            (Fold.start (F i) s A b top sp).finish.outcome = .ok e →
              e.train.Pairwise (· ≥ ·)) ∧
            ((t.fitBy split F s choices form b).outcome = .ok () →
              ∃ curve, (t.fitBy split F s choices form b).selector.curve = some curve ∧
                curve.train.Pairwise (· ≥ ·)) := by
  constructor
  · intro A b s d p pinned hp hexact
    have hmonotone := Path.Driver.isMonotone_steps hp hexact
    refine ⟨hmonotone, fun r hr => ?_⟩
    rw [Path.Driver.points_eq_steps hr]
    exact hmonotone
  · intro split F s choices t form A b top splits hA htop hsplit hexact
    constructor
    · intro i sp e hsp he
      exact (Fold.pairwise_train (hexact i sp hsp) he).1
    · intro houtcome
      exact pairwise_curve hA htop hsplit hexact (learns_of_fitBy houtcome)

end Selector

/-- The source of the engine that finds minimisers. -/
noncomputable def exactFactory : Factory ℝ Unit := .ok (Path.exactEngine, ())

/-- With it the steps of every fold are solved exactly. -/
theorem exact_calls (s : Settings ℝ) (A : RowMatrix ℝ) (b : List ℝ) (top : ℝ) (split : Split) :
    Path.Exact (Fold.calls exactFactory s A b top split) := by
  cases hdriver : Factory.driver exactFactory s with
  | error f =>
    rw [Fold.calls, hdriver]
    intro c hc
    cases hc
  | ok source =>
    obtain ⟨d, setup⟩ := source
    rw [Fold.calls_of_driver hdriver]
    obtain ⟨engine, fresh, config, hF, -, rfl, rfl⟩ := Factory.driver_ok.1 hdriver
    cases hF
    exact (Path.Driver.exact_of_exactEngine (fun _ _ => rfl)
      (Fold.observations_length A b split.train) ⟨rfl, rfl, rfl, rfl⟩).1

/-- The path on two equal columns and the fit of a column are monotone with this engine. -/
theorem Selector.monotone_of_exact_column :
    (∃ r, (Path.Driver.run Path.warmSetup (.new ()) (Path.twinProblem [0, 0] [0])
      (some 1)).outcome = .ok r ∧ Path.IsMonotone Path.twinColumns [1] r.points) ∧
      ∃ curve, (Selector.new.fit exactFactory pairSettings [] (.compressed columnLayout)
          [1, 0]).outcome = .ok () ∧
        (Selector.new.fit exactFactory pairSettings [] (.compressed columnLayout)
          [1, 0]).selector.curve = some curve ∧ curve.train.Pairwise (· ≥ ·) := by
  have hmonotone := Selector.monotone_of_exact (σ := Unit) (τ := Unit)
  constructor
  · have hdata : (Problem.ofLasso ⟨0, Path.twinColumns⟩ [1]).SameData
        (Path.twinProblem [0, 0] [0]) := ⟨rfl, rfl, rfl, rfl⟩
    obtain ⟨r, hr⟩ := Path.Driver.run_returns (s := Path.warmSetup) (d := .new ())
      (p := Path.twinProblem [0, 0] [0]) (.inl rfl) (Path.exactEngine_serves _)
      ⟨rfl, rfl, rfl, rfl, rfl⟩ rfl (by show 3 ≤ Schedule.largestSize; decide)
    have hexact : Path.Exact (Path.Driver.calls Path.warmSetup (.new ())
        (Path.twinProblem [0, 0] [0]) (some 1)) :=
      (Path.Driver.exact_of_exactEngine (fun _ _ => rfl) rfl hdata).1
    exact ⟨r, hr, (hmonotone.1 _ _ _ _ _ _ hdata hexact).2 r hr⟩
  · obtain ⟨splits, hsplits⟩ := exists_pairSplits
    obtain ⟨u, path, hlearns, -⟩ := exists_learns_oneZero (F := exactFactory)
      (fun p => ⟨_, _, rfl, (Path.exactEngine_serves p).servesFrom ()⟩) Selector.new
    have houtcome := (Selector.fitBy_of_learns hlearns []).1
    obtain ⟨curve, hcurve, hpairwise⟩ := (hmonotone.2 pairSettings.split (fun _ => exactFactory)
      pairSettings [] Selector.new (.compressed columnLayout) column [1, 0] 1 splits read_column
      lambdaMax_oneZero hsplits fun _ sp _ =>
        exact_calls pairSettings column [1, 0] 1 sp).2 houtcome
    exact ⟨curve, houtcome, hcurve, hpairwise⟩

end RegPath.CrossValidation
