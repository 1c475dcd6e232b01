import RegPath.Proofs.Lasso.Threshold
import RegPath.Proofs.Path.Fitting
import RegPath.Proofs.Path.Stopping

namespace RegPath

/-!
# The threshold of a fit

A fit begins at the zero threshold of its lasso, so that its first problem has no other minimiser
than zero.  If the threshold is zero the fit returns the zero vector, which is then optimal for
every penalty.

* `IsZeroThreshold`, `isZeroThreshold_normInf` — the penalties that zero minimises;
* `Path.Driver.degenerate_of_fit`, `Path.Driver.first_call_of_fit` — the two beginnings of a fit;
* `Path.Driver.FitsFrom`, `Path.Driver.fit_zeroThreshold` — what a fit does from the threshold.
-/

/-- From `top` on zero is the only minimiser of a lasso, and below it is none. -/
structure IsZeroThreshold (A : RowMatrix ℝ) (b : List ℝ) (top : ℝ) : Prop where
  /-- From the threshold on zero is the only minimiser. -/
  isMinimiser_iff : ∀ lam (h : 0 < lam), top ≤ lam →
    ∀ x, (GraphForm.lasso A b lam h).IsMinimiser x ↔ x = Vec.zeros A.cols
  /-- Below the threshold zero is no minimiser. -/
  not_isMinimiser : ∀ lam (h : 0 < lam), lam < top →
    ¬ (GraphForm.lasso A b lam h).IsMinimiser (Vec.zeros A.cols)

/-- The largest entry of `|Aᵀ b|` is the threshold. -/
theorem isZeroThreshold_normInf {A : RowMatrix ℝ} {b : List ℝ} (hb : b.length = A.height) :
    IsZeroThreshold A b (Vec.normInf (A.transpose.mulVec b)) :=
  ⟨fun _ _ hlam x => GraphForm.lasso_isMinimiser_iff_eq_zeros hb hlam x,
    fun _ _ hlam => GraphForm.not_isMinimiser_zeros hb hlam⟩

namespace Path

namespace Driver

variable {σ : Type} {s : Setup ℝ σ} {d : Driver ℝ σ} {depth key : ℕ} {form : MatrixForm ℝ}
  {A : RowMatrix ℝ} {b : List ℝ}

/-- The top of the schedule of a fit is the threshold. -/
theorem isTop_ofLasso (hb : b.length = A.height) :
    IsTop (Problem.ofLasso ⟨key, A⟩ b) none (Vec.normInf (A.transpose.mulVec b)) :=
  .inr ⟨rfl, lambdaMax_eq hb⟩

/-- A fit from a threshold of zero returns the zero vector. -/
theorem degenerate_of_fit (hA : form.read = .ok A) (hb : b.length = A.height) {r : Result ℝ}
    (h : (d.fit s depth key form b).outcome = .ok r)
    (htop : Vec.normInf (A.transpose.mulVec b) ≤ 0) :
    r.phase = .degenerate ∧ r.x = Vec.zeros A.cols := by
  rw [fit_outcome s d depth key hA hb, run_degenerate (isTop_ofLasso hb) htop] at h
  obtain rfl := Except.ok.inj h
  exact ⟨rfl, rfl⟩

/-- A fit from a positive threshold takes a step. -/
theorem stopping_of_fit (hA : form.read = .ok A) (hb : b.length = A.height) {r : Result ℝ}
    (h : (d.fit s depth key form b).outcome = .ok r)
    (htop : ¬ Vec.normInf (A.transpose.mulVec b) ≤ 0) :
    ∃ schedule, schedule.top = Vec.normInf (A.transpose.mulVec b) ∧
      Stopping s (.ofLasso ⟨key, A⟩ b) schedule (d.fitCalls s depth key form b) r := by
  rw [fit_outcome s d depth key hA hb] at h
  rw [fitCalls_eq s d depth key hA hb]
  obtain ⟨schedule, hschedule, hmake⟩ := exists_schedule? (isTop_ofLasso hb) htop h
  exact ⟨schedule, (Schedule.make_ok hmake).1, .of_run hschedule h⟩

/-- The first problem of a fit is the lasso at the threshold. -/
theorem first_call_of_fit (hA : form.read = .ok A) (hb : b.length = A.height)
    {c : Request ℝ × Reply ℝ} (hc : (d.fitCalls s depth key form b)[0]? = some c) :
    ∃ h : 0 < Vec.normInf (A.transpose.mulVec b), c.1.form = GraphForm.lasso A b _ h := by
  rw [fitCalls_eq s d depth key hA hb] at hc
  obtain ⟨schedule, hpos, hmake, lam, x, y, hasked⟩ := askedAt_calls (isTop_ofLasso hb) hc
  -- The first entry of the schedule is its top.
  obtain rfl : schedule.top = lam :=
    Option.some.inj (schedule.entry?_zero.symm.trans hasked.asks.entry)
  obtain ⟨hlam, hrequest⟩ := hasked.request
  have hform := congrArg Request.form hrequest
  rw [Plan.form_pose_ofLasso] at hform
  obtain ⟨htop, -, -⟩ := Schedule.make_ok hmake
  exact ⟨not_le.1 hpos, by simpa only [htop] using hform⟩

/-- What a fit does from the threshold `top` of its lasso. -/
structure FitsFrom (s : Setup ℝ σ) (d : Driver ℝ σ) (depth key : ℕ) (form : MatrixForm ℝ)
    (A : RowMatrix ℝ) (b : List ℝ) (top : ℝ) : Prop where
  /-- The zero vector of a degenerate fit is optimal for every penalty. -/
  degenerate : ∀ r, (d.fit s depth key form b).outcome = .ok r → r.phase = .degenerate →
    r.x = Vec.zeros A.cols ∧ ∀ lam h, (GraphForm.lasso A b lam h).IsMinimiser r.x
  /-- The first point of any other fit is the answer of its first call. -/
  first_point : ∀ r, (d.fit s depth key form b).outcome = .ok r → r.phase ≠ .degenerate →
    ∃ (c : Request ℝ × Reply ℝ) (a : Solution ℝ) (pt : Point ℝ),
      (d.fitCalls s depth key form b)[0]? = some c ∧ c.2.outcome = .ok a ∧
        r.points[0]? = some pt ∧ pt.step = 0 ∧ pt.lam = top ∧ pt.x = a.x
  /-- The first call, also of a fit that fails later, has no other minimiser than zero. -/
  first_call : ∀ c, (d.fitCalls s depth key form b)[0]? = some c →
    (∃ h, c.1.form = GraphForm.lasso A b top h) ∧
      ∀ x, c.1.form.IsMinimiser x → x = Vec.zeros A.cols

/-- The computed threshold is the smallest penalty for which zero minimises the lasso, it is the
    only minimiser from there on, and a fit begins there. -/
theorem fit_zeroThreshold (s : Setup ℝ σ) (d : Driver ℝ σ) (depth key : ℕ) {form : MatrixForm ℝ}
    {A : RowMatrix ℝ} (hA : form.read = .ok A) {b : List ℝ} (hb : b.length = A.height) :
    ∃ top, lambdaMax A b = .ok top ∧ IsZeroThreshold A b top ∧
      FitsFrom s d depth key form A b top := by
  have hthreshold := isZeroThreshold_normInf hb
  refine ⟨_, lambdaMax_eq hb, hthreshold, fun r hr hphase => ?_, fun r hr hphase => ?_,
    fun c hc => ?_⟩
  · by_cases htop : Vec.normInf (A.transpose.mulVec b) ≤ 0
    · have hx := (degenerate_of_fit hA hb hr htop).2
      refine ⟨hx, fun lam h => ?_⟩
      exact (hthreshold.isMinimiser_iff lam h (le_trans htop (le_of_lt h)) r.x).2 hx
    · obtain ⟨schedule, -, hstopping⟩ := stopping_of_fit hA hb hr htop
      have hend := hstopping.phase
      rw [hphase] at hend
      exact absurd hend (by decide)
  · have htop : ¬ Vec.normInf (A.transpose.mulVec b) ≤ 0 :=
      fun htop => hphase (degenerate_of_fit hA hb hr htop).1
    obtain ⟨schedule, htop_eq, hstopping⟩ := stopping_of_fit hA hb hr htop
    have hpt := List.getElem?_eq_getElem hstopping.pos
    obtain ⟨q, reply, a, hc, ha, hx, -, -⟩ := hstopping.answer 0 _ hpt
    obtain ⟨hstep, hlam⟩ := hstopping.step 0 _ hpt
    refine ⟨(q, reply), a, _, hc, ha, hpt, hstep, ?_, hx⟩
    have hentry := Schedule.entry?_eq_of_grid hstopping.lambdas schedule.count_pos
    rw [schedule.entry?_zero, hlam, htop_eq] at hentry
    exact (Option.some.inj hentry).symm
  · obtain ⟨h, hform⟩ := first_call_of_fit hA hb hc
    refine ⟨⟨h, hform⟩, fun x hx => ?_⟩
    rw [hform] at hx
    exact (hthreshold.isMinimiser_iff _ h le_rfl x).1 hx

/-- The layout of a single number that is stored in two parts. -/
def splitLayout : Csr ℝ := ⟨1, 1, .narrow, [0, 2], [0, 0], [1, 1]⟩

/-- It is accepted. -/
theorem splitLayout_accepted : splitLayout.Accepted where
  pointerLength := rfl
  starts := rfl
  ends := rfl
  dataLength := rfl
  ordered := by decide
  inRange := by simp [splitLayout]

/-- A fit to that number begins at the threshold. -/
theorem fit_zeroThreshold_splitLayout :
    ∃ A top, (MatrixForm.compressed splitLayout).read = .ok A ∧ ([3] : List ℝ).length = A.height ∧
      lambdaMax A [3] = .ok top ∧ IsZeroThreshold A [3] top ∧
      FitsFrom ⟨briefConfig, zeroEngine, fun i => (i : ℝ)⟩ (.new ()) 0 0
        (.compressed splitLayout) A [3] top := by
  have hread := MatrixForm.read_compressed splitLayout_accepted
  obtain ⟨top, hmax, hthreshold, hfit⟩ := fit_zeroThreshold
    ⟨briefConfig, zeroEngine, fun i => (i : ℝ)⟩ (.new ()) 0 0 hread (b := [3]) rfl
  exact ⟨_, top, hread, rfl, hmax, hthreshold, hfit⟩

end Driver

end Path

end RegPath
