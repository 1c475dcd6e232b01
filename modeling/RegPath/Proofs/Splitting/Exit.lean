import RegPath.Proofs.Splitting.Service

namespace RegPath

/-!
# How a call of the splitting ends

A run ends at the first round that has a verdict, or at its cap.  In exact arithmetic the verdict is
the test of the residuals, so that a success tells which round was the first to pass, the cap tells
that none has passed, and a larger cap changes nothing about a success.

* `Admm.Task.Ends.unique` — a run ends in one way;
* `Admm.Settings.withCap`, `Admm.Task.run_withCap` — the same run with a larger cap;
* `Admm.Task.PassesAt`, `Admm.Task.Answers` — what is promised of an answer;
* `Admm.Task.Exact.answers` — the answer of a run;
* `Admm.answers_solve` — the answer of a call of the engine.
-/

namespace Admm

section Caps

variable {α : Type} [Scalar α]

/-! ### Caps -/

/-- The same settings with a larger cap on the iterations. -/
def Settings.withCap (S : Settings α) (cap : ℕ) (h : S.maxIter ≤ cap) : Settings α :=
  { S with
    maxIter := cap
    maxIter_pos := Nat.lt_of_lt_of_le S.maxIter_pos h }

namespace Task

variable {t : Task α} {s : Iterate α} {cap cap' k k' : ℕ} {status status' : Status}

/-- The same task with a larger cap. -/
def withCap (t : Task α) (cap : ℕ) (h : t.settings.maxIter ≤ cap) : Task α :=
  { t with settings := t.settings.withCap cap h }

/-- The cap does not change the rounds. -/
@[simp] theorem next_withCap (h : t.settings.maxIter ≤ cap) : (t.withCap cap h).next = t.next := rfl

/-- Nor does it change the verdict on a round. -/
@[simp] theorem verdict?_withCap (h : t.settings.maxIter ≤ cap) :
    (t.withCap cap h).verdict? = t.verdict? := rfl

/-- An iteration that ends with a verdict has ended before it could reach another cap. -/
theorem Ends.not_lt (h : t.Ends s cap status k) (h' : t.Ends s cap' status' k')
    (hcap : cap' ≤ cap) : ¬ k < k' := by
  intro hlt
  have hnone := h'.before k h.pos hlt
  rcases h.exit with hexit | ⟨hk, -, -⟩
  · rw [hnone] at hexit
    cases hexit
  · -- At its own cap the iteration has no round left that the other could take.
    have hle := h'.le
    omega

/-- An iteration ends in one way. -/
theorem Ends.unique (h : t.Ends s cap status k) (h' : t.Ends s cap status' k') :
    status = status' ∧ k = k' := by
  have hk : k = k' :=
    Nat.le_antisymm (Nat.le_of_not_lt (h'.not_lt h le_rfl)) (Nat.le_of_not_lt (h.not_lt h' le_rfl))
  subst hk
  refine ⟨?_, rfl⟩
  -- Both end with the same round, which either has a verdict or has none.
  rcases h.exit with hexit | ⟨-, hstatus, hnone⟩
  · rcases h'.exit with hexit' | ⟨-, -, hnone'⟩
    · exact Option.some.inj (hexit.symm.trans hexit')
    · cases hexit.symm.trans hnone'
  · rcases h'.exit with hexit' | ⟨-, hstatus', -⟩
    · cases hexit'.symm.trans hnone
    · exact hstatus.trans hstatus'.symm

/-- A run that ends in some way has the answer of its last round. -/
theorem run_of_ends {x y : List α} (h : t.Ends (.start x y) t.settings.maxIter status k) :
    t.run x y = ⟨(t.next^[k] (.start x y)).xHalf,
      t.kernel.matrix.mulVec (t.next^[k] (.start x y)).xHalf, status, k⟩ := by
  obtain ⟨hends, hx, hy⟩ := t.run_ends x y
  obtain ⟨hstatus, hk⟩ := hends.unique h
  rw [hk] at hx
  rw [hx] at hy
  generalize t.run x y = a at hx hy hstatus hk
  cases a
  congr

/-- A run that succeeds does the same with a larger cap. -/
theorem run_withCap {x y : List α} (h : t.settings.maxIter ≤ cap)
    (hsuccess : (t.run x y).status = .success) : (t.withCap cap h).run x y = t.run x y := by
  obtain ⟨hends, -, -⟩ := t.run_ends x y
  rw [hsuccess] at hends
  have hverdict : t.verdict? (t.next^[(t.run x y).iterations] (.start x y)) = some .success := by
    rcases hends.exit with hexit | ⟨-, hstatus, -⟩
    · exact hexit
    · cases hstatus
  have hlonger : (t.withCap cap h).Ends (.start x y) (t.withCap cap h).settings.maxIter .success
      (t.run x y).iterations := by
    refine ⟨hends.pos, le_trans hends.le h, fun i hi hlt => ?_, .inl ?_⟩
    · rw [next_withCap, verdict?_withCap]
      exact hends.before i hi hlt
    · rw [next_withCap, verdict?_withCap]
      exact hverdict
  rw [run_of_ends hlonger, run_of_ends hends, next_withCap]
  rfl

end Task

end Caps

namespace Task

variable {t : Task ℝ} {s : Iterate ℝ} {cap k : ℕ} {status : Status}

/-! ### The test -/

/-- Whether both residuals of round `k` from `s` are within their thresholds. -/
def PassesAt (t : Task ℝ) (s : Iterate ℝ) (k : ℕ) : Prop :=
  t.settings.Passes t.kernel.matrix.height t.kernel.matrix.cols (t.next^[k] s)

/-- A round without a verdict has not passed the test. -/
theorem not_passesAt_of_verdict? (h : t.verdict? (t.next^[k] s) = none) : ¬ t.PassesAt s k :=
  (Settings.verdict?_eq_none.1 h).2

/-- No round before the last one passes. -/
theorem Ends.not_passesAt (h : t.Ends s cap status k) {i : ℕ} (hi : 0 < i) (hik : i < k) :
    ¬ t.PassesAt s i :=
  not_passesAt_of_verdict? (h.before i hi hik)

/-- At the cap no round has passed. -/
theorem Ends.capped (h : t.Ends s cap .maxIter k) :
    k = cap ∧ ∀ i, 0 < i → i ≤ cap → ¬ t.PassesAt s i := by
  rcases h.exit with hexit | ⟨hk, -, hnone⟩
  · -- Reaching the cap is not a verdict.
    rcases t.settings.verdict?_real t.kernel.matrix.height t.kernel.matrix.cols (t.next^[k] s) with
      hsuccess | ⟨hnone, -⟩
    · cases hexit.symm.trans hsuccess
    · cases hexit.symm.trans hnone
  · subst hk
    refine ⟨rfl, fun i hi hle => ?_⟩
    rcases Nat.lt_or_eq_of_le hle with hlt | rfl
    · exact h.not_passesAt hi hlt
    · exact not_passesAt_of_verdict? hnone

/-- A success is the first round that passes. -/
theorem Ends.isLeast (h : t.Ends s cap .success k) : IsLeast {i | 0 < i ∧ t.PassesAt s i} k := by
  refine ⟨⟨h.pos, h.passes⟩, ?_⟩
  rintro i ⟨hi, hpasses⟩
  exact Nat.le_of_not_lt fun hlt => h.not_passesAt hi hlt hpasses

/-! ### Answers -/

/-- What is promised of the answer `a` of a run from `x` and `y`. -/
structure Answers (t : Task ℝ) (x y : List ℝ) (a : Solution ℝ) : Prop where
  /-- One entry for each column. -/
  length : a.x.length = t.kernel.matrix.cols
  /-- The rows are the product of the columns. -/
  product : a.y = t.kernel.matrix.mulVec a.x
  /-- There is an iteration. -/
  one_le : 1 ≤ a.iterations
  /-- The cap holds. -/
  le_cap : a.iterations ≤ t.settings.maxIter
  /-- No column term is infinite. -/
  admits : Term.AllAdmit t.colTerms a.x
  /-- No column with a half-line is below its offset. -/
  offset_le : ∀ (j : ℕ) (g : Term ℝ) (v : ℝ), t.colTerms[j]? = some g → a.x[j]? = some v →
    g.kind = .nonneg → g.offset ≤ v
  /-- It is a success or the cap was reached. -/
  status : a.status = .success ∨ a.status = .maxIter
  /-- It is a success exactly if the test passes within the cap. -/
  success_iff : a.status = .success ↔
    ∃ k, 0 < k ∧ k ≤ t.settings.maxIter ∧ t.PassesAt (.start x y) k
  /-- A success counts the iterations up to the first that passes. -/
  first : a.status = .success → IsLeast {k | 0 < k ∧ t.PassesAt (.start x y) k} a.iterations
  /-- Otherwise all iterations were taken, and none passed. -/
  capped : a.status = .maxIter → a.iterations = t.settings.maxIter ∧
    ∀ k, 0 < k → k ≤ t.settings.maxIter → ¬ t.PassesAt (.start x y) k

/-- Admitted entries of half-lines are not below their offsets. -/
theorem offset_le_of_admits {ts : List (Term ℝ)} {x : List ℝ} (h : Term.AllAdmit ts x) {j : ℕ}
    {g : Term ℝ} {v : ℝ} (hg : ts[j]? = some g) (hv : x[j]? = some v) (hkind : g.kind = .nonneg) :
    g.offset ≤ v := by
  have hmem : (g, v) ∈ List.zip ts x :=
    List.mem_of_getElem? (i := j) (List.getElem?_zip_eq_some.2 ⟨hg, hv⟩)
  exact (Term.admits_nonneg hkind).1 (h _ hmem)

/-- The answer of every run from a guess of the right lengths. -/
theorem Exact.answers (ht : t.Exact) {x y : List ℝ} (hs : t.Shaped (.start x y)) :
    t.Answers x y (t.run x y) := by
  obtain ⟨hends, hxHalf, hproduct⟩ := t.run_ends x y
  obtain ⟨s, hround, hlast⟩ := ht.exists_last_round hs
  -- The answer is a vector of proximal points, and those are admitted.
  have hadmits : Term.AllAdmit t.colTerms (t.run x y).x := by
    rw [hxHalf, hlast]
    exact (ht.half_x hround).2.admits
  have hstatus := t.status_run x y
  generalize t.run x y = a at *
  have hfirst : a.status = .success → IsLeast {k | 0 < k ∧ t.PassesAt (.start x y) k}
      a.iterations := by
    intro hsuccess
    rw [hsuccess] at hends
    exact hends.isLeast
  have hcapped : a.status = .maxIter → a.iterations = t.settings.maxIter ∧
      ∀ k, 0 < k → k ≤ t.settings.maxIter → ¬ t.PassesAt (.start x y) k := by
    intro hmax
    rw [hmax] at hends
    exact hends.capped
  refine ⟨?_, hproduct, hends.pos, hends.le, hadmits,
    fun j g v hg hv => offset_le_of_admits hadmits hg hv, hstatus, ⟨?_, ?_⟩, hfirst, hcapped⟩
  · rw [hxHalf, hlast]
    exact (ht.half_x hround).1
  · intro hsuccess
    obtain ⟨⟨hpos, hpasses⟩, -⟩ := hfirst hsuccess
    exact ⟨a.iterations, hpos, hends.le, hpasses⟩
  · rintro ⟨k, hpos, hle, hpasses⟩
    exact hstatus.resolve_right fun hmax => (hcapped hmax).2 k hpos hle hpasses

end Task

/-! ### Calls of the engine -/

/-- The task of a call is determined by the engine and the request. -/
theorem Cache.Poses.unique {F : Factorization ℝ} {S : Settings ℝ} {c : Cache ℝ} {q : Request ℝ}
    {t t' : Task ℝ} (h : c.Poses F S q t) (h' : c.Poses F S q t') : t = t' := by
  obtain ⟨S₁, k₁, rows₁, cols₁⟩ := t
  obtain ⟨S₂, k₂, rows₂, cols₂⟩ := t'
  have hkernel : k₁ = k₂ := Except.ok.inj (h.kernel.symm.trans h'.kernel)
  have hsettings : S₁ = S₂ := h.settings.trans h'.settings.symm
  have hrows : rows₁ = rows₂ := h.rowTerms.trans h'.rowTerms.symm
  have hcols : cols₁ = cols₂ := h.colTerms.trans h'.colTerms.symm
  rw [hkernel, hsettings, hrows, hcols]

/-- With exact solves every call returns an answer as it is promised, whatever its guess, and if it
    is a success, a larger cap gives the same answer. -/
theorem answers_solve {F : Factorization ℝ} (hF : F.Exact) (S : Settings ℝ) {c : Cache ℝ}
    {q : Request ℝ} (hc : c.Intact F q.design) {x y : List ℝ} (hq : StartsAt q x y) :
    ∃ t a, c.Poses F S q t ∧ t.form = q.form ∧ ((engine F S).solve c q).1.outcome = .ok a ∧
      t.Answers x y a ∧
      (a.status = .success → ∀ (cap : ℕ) (h : S.maxIter ≤ cap),
        ((engine F (S.withCap cap h)).solve c q).1.outcome = .ok a) := by
  obtain ⟨t, hposes, hexact, hform, hshaped, hanswer⟩ := hc.exists_task_from hF S hq
  refine ⟨t, _, hposes, hform, hanswer, hexact.answers hshaped, fun hsuccess cap hcap => ?_⟩
  obtain ⟨t', hposes', -, -, -, hanswer'⟩ := hc.exists_task_from hF (S.withCap cap hcap) hq
  obtain rfl := hposes.settings
  -- The engine with the larger cap works on the same task but for the cap.
  have hlonger : c.Poses F (t.settings.withCap cap hcap) q (t.withCap cap hcap) :=
    ⟨rfl, hposes.kernel, hposes.rowTerms, hposes.colTerms⟩
  rw [hanswer', hposes'.unique hlonger, Task.run_withCap hcap hsuccess]

/-- The answer for all four shapes. -/
theorem answers_solve_mixed :
    ∃ t a, Cache.empty.Poses .elimination (.plain 1 4 zero_le_one (by decide)) mixed t ∧
      t.form = mixed.form ∧
      ((engine .elimination (.plain 1 4 zero_le_one (by decide))).solve .empty mixed).1.outcome =
        .ok a ∧
      t.Answers [1, 1] [0, 1] a ∧
      (a.status = .success → ∀ (cap : ℕ) (h : 4 ≤ cap),
        ((engine .elimination (Settings.withCap (.plain 1 4 zero_le_one (by decide)) cap h)).solve
          .empty mixed).1.outcome = .ok a) :=
  answers_solve Factorization.elimination_exact (.plain 1 4 zero_le_one (by decide))
    (Cache.intact_empty _ _) startsAt_mixed

end Admm

end RegPath
