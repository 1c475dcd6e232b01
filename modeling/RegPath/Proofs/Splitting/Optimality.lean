import RegPath.Proofs.Splitting.Rounds

namespace RegPath

/-!
# Success without tolerances

With tolerances of zero a success means that both residuals of the last round vanish.  The
proximal pair is then on the graph and the certificate of the round leaves nothing, so the answer
is optimal.

* `Admm.Task.Exact.isMinimiser` — a round without residuals;
* `Admm.isMinimiser_of_success` — the answer of the engine.
-/

namespace Admm

/-- Without tolerances both residuals of a round that passes vanish. -/
theorem Settings.Passes.residuals {S : Settings ℝ} (habs : S.absTol = 0) (hrel : S.relTol = 0)
    {m n : ℕ} {s : Iterate ℝ} (h : S.Passes m n s) : s.primal ≤ 0 ∧ s.dual S.rho ≤ 0 := by
  obtain ⟨hprimal, hdual⟩ := h
  rw [primalBound, absPart, habs, hrel, mul_zero, zero_mul, add_zero] at hprimal
  rw [dualBound, absPart, habs, hrel, mul_zero, zero_mul, zero_mul, add_zero] at hdual
  exact ⟨hprimal, hdual⟩

namespace Task

variable {t : Task ℝ} {s : Iterate ℝ}

/-- Without a primal residual the proximal pair is the projected one. -/
theorem Exact.half_eq (ht : t.Exact) (hs : t.Shaped s) (h : (t.next s).primal ≤ 0) :
    (t.next s).xHalf = (t.next s).x ∧ (t.next s).yHalf = (t.next s).y := by
  have hnext := ht.shaped_next hs
  rw [ht.primal_eq hs, norm_le_zero_iff, sub_eq_zero] at h
  exact Vec.eq_of_joint_eq (ht.half_x hs).1 hnext.x (ht.half_y hs).1 hnext.y h

/-- The proximal columns of a round without residuals minimise the problem. -/
theorem Exact.isMinimiser (ht : t.Exact) (hs : t.Shaped s) (hprimal : (t.next s).primal ≤ 0)
    (hdual : (t.next s).dual t.settings.rho ≤ 0) : t.form.IsMinimiser (t.next s).xHalf := by
  obtain ⟨hlength, hcols⟩ := ht.half_x hs
  obtain ⟨hxHalf, hyHalf⟩ := ht.half_eq hs hprimal
  have hgraph : (t.next s).yHalf = t.kernel.matrix.mulVec (t.next s).xHalf := by
    rw [hxHalf, hyHalf]
    rfl
  have hrows : Term.AllAdmit t.rowTerms (t.kernel.matrix.mulVec (t.next s).xHalf) := by
    rw [← hgraph]
    exact (ht.half_y hs).2.admits
  refine ⟨hlength, ⟨hrows, hcols.admits⟩, fun z hz hadm => ?_⟩
  have hle := ht.splitCost_half_le hs hz hadm
  have hrho := t.settings.rho_pos_real
  have hprimal_zero : t.settings.rho * ‖t.dualPoint (t.next s)‖ * (t.next s).primal ≤ 0 :=
    mul_nonpos_of_nonneg_of_nonpos (by positivity) hprimal
  have hdual_zero : (t.next s).dual t.settings.rho *
      ‖t.halfPoint (t.next s) - Vec.joint _ _ z (t.kernel.matrix.mulVec z)‖ ≤ 0 :=
    mul_nonpos_of_nonpos_of_nonneg hdual (norm_nonneg _)
  rw [hgraph] at hle
  calc t.form.cost (t.next s).xHalf
      = t.form.splitCost (t.next s).xHalf (t.kernel.matrix.mulVec (t.next s).xHalf) := rfl
    _ ≤ t.form.cost z := by linarith

end Task

/-- Settings with a penalty parameter of one and no relative tolerance. -/
noncomputable def Settings.plain (absTol : ℝ) (maxIter : ℕ) (habs : 0 ≤ absTol)
    (hmax : 0 < maxIter) : Settings ℝ where
  rho := 1
  absTol := absTol
  relTol := 0
  maxIter := maxIter
  rho_pos := not_le.2 one_pos
  absTol_nonneg := not_lt.2 habs
  relTol_nonneg := Scalar.zero_tolerance
  maxIter_pos := hmax

/-- One row term and one column term at the same number, which is guessed to be `a`. -/
noncomputable def single (f g : Term ℝ) (a : ℝ) : Request ℝ where
  design := ⟨0, RowMatrix.identity 1⟩
  rowTerms := [f]
  colTerms := [g]
  x := [a]
  y := [a]

/-- Without tolerances a success is an exact solution: the rows are the product of the columns,
    and the columns minimise the sum of all terms. -/
theorem isMinimiser_of_success {F : Factorization ℝ} (hF : F.Exact) {S : Settings ℝ}
    (habs : S.absTol = 0) (hrel : S.relTol = 0) {q : Request ℝ}
    (hrows : q.rowTerms.length = q.height) (hcols : q.colTerms.length = q.width)
    {s : Solution ℝ} (h : ((engine F S).solve .empty q).1.outcome = .ok s)
    (hs : s.status = .success) :
    s.y = q.design.matrix.mulVec s.x ∧ q.form.IsMinimiser s.x := by
  obtain ⟨k, x, y, hprepare, hjudge, rfl⟩ := solve_ok h
  obtain ⟨k', hprepare', hmatrix, ht, hform⟩ := exists_exact_task hF S hrows hcols
  obtain rfl := Except.ok.inj (hprepare.symm.trans hprepare')
  obtain ⟨hx, hy⟩ := length_of_judge hjudge
  obtain ⟨hends, hxHalf, hyProduct⟩ := Task.run_ends ⟨S, k, q.rowTerms, q.colTerms⟩ x y
  rw [hs] at hends
  refine ⟨by rw [hyProduct, hmatrix], ?_⟩
  -- The last round is the round after one whose vectors have the right lengths.
  obtain ⟨i, hi⟩ := Nat.exists_eq_succ_of_ne_zero (Nat.ne_of_gt hends.pos)
  have hshaped := ht.shaped_iterate (Task.shaped_start (by rw [hx, hmatrix]; rfl)
    (by rw [hy, hmatrix]; rfl)) i
  have hresiduals := hends.passes.residuals habs hrel
  rw [hi, Function.iterate_succ_apply'] at hresiduals hxHalf
  rw [hxHalf, ← hform]
  exact ht.isMinimiser hshaped hresiduals.1 hresiduals.2

/-- The kernel of the matrix of a single number. -/
theorem prepare_single (f g : Term ℝ) (a : ℝ) :
    (Cache.empty.prepare .elimination (single f g a).design).1 =
      .ok ⟨.identity 1, (RowMatrix.identity 1).transpose, Factor.solve [⟨0, 1 + 1, [], []⟩]⟩ := by
  simp [Cache.prepare, Cache.empty, single, RowMatrix.identity, RowMatrix.normalTriangle,
    RowMatrix.column, RowMatrix.columnDot, RowMatrix.storedAt, Factorization.elimination,
    Triangle.rows, Factor.ofRows?, Factor.largest?]

/-- The iteration on a single number. -/
noncomputable def singleTask (S : Settings ℝ) (f g : Term ℝ) : Task ℝ :=
  ⟨S, ⟨.identity 1, (RowMatrix.identity 1).transpose, Factor.solve [⟨0, 1 + 1, [], []⟩]⟩, [f], [g]⟩

/-- A call for a single number runs the iteration on it. -/
theorem solve_single (S : Settings ℝ) (f g : Term ℝ) (a : ℝ) :
    ((engine .elimination S).solve .empty (single f g a)).1.outcome =
      .ok ((singleTask S f g).run [a] [a]) := by
  refine solve_of_judge S (prepare_single f g a) (judge_of_length ?_ rfl rfl rfl rfl)
  exact ⟨rfl, .inl rfl⟩

/-- Half a square pulls nothing away from its centre. -/
theorem prox_square_offset (a : ℝ) {rho : ℝ} (h : 1 + rho ≠ 0) :
    (Term.unit .square a).prox a rho = a := by
  simp only [Term.prox, Term.unit]
  field_simp

/-- Nor does an absolute value. -/
theorem prox_abs_offset (a rho : ℝ) : (Term.unit .abs a).prox a rho = a := by
  simp [Term.prox, Term.unit, Scalar.sign]

/-- The problem `(y - 2)² / 2 + |x - 2|` stays at its solution. -/
theorem next_centred (S : Settings ℝ) :
    (singleTask S (.unit .square 2) (.unit .abs 2)).next (.start [2] [2]) =
      ⟨[2], [2], [0], [0], [2], [2], [2], [2]⟩ := by
  have hrho : 1 + S.rho ≠ 0 := by linarith [S.rho_pos_real]
  have hsquare := prox_square_offset 2 hrho
  have habs := prox_abs_offset 2 S.rho
  simp [singleTask, Task.next, Iterate.next, Iterate.start, Kernel.project, Term.proxAll, hsquare,
    habs, Vec.zeros, Vec.sub, Vec.add, Factor.solve, addStretched, RowMatrix.identity,
    RowMatrix.transpose, RowMatrix.column, RowMatrix.mulVec, RowMatrix.rowDot, Factor.timesEntry]
  norm_num

/-- From its solution the problem is solved in one round. -/
theorem solve_centred :
    ((engine .elimination (.plain 0 1 le_rfl one_pos)).solve .empty
      (single (.unit .square 2) (.unit .abs 2) 2)).1.outcome = .ok ⟨[2], [2], .success, 1⟩ := by
  have hverdict : (singleTask (.plain 0 1 le_rfl one_pos) (.unit .square 2)
      (.unit .abs 2)).verdict? ⟨[2], [2], [0], [0], [2], [2], [2], [2]⟩ = some .success := by
    refine Settings.verdict?_eq_success.2 ⟨⟨Scalar.isFinite_real _, Scalar.isFinite_real _⟩, ?_⟩
    simp [Settings.Passes, Iterate.primal, Iterate.dual, Settings.primalBound, Settings.dualBound,
      Settings.absPart, Settings.plain, singleTask, Vec.pairNorm, Vec.sumSquares, Vec.sub]
  rw [solve_single, Task.run, show (singleTask (.plain 0 1 le_rfl one_pos) _ _).settings.maxIter = 1
    from rfl, Task.iterate]
  simp only [next_centred, hverdict]
  simp [singleTask, RowMatrix.identity, RowMatrix.mulVec, RowMatrix.rowDot]

/-- The answer there is the minimiser. -/
theorem isMinimiser_centred :
    ∃ s, ((engine .elimination (.plain 0 1 le_rfl one_pos)).solve .empty
        (single (.unit .square 2) (.unit .abs 2) 2)).1.outcome = .ok s ∧ s.status = .success ∧
      s.y = (RowMatrix.identity 1).mulVec s.x ∧
      GraphForm.IsMinimiser ⟨.identity 1, [.unit .square 2], [.unit .abs 2]⟩ s.x :=
  ⟨_, solve_centred, rfl, isMinimiser_of_success Factorization.elimination_exact rfl rfl rfl rfl
    solve_centred rfl⟩

end Admm

end RegPath
