import RegPath.Proofs.Matrix.Similar
import RegPath.Proofs.Splitting.Representation
import RegPath.Proofs.Splitting.Rounds

namespace RegPath

/-!
# The splitting on similar problems

Every vector of a round moves with its side, and every residual and threshold is multiplied by the
factor of the similarity, if the absolute tolerance is.  So both runs take the same rounds, and the
answer of one is the moved answer of the other.

* `Admm.Settings.ScaledBy` — settings whose absolute tolerance is multiplied by a factor;
* `Admm.Task.Similar` — tasks on similar matrices whose proximal points move;
* `Admm.Iterate.moved`, `Admm.Settings.verdict?_moved` — a moved iterate and its test;
* `Admm.Task.Similar.next_moved` — one round;
* `Admm.Task.Similar.run_moved` — the whole run.
-/

namespace Admm

variable {m n : ℕ} {I : Similarity m n}

/-- The settings are the same, but for the absolute tolerance, which is multiplied by `c`. -/
structure Settings.ScaledBy (c : ℝ) (S S' : Settings ℝ) : Prop where
  /-- The penalty parameter is the same. -/
  rho : S'.rho = S.rho
  /-- The absolute tolerance is a multiple. -/
  absTol : S'.absTol = c * S.absTol
  /-- The relative tolerance is the same. -/
  relTol : S'.relTol = S.relTol
  /-- The iteration cap is the same. -/
  maxIter : S'.maxIter = S.maxIter

/-- With the factor one nothing changes. -/
theorem Settings.scaledBy_one (S : Settings ℝ) : S.ScaledBy 1 S :=
  ⟨rfl, (one_mul _).symm, rfl, rfl⟩

/-- Exact tasks on similar matrices, whose proximal points move with their vectors. -/
structure Task.Similar (I : Similarity m n) (t t' : Task ℝ) : Prop where
  /-- The first is exact. -/
  exact : t.Exact
  /-- So is the second. -/
  exact' : t'.Exact
  /-- The settings differ by the factor. -/
  settings : t.settings.ScaledBy I.factor t'.settings
  /-- The matrices are similar. -/
  matrix : t.kernel.matrix.Similar I t'.kernel.matrix
  /-- Proximal points of the rows move. -/
  rows : ∀ v, v.length = m → Term.proxAll t'.rowTerms (I.y v) t.settings.rho =
    I.y (Term.proxAll t.rowTerms v t.settings.rho)
  /-- Proximal points of the columns move. -/
  cols : ∀ v, v.length = n → Term.proxAll t'.colTerms (I.x v) t.settings.rho =
    I.x (Term.proxAll t.colTerms v t.settings.rho)

/-! ### Iterates -/

attribute [ext] Iterate

/-- Every vector of the iterate is moved. -/
def Iterate.moved (I : Similarity m n) (s : Iterate ℝ) : Iterate ℝ where
  x := I.x s.x
  y := I.y s.y
  xDual := I.x s.xDual
  yDual := I.y s.yDual
  xHalf := I.x s.xHalf
  yHalf := I.y s.yHalf
  xPrev := I.x s.xPrev
  yPrev := I.y s.yPrev

/-- Every vector of the iterate has the length of its side. -/
structure Iterate.Sized (m n : ℕ) (s : Iterate ℝ) : Prop where
  /-- Projected columns. -/
  x : s.x.length = n
  /-- Projected rows. -/
  y : s.y.length = m
  /-- Dual of the columns. -/
  xDual : s.xDual.length = n
  /-- Dual of the rows. -/
  yDual : s.yDual.length = m
  /-- Proximal columns. -/
  xHalf : s.xHalf.length = n
  /-- Proximal rows. -/
  yHalf : s.yHalf.length = m
  /-- Columns of the round before. -/
  xPrev : s.xPrev.length = n
  /-- Rows of the round before. -/
  yPrev : s.yPrev.length = m

/-- A guess of the right lengths is a sized iterate. -/
theorem Iterate.sized_start {x y : List ℝ} (hx : x.length = n) (hy : y.length = m) :
    (Iterate.start x y).Sized m n :=
  ⟨hx, hy, (Vec.length_zeros _).trans hx, (Vec.length_zeros _).trans hy, hx, hy, hx, hy⟩

/-- The iteration from a moved guess starts with the moved iterate. -/
theorem Iterate.start_moved (I : Similarity m n) {x y : List ℝ} (hx : x.length = n)
    (hy : y.length = m) : Iterate.start (I.x x) (I.y y) = (Iterate.start x y).moved I := by
  simp only [start, moved, I.carries_x.length x hx, I.carries_y.length y hy, hx, hy,
    I.carries_x.zeros, I.carries_y.zeros]

section Residuals

variable {s : Iterate ℝ} (hs : s.Sized m n)

include hs

/-- The primal residual of a moved iterate is multiplied by the factor. -/
theorem Iterate.primal_moved : (s.moved I).primal = I.factor * s.primal := by
  rw [primal, primal, moved, I.carries_x.sub hs.xHalf hs.x, I.carries_y.sub hs.yHalf hs.y,
    I.carries_x.pairNorm I.carries_y I.factor_pos (Vec.length_sub_of_eq hs.xHalf hs.x)
      (Vec.length_sub_of_eq hs.yHalf hs.y)]

/-- So is the dual residual. -/
theorem Iterate.dual_moved (rho : ℝ) : (s.moved I).dual rho = I.factor * s.dual rho := by
  rw [dual, dual, moved, I.carries_x.sub hs.x hs.xPrev, I.carries_y.sub hs.y hs.yPrev,
    I.carries_x.pairNorm I.carries_y I.factor_pos (Vec.length_sub_of_eq hs.x hs.xPrev)
      (Vec.length_sub_of_eq hs.y hs.yPrev), mul_left_comm]

variable {S S' : Settings ℝ} (hS : S.ScaledBy I.factor S')

include hS

/-- What the primal residual is compared with is multiplied by the factor. -/
theorem Settings.primalBound_moved :
    S'.primalBound m n (s.moved I) = I.factor * S.primalBound m n s := by
  have hhalf := I.carries_x.pairNorm I.carries_y I.factor_pos hs.xHalf hs.yHalf
  have hprojected := I.carries_x.pairNorm I.carries_y I.factor_pos hs.x hs.y
  rw [primalBound, primalBound, absPart, absPart, Iterate.moved, hhalf, hprojected, hS.absTol,
    hS.relTol, Scalar.laterIfLarger_real, Scalar.laterIfLarger_real,
    ← mul_max_of_nonneg _ _ (le_of_lt I.factor_pos)]
  ring

/-- So is what the dual residual is compared with. -/
theorem Settings.dualBound_moved :
    S'.dualBound m n (s.moved I) = I.factor * S.dualBound m n s := by
  have hdual := I.carries_x.pairNorm I.carries_y I.factor_pos hs.xDual hs.yDual
  rw [dualBound, dualBound, absPart, absPart, Iterate.moved, hdual, hS.absTol, hS.relTol, hS.rho]
  ring

/-- Moved iterates have the same verdicts. -/
theorem Settings.verdict?_moved : S'.verdict? m n (s.moved I) = S.verdict? m n s := by
  have hhealthy : ∀ (S : Settings ℝ) (s : Iterate ℝ), ¬ ¬ S.Healthy s :=
    fun S s => not_not.2 ⟨Scalar.isFinite_real _, Scalar.isFinite_real _⟩
  have hpasses : S'.Passes m n (s.moved I) ↔ S.Passes m n s := by
    rw [Passes, Passes, Iterate.primal_moved hs, primalBound_moved hs hS, hS.rho,
      Iterate.dual_moved hs, dualBound_moved hs hS, mul_le_mul_iff_right₀ I.factor_pos,
      mul_le_mul_iff_right₀ I.factor_pos]
  rw [verdict?, verdict?, if_neg (hhealthy _ _), if_neg (hhealthy _ _), if_congr hpasses rfl rfl]

end Residuals

namespace Task.Similar

variable {t t' : Task ℝ} {s : Iterate ℝ}

/-! ### One round -/

/-- The projection of a moved pair is the moved projection: it solves the same system, which has one
    solution. -/
theorem project_moved (h : t.Similar I t') {c d : List ℝ} (hc : c.length = n) (hd : d.length = m) :
    (t'.kernel.project (I.x c) (I.y d)).1 = I.x (t.kernel.project c d).1 ∧
      (t'.kernel.project (I.x c) (I.y d)).2 = I.y (t.kernel.project c d).2 := by
  have hcols := h.matrix.cols
  have hc' : (I.x c).length = t'.kernel.matrix.cols :=
    (I.carries_x.length c hc).trans h.matrix.cols'.symm
  obtain ⟨hlen, hsolves⟩ := h.exact.kernel.solves_project (hc.trans hcols.symm) d
  obtain ⟨hlen', hsolves'⟩ := h.exact'.kernel.solves_project hc' (I.y d)
  have hx := hlen.trans hcols
  have hmoved : (t'.kernel.project (I.x c) (I.y d)).1 = I.x (t.kernel.project c d).1 := by
    refine t'.kernel.matrix.eq_of_normal hlen'
      ((I.carries_x.length _ hx).trans h.matrix.cols'.symm) (hsolves'.trans ?_)
    rw [h.matrix.normal_eq hx, h.matrix.transpose_mulVec_eq hd,
      I.carries_x.add hc ((t.kernel.matrix.length_transpose_mulVec d).trans hcols), ← hsolves]
    rfl
  refine ⟨hmoved, ?_⟩
  show t'.kernel.matrix.mulVec (t'.kernel.project (I.x c) (I.y d)).1 = _
  rw [hmoved, h.matrix.mulVec_eq hx]
  rfl

section Round

variable (h : t.Similar I t') (hs : s.Sized m n)

include h hs

/-- A sized iterate has the lengths that a round needs. -/
theorem shaped : t.Shaped s :=
  ⟨hs.x.trans h.matrix.cols.symm, hs.y.trans h.matrix.height.symm,
    hs.xDual.trans h.matrix.cols.symm, hs.yDual.trans h.matrix.height.symm⟩

/-- A round makes a sized iterate of it. -/
theorem sized_next : (t.next s).Sized m n := by
  have hcols := h.matrix.cols
  have hheight := h.matrix.height
  have hshaped := h.shaped hs
  have hnext := h.exact.shaped_next hshaped
  exact ⟨hnext.x.trans hcols, hnext.y.trans hheight, hnext.xDual.trans hcols,
    hnext.yDual.trans hheight, (h.exact.half_x hshaped).1.trans hcols,
    (h.exact.half_y hshaped).1.trans hheight, hs.x, hs.y⟩

/-- The proximal points of a moved iterate are moved. -/
theorem half_moved : (t'.next (s.moved I)).xHalf = I.x (t.next s).xHalf ∧
    (t'.next (s.moved I)).yHalf = I.y (t.next s).yHalf := by
  constructor
  · show Term.proxAll t'.colTerms (Vec.sub (I.x s.x) (I.x s.xDual)) t'.settings.rho = _
    rw [h.settings.rho, I.carries_x.sub hs.x hs.xDual,
      h.cols _ (Vec.length_sub_of_eq hs.x hs.xDual)]
    rfl
  · show Term.proxAll t'.rowTerms (Vec.sub (I.y s.y) (I.y s.yDual)) t'.settings.rho = _
    rw [h.settings.rho, I.carries_y.sub hs.y hs.yDual,
      h.rows _ (Vec.length_sub_of_eq hs.y hs.yDual)]
    rfl

/-- The projected points are moved. -/
theorem projected_moved : (t'.next (s.moved I)).x = I.x (t.next s).x ∧
    (t'.next (s.moved I)).y = I.y (t.next s).y := by
  have hnext := h.sized_next hs
  have hproject := h.project_moved (Vec.length_add_of_eq hnext.xHalf hs.xDual)
    (Vec.length_add_of_eq hnext.yHalf hs.yDual)
  rw [← I.carries_x.add hnext.xHalf hs.xDual, ← I.carries_y.add hnext.yHalf hs.yDual,
    ← (h.half_moved hs).1, ← (h.half_moved hs).2] at hproject
  exact hproject

/-- The duals are moved. -/
theorem dual_moved : (t'.next (s.moved I)).xDual = I.x (t.next s).xDual ∧
    (t'.next (s.moved I)).yDual = I.y (t.next s).yDual := by
  have hnext := h.sized_next hs
  obtain ⟨hx, hy⟩ := h.projected_moved hs
  obtain ⟨hxHalf, hyHalf⟩ := h.half_moved hs
  constructor
  · show Vec.add (I.x s.xDual) (Vec.sub (t'.next (s.moved I)).xHalf (t'.next (s.moved I)).x) = _
    rw [hxHalf, hx, I.carries_x.sub hnext.xHalf hnext.x,
      I.carries_x.add hs.xDual (Vec.length_sub_of_eq hnext.xHalf hnext.x)]
    rfl
  · show Vec.add (I.y s.yDual) (Vec.sub (t'.next (s.moved I)).yHalf (t'.next (s.moved I)).y) = _
    rw [hyHalf, hy, I.carries_y.sub hnext.yHalf hnext.y,
      I.carries_y.add hs.yDual (Vec.length_sub_of_eq hnext.yHalf hnext.y)]
    rfl

/-- A round from a moved iterate is the moved round. -/
theorem next_moved : t'.next (s.moved I) = (t.next s).moved I :=
  Iterate.ext (h.projected_moved hs).1 (h.projected_moved hs).2 (h.dual_moved hs).1
    (h.dual_moved hs).2 (h.half_moved hs).1 (h.half_moved hs).2 rfl rfl

end Round

/-- Moved iterates have the same verdicts. -/
theorem verdict?_moved (h : t.Similar I t') (hs : s.Sized m n) :
    t'.verdict? (s.moved I) = t.verdict? s := by
  rw [Task.verdict?, Task.verdict?, h.matrix.height, h.matrix.cols, h.matrix.height',
    h.matrix.cols', Settings.verdict?_moved hs h.settings]

/-! ### Runs -/

/-- The iteration from a moved iterate ends with the moved iterate, in the same way. -/
theorem iterate_moved (h : t.Similar I t') (hs : s.Sized m n) (done fuel : ℕ) :
    t'.iterate (s.moved I) done fuel =
      ((t.iterate s done fuel).1.moved I, (t.iterate s done fuel).2) := by
  induction fuel generalizing s done with
  | zero => rfl
  | succ fuel ih =>
    rw [Task.iterate, Task.iterate]
    simp only [h.next_moved hs, h.verdict?_moved (h.sized_next hs)]
    cases t.verdict? (t.next s) with
    | some status => rfl
    | none => exact ih (h.sized_next hs) (done + 1)

/-- The answer to a moved guess is the moved answer, with the same status after as many rounds. -/
theorem run_moved (h : t.Similar I t') {x y : List ℝ} (hx : x.length = n) (hy : y.length = m) :
    t'.run (I.x x) (I.y y) =
        { t.run x y with x := I.x (t.run x y).x, y := I.y (t.run x y).y } ∧
      (t.run x y).x.length = n ∧ (t.run x y).y.length = m := by
  have hs := Iterate.sized_start hx hy
  obtain ⟨-, -, hproduct⟩ := t.run_ends x y
  have hlen : (t.run x y).x.length = n :=
    (h.exact.length_run (hx.trans h.matrix.cols.symm) (hy.trans h.matrix.height.symm)).trans
      h.matrix.cols
  refine ⟨?_, hlen, ?_⟩
  · have hmulVec := h.matrix.mulVec_eq hlen
    have hiterate := h.iterate_moved hs 0 t.settings.maxIter
    rw [← Iterate.start_moved I hx hy] at hiterate
    rw [Task.run, h.settings.maxIter, hiterate]
    rw [Task.run] at hmulVec ⊢
    rw [← hmulVec]
    rfl
  · rw [hproduct, RowMatrix.length_mulVec, h.matrix.height]

end Task.Similar

end Admm

end RegPath
