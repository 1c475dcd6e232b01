import RegPath.Proofs.Matrix.Normal
import RegPath.Proofs.Optimality
import RegPath.Proofs.Splitting.Geometry
import RegPath.Proofs.Splitting.Run

namespace RegPath

open scoped RealInnerProductSpace

/-!
# Rounds in exact arithmetic

With an exact solver of the normal system every round of the splitting is a turn of the geometry,
whose pull is a subgradient of the terms at the proximal point.

* `Admm.Kernel.Exact` — what the engine makes of a matrix;
* `Admm.Kernel.project_balance` — the projection leaves what is orthogonal to the graph;
* `Admm.Task.Exact`, `Admm.Task.Shaped` — the lengths that hold in every round;
* `Admm.Task.Exact.turn` — a round as a turn;
* `Admm.Task.Exact.splitCost_half_le` — the certificate of a round.
-/

namespace Admm

/-! ### Projection -/

/-- The transpose belongs to the matrix, and the solver to its normal system. -/
structure Kernel.Exact (k : Kernel ℝ) : Prop where
  /-- The transpose of the matrix. -/
  transpose : k.transpose = k.matrix.transpose
  /-- The exact solution of the normal system. -/
  solves : ∀ r, r.length = k.matrix.cols → (k.solve r).length = k.matrix.cols ∧
    Vec.add (k.solve r) (k.matrix.transpose.mulVec (k.matrix.mulVec (k.solve r))) = r

/-- An engine without a factor makes an exact kernel of every matrix. -/
theorem prepare_empty {F : Factorization ℝ} (hF : F.Exact) (d : Design ℝ) :
    ∃ k, ((Cache.empty : Cache ℝ).prepare F d).1 = .ok k ∧ k.Exact ∧ k.matrix = d.matrix := by
  obtain ⟨solve, hsolver, hsolves⟩ := d.matrix.solve_normal hF
  refine ⟨⟨d.matrix, d.matrix.transpose, solve⟩, ?_, ⟨rfl, hsolves⟩, rfl⟩
  simp [Cache.prepare, Cache.empty, hsolver]

/-- The transpose of an exact kernel can serve it. -/
theorem Kernel.Exact.fits {k : Kernel ℝ} (h : k.Exact) : k.Fits := by
  rw [Kernel.Fits, h.transpose]
  exact ⟨rfl, .inl (k.matrix.height_transpose)⟩

/-- Sums of vectors of one length need no stretching. -/
theorem addStretched_of_length {c t : List ℝ} (h : c.length = t.length) :
    addStretched c t = Vec.add c t := by
  unfold addStretched
  split
  · rename_i a
    obtain ⟨b, rfl⟩ := List.length_eq_one_iff.1 h
    rfl
  · rfl

/-- The right-hand side of the system that a projection solves. -/
theorem Kernel.Exact.stretched {k : Kernel ℝ} (h : k.Exact) {c : List ℝ}
    (hc : c.length = k.matrix.cols) (d : List ℝ) :
    addStretched c (k.transpose.mulVec d) = Vec.add c (k.matrix.transpose.mulVec d) := by
  rw [h.transpose, addStretched_of_length (hc.trans (k.matrix.length_transpose_mulVec d).symm)]

/-- A projection has an entry for each column and solves its system. -/
theorem Kernel.Exact.solves_project {k : Kernel ℝ} (h : k.Exact) {c : List ℝ}
    (hc : c.length = k.matrix.cols) (d : List ℝ) :
    (k.project c d).1.length = k.matrix.cols ∧
      Vec.add (k.project c d).1 (k.matrix.transpose.mulVec (k.project c d).2) =
        Vec.add c (k.matrix.transpose.mulVec d) := by
  have hlen : (addStretched c (k.transpose.mulVec d)).length = k.matrix.cols := by
    rw [h.stretched hc, Vec.length_add_of_eq hc (k.matrix.length_transpose_mulVec d)]
  rw [← h.stretched hc d]
  exact h.solves _ hlen

/-- What the projection leaves is orthogonal to the graph. -/
theorem Kernel.Exact.project_balance {k : Kernel ℝ} (h : k.Exact) {c d : List ℝ}
    (hc : c.length = k.matrix.cols) (hd : d.length = k.matrix.height) :
    Vec.add (Vec.sub c (k.project c d).1)
      (k.matrix.transpose.mulVec (Vec.sub d (k.project c d).2)) = Vec.zeros k.matrix.cols := by
  obtain ⟨hx, hsolve⟩ := h.solves_project hc d
  have hy : (k.project c d).2.length = k.matrix.height := k.matrix.length_mulVec _
  have hsub := Vec.length_sub_of_eq hc hx
  have hcoords := congrArg (Vec.coords k.matrix.cols) hsolve
  rw [Vec.coords_add hx (k.matrix.length_transpose_mulVec _),
    Vec.coords_add hc (k.matrix.length_transpose_mulVec d), RowMatrix.coords_transpose_mulVec,
    RowMatrix.coords_transpose_mulVec] at hcoords
  apply Vec.eq_of_coords_eq (Vec.length_add_of_eq hsub (k.matrix.length_transpose_mulVec _))
    (Vec.length_zeros _)
  rw [Vec.coords_add hsub (k.matrix.length_transpose_mulVec _), Vec.coords_sub hc hx,
    RowMatrix.coords_transpose_mulVec, Vec.coords_sub hd hy, Matrix.mulVec_sub, Vec.coords_zeros,
    sub_add_sub_comm, ← hcoords, sub_self]

/-! ### Lengths -/

/-- An exact kernel with a term for each row and each column. -/
structure Task.Exact (t : Task ℝ) : Prop where
  /-- The kernel is exact. -/
  kernel : t.kernel.Exact
  /-- One term for each row. -/
  rows : t.rowTerms.length = t.kernel.matrix.height
  /-- One term for each column. -/
  cols : t.colTerms.length = t.kernel.matrix.cols

/-- The problem that the iteration works on. -/
def Task.form (t : Task ℝ) : GraphForm ℝ := ⟨t.kernel.matrix, t.rowTerms, t.colTerms⟩

/-- A request with a term for each row and each column is an exact task of its problem. -/
theorem exists_exact_task {F : Factorization ℝ} (hF : F.Exact) (S : Settings ℝ) {q : Request ℝ}
    (hrows : q.rowTerms.length = q.height) (hcols : q.colTerms.length = q.width) :
    ∃ k, ((Cache.empty : Cache ℝ).prepare F q.design).1 = .ok k ∧ k.matrix = q.design.matrix ∧
      Task.Exact ⟨S, k, q.rowTerms, q.colTerms⟩ ∧
      Task.form ⟨S, k, q.rowTerms, q.colTerms⟩ = q.form := by
  obtain ⟨k, hprepare, hexact, hmatrix⟩ := prepare_empty hF q.design
  refine ⟨k, hprepare, hmatrix, ⟨hexact, ?_, ?_⟩, ?_⟩
  · rw [hmatrix]
    exact hrows
  · rw [hmatrix]
    exact hcols
  · rw [Task.form, hmatrix]
    rfl

/-- The penalty parameter is positive. -/
theorem Settings.rho_pos_real (S : Settings ℝ) : 0 < S.rho := not_le.1 S.rho_pos

namespace Task

/-- The vectors of a round have the lengths of their sides. -/
structure Shaped (t : Task ℝ) (s : Iterate ℝ) : Prop where
  /-- Projected columns. -/
  x : s.x.length = t.kernel.matrix.cols
  /-- Projected rows. -/
  y : s.y.length = t.kernel.matrix.height
  /-- Dual of the columns. -/
  xDual : s.xDual.length = t.kernel.matrix.cols
  /-- Dual of the rows. -/
  yDual : s.yDual.length = t.kernel.matrix.height

/-- A guess of the right lengths has zero duals of the right lengths. -/
theorem shaped_start {t : Task ℝ} {x y : List ℝ} (hx : x.length = t.kernel.matrix.cols)
    (hy : y.length = t.kernel.matrix.height) : t.Shaped (.start x y) :=
  ⟨hx, hy, (Vec.length_zeros _).trans hx, (Vec.length_zeros _).trans hy⟩

/-- The projected pair as a point. -/
def point (t : Task ℝ) (s : Iterate ℝ) :
    EuclideanSpace ℝ (Fin t.kernel.matrix.cols ⊕ Fin t.kernel.matrix.height) :=
  Vec.joint _ _ s.x s.y

/-- The scaled dual as a point. -/
def dualPoint (t : Task ℝ) (s : Iterate ℝ) :
    EuclideanSpace ℝ (Fin t.kernel.matrix.cols ⊕ Fin t.kernel.matrix.height) :=
  Vec.joint _ _ s.xDual s.yDual

/-- The proximal pair as a point. -/
def halfPoint (t : Task ℝ) (s : Iterate ℝ) :
    EuclideanSpace ℝ (Fin t.kernel.matrix.cols ⊕ Fin t.kernel.matrix.height) :=
  Vec.joint _ _ s.xHalf s.yHalf

/-! ### One round -/

variable {t : Task ℝ} {s : Iterate ℝ}

/-- The pull of a round on its proximal columns. -/
noncomputable def pullX (t : Task ℝ) (s : Iterate ℝ) : List ℝ :=
  Vec.scale t.settings.rho (Vec.sub (Vec.sub s.x s.xDual) (t.next s).xHalf)

/-- The pull of a round on its proximal rows. -/
noncomputable def pullY (t : Task ℝ) (s : Iterate ℝ) : List ℝ :=
  Vec.scale t.settings.rho (Vec.sub (Vec.sub s.y s.yDual) (t.next s).yHalf)

/-- The proximal columns of a round, with the subgradient there. -/
theorem Exact.half_x (ht : t.Exact) (hs : t.Shaped s) :
    (t.next s).xHalf.length = t.kernel.matrix.cols ∧
      Term.IsSubgradient t.colTerms (t.next s).xHalf (t.pullX s) := by
  have hlen := Vec.length_sub_of_eq hs.x hs.xDual
  have hcols := ht.cols.trans hlen.symm
  exact ⟨(Term.length_proxAll _ (.inr hcols)).trans hlen,
    Term.isSubgradient_proxAll t.settings.rho_pos_real hcols⟩

/-- The proximal rows of a round, with the subgradient there. -/
theorem Exact.half_y (ht : t.Exact) (hs : t.Shaped s) :
    (t.next s).yHalf.length = t.kernel.matrix.height ∧
      Term.IsSubgradient t.rowTerms (t.next s).yHalf (t.pullY s) := by
  have hlen := Vec.length_sub_of_eq hs.y hs.yDual
  have hrows := ht.rows.trans hlen.symm
  exact ⟨(Term.length_proxAll _ (.inr hrows)).trans hlen,
    Term.isSubgradient_proxAll t.settings.rho_pos_real hrows⟩

/-- The pull on the columns has an entry for each. -/
theorem Exact.length_pullX (ht : t.Exact) (hs : t.Shaped s) :
    (t.pullX s).length = t.kernel.matrix.cols := by
  rw [pullX, Vec.length_scale]
  exact Vec.length_sub_of_eq (Vec.length_sub_of_eq hs.x hs.xDual) (ht.half_x hs).1

/-- The pull on the rows has an entry for each. -/
theorem Exact.length_pullY (ht : t.Exact) (hs : t.Shaped s) :
    (t.pullY s).length = t.kernel.matrix.height := by
  rw [pullY, Vec.length_scale]
  exact Vec.length_sub_of_eq (Vec.length_sub_of_eq hs.y hs.yDual) (ht.half_y hs).1

/-- A round keeps the lengths. -/
theorem Exact.shaped_next (ht : t.Exact) (hs : t.Shaped s) : t.Shaped (t.next s) := by
  have hhalf := (ht.half_x hs).1
  have hy : (t.next s).y.length = t.kernel.matrix.height := t.kernel.matrix.length_mulVec _
  have hx : (t.next s).x.length = t.kernel.matrix.cols :=
    (ht.kernel.solves_project (Vec.length_add_of_eq hhalf hs.xDual) _).1
  exact ⟨hx, hy, Vec.length_add_of_eq hs.xDual (Vec.length_sub_of_eq hhalf hx),
    Vec.length_add_of_eq hs.yDual (Vec.length_sub_of_eq (ht.half_y hs).1 hy)⟩

/-- All rounds from a guess of the right lengths have them. -/
theorem Exact.shaped_iterate (ht : t.Exact) (hs : t.Shaped s) (k : ℕ) :
    t.Shaped (t.next^[k] s) := by
  induction k with
  | zero => exact hs
  | succ k ih =>
    rw [Function.iterate_succ_apply']
    exact ht.shaped_next ih

/-- The last iterate of a run from a guess of the right lengths is the result of a round. -/
theorem Exact.exists_last_round (ht : t.Exact) {x y : List ℝ} (hs : t.Shaped (.start x y)) :
    ∃ s, t.Shaped s ∧ t.next^[(t.run x y).iterations] (.start x y) = t.next s := by
  obtain ⟨hends, -, -⟩ := t.run_ends x y
  obtain ⟨k, hk⟩ := Nat.exists_eq_succ_of_ne_zero (Nat.ne_of_gt hends.pos)
  exact ⟨_, ht.shaped_iterate hs k, by rw [hk, Function.iterate_succ_apply']⟩

/-- The answer to a guess of the right lengths has an entry for each column. -/
theorem Exact.length_run (ht : t.Exact) {x y : List ℝ} (hx : x.length = t.kernel.matrix.cols)
    (hy : y.length = t.kernel.matrix.height) : (t.run x y).x.length = t.kernel.matrix.cols := by
  obtain ⟨-, hxHalf, -⟩ := t.run_ends x y
  obtain ⟨s, hs, hlast⟩ := ht.exists_last_round (shaped_start hx hy)
  rw [hxHalf, hlast]
  exact (ht.half_x hs).1

/-- The new dual of the columns balances the one of the rows. -/
theorem Exact.dual_balance (ht : t.Exact) (hs : t.Shaped s) :
    Vec.add (t.next s).xDual (t.kernel.matrix.transpose.mulVec (t.next s).yDual) =
      Vec.zeros t.kernel.matrix.cols := by
  have hx := (ht.half_x hs).1
  have hy := (ht.half_y hs).1
  have hnext := ht.shaped_next hs
  have hxDual : (t.next s).xDual = Vec.sub (Vec.add (t.next s).xHalf s.xDual) (t.next s).x :=
    Vec.add_sub_eq_sub_add hs.xDual hx hnext.x
  have hyDual : (t.next s).yDual = Vec.sub (Vec.add (t.next s).yHalf s.yDual) (t.next s).y :=
    Vec.add_sub_eq_sub_add hs.yDual hy hnext.y
  rw [hxDual, hyDual]
  exact ht.kernel.project_balance (Vec.length_add_of_eq hx hs.xDual)
    (Vec.length_add_of_eq hy hs.yDual)

/-- A round is a turn of the geometry. -/
theorem Exact.turn (ht : t.Exact) (hs : t.Shaped s) :
    Turn t.kernel.matrix.graph (t.point s) (t.dualPoint s) (t.halfPoint (t.next s))
      (t.point (t.next s)) (t.dualPoint (t.next s)) := by
  have hx := (ht.half_x hs).1
  have hy := (ht.half_y hs).1
  have hnext := ht.shaped_next hs
  refine ⟨t.kernel.matrix.mem_graph _, ?_,
    t.kernel.matrix.mem_graph_orthogonal hnext.xDual (ht.dual_balance hs)⟩
  have hdual : t.dualPoint (t.next s) =
      t.dualPoint s + (t.halfPoint (t.next s) - t.point (t.next s)) := by
    rw [dualPoint, dualPoint, halfPoint, point, ← Vec.joint_sub hx hnext.x hy hnext.y,
      ← Vec.joint_add hs.xDual (Vec.length_sub_of_eq hx hnext.x) hs.yDual
        (Vec.length_sub_of_eq hy hnext.y)]
    rfl
  rw [hdual, add_sub_cancel_left]

/-- The primal residual is the distance of the proximal pair from the projected one. -/
theorem Exact.primal_eq (ht : t.Exact) (hs : t.Shaped s) :
    (t.next s).primal = ‖t.halfPoint (t.next s) - t.point (t.next s)‖ := by
  have hx := (ht.half_x hs).1
  have hy := (ht.half_y hs).1
  have hnext := ht.shaped_next hs
  rw [Iterate.primal, Vec.pairNorm_eq_norm (Vec.length_sub_of_eq hx hnext.x)
    (Vec.length_sub_of_eq hy hnext.y), Vec.joint_sub hx hnext.x hy hnext.y]
  rfl

/-- The dual residual is the distance that the projected pair moved, in units of the penalty
    parameter. -/
theorem Exact.dual_eq (ht : t.Exact) (hs : t.Shaped s) (rho : ℝ) :
    (t.next s).dual rho = rho * ‖t.point (t.next s) - t.point s‖ := by
  have hnext := ht.shaped_next hs
  have hprev : (t.next s).xPrev = s.x ∧ (t.next s).yPrev = s.y := ⟨rfl, rfl⟩
  rw [Iterate.dual, hprev.1, hprev.2, Vec.pairNorm_eq_norm (Vec.length_sub_of_eq hnext.x hs.x)
    (Vec.length_sub_of_eq hnext.y hs.y), Vec.joint_sub hnext.x hs.x hnext.y hs.y]
  rfl

/-- The pull of a round in the space of pairs. -/
theorem Exact.joint_pull (ht : t.Exact) (hs : t.Shaped s) :
    Vec.joint t.kernel.matrix.cols t.kernel.matrix.height (t.pullX s) (t.pullY s) =
      t.settings.rho • (t.point s - t.dualPoint s - t.halfPoint (t.next s)) := by
  have hx := (ht.half_x hs).1
  have hy := (ht.half_y hs).1
  rw [pullX, pullY, Vec.joint_scale, Vec.joint_sub (Vec.length_sub_of_eq hs.x hs.xDual) hx
    (Vec.length_sub_of_eq hs.y hs.yDual) hy, Vec.joint_sub hs.x hs.xDual hs.y hs.yDual]
  rfl

/-- The terms lie above the plane of the pull at the proximal pair. -/
theorem Exact.pull_le (ht : t.Exact) (hs : t.Shaped s) {z w : List ℝ}
    (hz : z.length = t.kernel.matrix.cols) (hw : w.length = t.kernel.matrix.height)
    (hzadm : Term.AllAdmit t.colTerms z) (hwadm : Term.AllAdmit t.rowTerms w) :
    t.form.splitCost (t.next s).xHalf (t.next s).yHalf +
        ⟪t.settings.rho • (t.point s - t.dualPoint s - t.halfPoint (t.next s)),
          Vec.joint t.kernel.matrix.cols t.kernel.matrix.height z w -
            t.halfPoint (t.next s)⟫ ≤ t.form.splitCost z w := by
  obtain ⟨hx, hcols⟩ := ht.half_x hs
  obtain ⟨hy, hrows⟩ := ht.half_y hs
  rw [← ht.joint_pull hs]
  exact GraphForm.splitCost_le hcols hrows hx hy (ht.length_pullX hs) (ht.length_pullY hs) hz hw
    hzadm hwadm

/-- The certificate of a round: how far above the cost of any point the proximal pair may be. -/
theorem Exact.splitCost_half_le (ht : t.Exact) (hs : t.Shaped s) {z : List ℝ}
    (hz : z.length = t.kernel.matrix.cols) (hadm : t.form.Admits z) :
    t.form.splitCost (t.next s).xHalf (t.next s).yHalf ≤ t.form.cost z +
      t.settings.rho * ‖t.dualPoint (t.next s)‖ * (t.next s).primal +
      (t.next s).dual t.settings.rho *
        ‖t.halfPoint (t.next s) - Vec.joint _ _ z (t.kernel.matrix.mulVec z)‖ := by
  rw [ht.primal_eq hs, ht.dual_eq hs]
  exact (ht.turn hs).certificate (t.kernel.matrix.mem_graph z) (le_of_lt t.settings.rho_pos_real)
    (ht.pull_le hs hz (t.kernel.matrix.length_mulVec z) hadm.2 hadm.1)

end Task

end Admm

end RegPath
