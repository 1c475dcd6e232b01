import Mathlib.LinearAlgebra.Matrix.PosDef
import RegPath.Proofs.Splitting.Exit

namespace RegPath

open scoped RealInnerProductSpace Matrix

/-!
# The projection

The system that the engine factors is symmetric and positive definite for every matrix, whatever it
stores and however often, so that it has one solution for each right-hand side.  With that solution
the projection finds the one point of the graph that is nearest to a pair, and what it leaves is
balanced; the duals of the iteration add up what was left, and so they are balanced after every
round.

* `RowMatrix.normal`, `RowMatrix.Regular` — the matrix that is factored, and its laws;
* `RowMatrix.IsNearest` — the point of the graph nearest to a pair;
* `Admm.Kernel.Exact.project_isNearest` — the projection finds it;
* `Admm.Iterate.Projected` — what holds after every round;
* `Admm.engine_projects` — all of this for the matrix of a call.
-/

namespace RowMatrix

/-! ### The system -/

/-- The matrix of the triangle that is factored. -/
noncomputable def normal (A : RowMatrix ℝ) : Matrix (Fin A.cols) (Fin A.cols) ℝ :=
  fun i => Vec.coords A.cols ((Triangle.rows A.normalTriangle)[(i : ℕ)]?.getD [])

/-- Products with the triangle are products with its matrix. -/
theorem normal_mulVec (A : RowMatrix ℝ) {x : List ℝ} (hx : x.length = A.cols) :
    A.normal *ᵥ Vec.coords A.cols x = Vec.coords A.cols (Triangle.mulVec A.normalTriangle x) := by
  have hsquare := A.shaped_normalTriangle.square
  rw [length_normalTriangle] at hsquare
  funext i
  have hi : (i : ℕ) < (Triangle.rows A.normalTriangle).length := by
    rw [hsquare.height]
    exact i.isLt
  rw [Vec.coords_apply i (by rw [length_normalTriangle_mulVec]; exact i.isLt)]
  simp only [Triangle.mulVec, List.getElem_map]
  rw [Vec.dot_eq (hsquare.width _ (List.getElem_mem hi)) hx, Matrix.mulVec, normal,
    List.getElem?_eq_getElem hi, Option.getD_some]

/-- The matrix is `I + Aᵀ A`. -/
theorem normal_eq (A : RowMatrix ℝ) : A.normal = 1 + A.toMatrixᵀ * A.toMatrix := by
  refine Matrix.ext_of_mulVec_single fun j => ?_
  have hlen : (List.ofFn (Pi.single j 1 : Fin A.cols → ℝ)).length = A.cols := List.length_ofFn
  rw [← Vec.coords_ofFn (Pi.single j 1 : Fin A.cols → ℝ), normal_mulVec A hlen,
    coords_normalTriangle_mulVec A hlen, Matrix.add_mulVec, Matrix.one_mulVec,
    Matrix.mulVec_mulVec]

/-- The matrix that is factored is symmetric and positive definite, and each system with it has one
    solution. -/
structure Regular (A : RowMatrix ℝ) : Prop where
  /-- It is `I + Aᵀ A`. -/
  eq : A.normal = 1 + A.toMatrixᵀ * A.toMatrix
  /-- It is its own transpose. -/
  isSymm : A.normal.IsSymm
  /-- Its quadratic form is not below the one of the identity. -/
  le : ∀ v, v ⬝ᵥ v ≤ v ⬝ᵥ (A.normal *ᵥ v)
  /-- It is positive definite. -/
  posDef : A.normal.PosDef
  /-- Every right-hand side has one solution. -/
  existsUnique : ∀ r, ∃! x, A.normal *ᵥ x = r

/-- Every matrix has such a system. -/
theorem regular (A : RowMatrix ℝ) : A.Regular := by
  have hsymm : A.normal.IsSymm := by
    rw [Matrix.IsSymm, normal_eq, Matrix.transpose_add, Matrix.transpose_one,
      Matrix.transpose_mul, Matrix.transpose_transpose]
  have hle : ∀ v, v ⬝ᵥ v ≤ v ⬝ᵥ (A.normal *ᵥ v) := by
    intro v
    have hform : v ⬝ᵥ (A.normal *ᵥ v) = v ⬝ᵥ v + A.toMatrix *ᵥ v ⬝ᵥ A.toMatrix *ᵥ v := by
      rw [normal_eq, Matrix.add_mulVec, Matrix.one_mulVec, dotProduct_add,
        ← Matrix.mulVec_mulVec, Matrix.dotProduct_mulVec, Matrix.vecMul_transpose]
    rw [hform]
    exact le_add_of_nonneg_right (Finset.sum_nonneg fun i _ => mul_self_nonneg _)
  have hposDef : A.normal.PosDef := by
    refine Matrix.PosDef.of_dotProduct_mulVec_pos ?_ fun v hv => ?_
    · rw [Matrix.IsHermitian, Matrix.conjTranspose_eq_transpose_of_trivial]
      exact hsymm
    · have hnonneg : 0 ≤ v ⬝ᵥ v := Finset.sum_nonneg fun i _ => mul_self_nonneg _
      have hpos := lt_of_le_of_ne hnonneg (Ne.symm (mt dotProduct_self_eq_zero.1 hv))
      rw [star_trivial]
      exact lt_of_lt_of_le hpos (hle v)
  have hbijective : Function.Bijective A.normal.mulVec :=
    ⟨Matrix.mulVec_injective_iff_isUnit.2 hposDef.isUnit,
      Matrix.mulVec_surjective_iff_isUnit.2 hposDef.isUnit⟩
  exact ⟨A.normal_eq, hsymm, hle, hposDef, hbijective.existsUnique⟩

/-! ### The nearest point -/

/-- The squared distance of the pair `(x, y)` from the pair `(c, d)`. -/
noncomputable def squaredDistance (c d x y : List ℝ) : ℝ :=
  Vec.sumSquares (Vec.sub x c) + Vec.sumSquares (Vec.sub y d)

/-- The pair `p` is the one point of the graph that is nearest to `(c, d)`, and what it leaves of
    that pair is balanced. -/
structure IsNearest (A : RowMatrix ℝ) (c d : List ℝ) (p : List ℝ × List ℝ) : Prop where
  /-- One entry for each column. -/
  length : p.1.length = A.cols
  /-- It is on the graph. -/
  graph : p.2 = A.mulVec p.1
  /-- No point of the graph is nearer. -/
  le : ∀ z, z.length = A.cols →
    squaredDistance c d p.1 p.2 ≤ squaredDistance c d z (A.mulVec z)
  /-- No other point of the graph is as near. -/
  unique : ∀ z, z.length = A.cols →
    squaredDistance c d z (A.mulVec z) ≤ squaredDistance c d p.1 p.2 → z = p.1
  /-- The transpose takes what is left of the rows to the opposite of what is left of the
      columns. -/
  residual : Vec.add (Vec.sub c p.1) (A.transpose.mulVec (Vec.sub d p.2)) = Vec.zeros A.cols

/-- The squared distance in the space of pairs. -/
theorem squaredDistance_eq (A : RowMatrix ℝ) {c d x : List ℝ} (hc : c.length = A.cols)
    (hd : d.length = A.height) (hx : x.length = A.cols) :
    squaredDistance c d x (A.mulVec x) =
      ‖Vec.joint A.cols A.height x (A.mulVec x) - Vec.joint A.cols A.height c d‖ ^ 2 := by
  have hy := A.length_mulVec x
  rw [← Vec.joint_sub hx hc hy hd,
    Vec.norm_joint_sq (Vec.length_sub_of_eq hx hc) (Vec.length_sub_of_eq hy hd), squaredDistance]

/-- A point of the graph that leaves a balanced rest is nearest. -/
theorem isNearest_of_residual (A : RowMatrix ℝ) {c d x : List ℝ} (hc : c.length = A.cols)
    (hd : d.length = A.height) (hx : x.length = A.cols)
    (hresidual : Vec.add (Vec.sub c x) (A.transpose.mulVec (Vec.sub d (A.mulVec x))) =
      Vec.zeros A.cols) :
    A.IsNearest c d (x, A.mulVec x) := by
  have hy := A.length_mulVec x
  have horthogonal := A.mem_graph_orthogonal (Vec.length_sub_of_eq hc hx) hresidual
  rw [Vec.joint_sub hc hx hd hy] at horthogonal
  -- The way to any point of the graph makes a right angle with the rest.
  have hsplit : ∀ z, z.length = A.cols → squaredDistance c d z (A.mulVec z) =
      ‖Vec.joint A.cols A.height z (A.mulVec z) - Vec.joint A.cols A.height x (A.mulVec x)‖ ^ 2 +
        squaredDistance c d x (A.mulVec x) := by
    intro z hz
    have hangle := Submodule.inner_right_of_mem_orthogonal
      (sub_mem (A.mem_graph z) (A.mem_graph x)) horthogonal
    rw [squaredDistance_eq A hc hd hz, squaredDistance_eq A hc hd hx,
      norm_sub_rev (Vec.joint _ _ x (A.mulVec x)) (Vec.joint _ _ c d), sq, sq, sq,
      ← norm_sub_sq_eq_norm_sq_add_norm_sq_real hangle, sub_sub_sub_cancel_right]
  refine ⟨hx, rfl, fun z hz => ?_, fun z hz hle => ?_, hresidual⟩
  · rw [hsplit z hz]
    exact le_add_of_nonneg_left (sq_nonneg _)
  · have hzero := (hsplit z hz).symm.trans_le hle
    rw [add_le_iff_nonpos_left] at hzero
    have hpoint := norm_eq_zero.1 (pow_eq_zero_iff two_ne_zero |>.1
      (le_antisymm hzero (sq_nonneg _)))
    exact (Vec.eq_of_joint_eq hz hx (A.length_mulVec z) hy (sub_eq_zero.1 hpoint)).1

end RowMatrix

namespace Admm

/-- The projection of an exact kernel is the nearest point. -/
theorem Kernel.Exact.project_isNearest {k : Kernel ℝ} (h : k.Exact) {c d : List ℝ}
    (hc : c.length = k.matrix.cols) (hd : d.length = k.matrix.height) :
    k.matrix.IsNearest c d (k.project c d) :=
  k.matrix.isNearest_of_residual hc hd (h.solves_project hc d).1 (h.project_balance hc hd)

/-- The solver of an exact kernel solves the system of its matrix. -/
theorem Kernel.Exact.normal_solve {k : Kernel ℝ} (h : k.Exact) {r : List ℝ}
    (hr : r.length = k.matrix.cols) :
    k.matrix.normal *ᵥ Vec.coords k.matrix.cols (k.solve r) = Vec.coords k.matrix.cols r := by
  obtain ⟨hlength, hsolve⟩ := h.solves r hr
  rw [k.matrix.normal_mulVec hlength, k.matrix.normalTriangle_mulVec hlength, hsolve]

/-! ### Rounds -/

/-- The projected pair is on the graph, and the duals are balanced. -/
structure Iterate.Projected (A : RowMatrix ℝ) (s : Iterate ℝ) : Prop where
  /-- The rows are the product of the columns. -/
  product : s.y = A.mulVec s.x
  /-- The transpose takes the dual of the rows to the opposite of the dual of the columns. -/
  duals : Vec.add s.xDual (A.transpose.mulVec s.yDual) = Vec.zeros A.cols

/-- Every round ends balanced, however it began. -/
theorem Task.Exact.projected_next {t : Task ℝ} (ht : t.Exact) {s : Iterate ℝ}
    (hs : t.Shaped s) : (t.next s).Projected t.kernel.matrix :=
  ⟨rfl, ht.dual_balance hs⟩

/-- With exact solves an engine makes a kernel of every matrix: the system of the matrix is regular,
    the kernel solves it, its projection finds the nearest point of the graph, and every round of
    every call with the matrix ends on the graph with balanced duals, whatever the guess. -/
theorem engine_projects {F : Factorization ℝ} (hF : F.Exact) {c : Cache ℝ} {D : Design ℝ}
    (hc : c.Intact F D) :
    D.matrix.Regular ∧ ∃ k, (c.prepare F D).1 = .ok k ∧
      (∀ r, r.length = D.matrix.cols →
        D.matrix.normal *ᵥ Vec.coords D.matrix.cols (k.solve r) = Vec.coords D.matrix.cols r) ∧
      (∀ u v, u.length = D.matrix.cols → v.length = D.matrix.height →
        D.matrix.IsNearest u v (k.project u v)) ∧
      ∀ (S : Settings ℝ) (q : Request ℝ) (x y : List ℝ), q.design = D → StartsAt q x y →
        ((engine F S).solve c q).1.outcome =
            .ok (Task.run ⟨S, k, q.rowTerms, q.colTerms⟩ x y) ∧
          ∀ n : ℕ, Iterate.Projected D.matrix
            ((Task.next ⟨S, k, q.rowTerms, q.colTerms⟩)^[n + 1] (.start x y)) := by
  obtain ⟨k, hprepare, hexact, hmatrix⟩ := prepare_empty hF D
  have hown := hc.prepare_eq.trans hprepare
  refine ⟨D.matrix.regular, k, hown, ?_, ?_, ?_⟩
  · rw [← hmatrix]
    exact fun r hr => hexact.normal_solve hr
  · rw [← hmatrix]
    exact fun u v hu hv => hexact.project_isNearest hu hv
  · rintro S q x y rfl hq
    obtain ⟨t, hposes, ht, hform, hshaped, hanswer⟩ := hc.exists_task_from hF S hq
    have htask : t = ⟨S, k, q.rowTerms, q.colTerms⟩ :=
      hposes.unique ⟨rfl, hown, rfl, rfl⟩
    subst htask
    refine ⟨hanswer, fun n => ?_⟩
    rw [Function.iterate_succ_apply', ← hmatrix]
    exact ht.projected_next (ht.shaped_iterate hshaped n)

/-- The projections for all four shapes, from a guess off the graph. -/
theorem engine_projects_mixed :
    mixed.design.matrix.Regular ∧
      ∃ k, ((Cache.empty : Cache ℝ).prepare .elimination mixed.design).1 = .ok k ∧
        mixed.design.matrix.normal *ᵥ Vec.coords _ (k.solve [1, 2]) = Vec.coords _ [1, 2] ∧
        mixed.design.matrix.IsNearest [1, 2] [3, 4] (k.project [1, 2] [3, 4]) ∧
        ((engine .elimination (.plain 1 4 zero_le_one (by decide))).solve .empty mixed).1.outcome =
          .ok (Task.run ⟨.plain 1 4 zero_le_one (by decide), k, mixed.rowTerms, mixed.colTerms⟩
            [1, 1] [0, 1]) ∧
        ∀ n : ℕ, Iterate.Projected mixed.design.matrix
          ((Task.next ⟨.plain 1 4 zero_le_one (by decide), k, mixed.rowTerms,
            mixed.colTerms⟩)^[n + 1] (.start [1, 1] [0, 1])) := by
  obtain ⟨hregular, k, hprepare, hsolve, hproject, hcall⟩ :=
    engine_projects Factorization.elimination_exact (Cache.intact_empty _ mixed.design)
  exact ⟨hregular, k, hprepare, hsolve [1, 2] rfl, hproject [1, 2] [3, 4] rfl rfl,
    hcall (.plain 1 4 zero_le_one (by decide)) mixed [1, 1] [0, 1] rfl startsAt_mixed⟩

end Admm

end RegPath
