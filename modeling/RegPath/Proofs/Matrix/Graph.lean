import Mathlib.Analysis.InnerProductSpace.Orthogonal
import RegPath.Proofs.Matrix.Entries

namespace RegPath

open scoped RealInnerProductSpace Matrix

/-!
# The graph of a matrix

The pairs of a vector with its product form a subspace.  A pair of vectors is orthogonal to it
exactly if the transpose takes the second to the opposite of the first.

* `RowMatrix.graph` — the subspace;
* `RowMatrix.mem_graph` — its points;
* `RowMatrix.mem_graph_orthogonal` — the points orthogonal to it.
-/

namespace RowMatrix

/-- The points `(x, A x)`. -/
noncomputable def graph (A : RowMatrix ℝ) :
    Submodule ℝ (EuclideanSpace ℝ (Fin A.cols ⊕ Fin A.height)) where
  carrier := {p | (fun i => p (Sum.inr i)) = A.toMatrix *ᵥ fun j => p (Sum.inl j)}
  zero_mem' := (Matrix.mulVec_zero _).symm
  add_mem' {p q} hp hq := by
    show (fun i => p (Sum.inr i)) + (fun i => q (Sum.inr i)) = _
    rw [hp, hq, ← Matrix.mulVec_add]
    rfl
  smul_mem' c p hp := by
    show (c • fun i => p (Sum.inr i)) = _
    rw [hp, ← Matrix.mulVec_smul]
    rfl

/-- A vector with its product is on the graph. -/
theorem mem_graph (A : RowMatrix ℝ) (x : List ℝ) :
    Vec.joint A.cols A.height x (A.mulVec x) ∈ A.graph :=
  A.coords_mulVec x

/-- A pair is orthogonal to the graph if the transpose takes its rows to the opposite of its
    columns. -/
theorem mem_graph_orthogonal (A : RowMatrix ℝ) {u v : List ℝ} (hu : u.length = A.cols)
    (h : Vec.add u (A.transpose.mulVec v) = Vec.zeros A.cols) :
    Vec.joint A.cols A.height u v ∈ A.graphᗮ := by
  have hcoords := congrArg (Vec.coords A.cols) h
  rw [Vec.coords_add hu (A.length_transpose_mulVec v), coords_transpose_mulVec,
    Vec.coords_zeros] at hcoords
  rw [Submodule.mem_orthogonal]
  intro p hp
  have hrows : (fun i => p (Sum.inr i)) = A.toMatrix *ᵥ fun j => p (Sum.inl j) := hp
  calc ⟪p, Vec.joint A.cols A.height u v⟫
      = (Vec.coords A.cols u ⬝ᵥ fun j => p (Sum.inl j)) +
          (Vec.coords A.height v ⬝ᵥ fun i => p (Sum.inr i)) := by
        rw [PiLp.inner_apply, Fintype.sum_sum_type]
        simp [Vec.joint, dotProduct]
    _ = (Vec.coords A.cols u + A.toMatrixᵀ *ᵥ Vec.coords A.height v) ⬝ᵥ
          fun j => p (Sum.inl j) := by
        rw [hrows, Matrix.dotProduct_mulVec, ← Matrix.mulVec_transpose, add_dotProduct]
    _ = 0 := by rw [hcoords, zero_dotProduct]

end RowMatrix

end RegPath
