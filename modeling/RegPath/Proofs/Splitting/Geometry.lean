import Mathlib.Analysis.InnerProductSpace.Orthogonal

namespace RegPath

open scoped RealInnerProductSpace

/-!
# Geometry of a round

A round of the splitting as seen in a Euclidean space, where the graph of the matrix is a subspace.
The projection makes the new dual orthogonal to the graph, and that is all that the two arguments
about a round need.

* `Admm.Turn` — a projected point with its dual, the proximal point, and what the projection makes
  of them;
* `Admm.Turn.certificate` — how far the proximal point is from optimal;
* `Admm.Turn.energy` — how much closer the round comes to an optimal point and its dual.
-/

namespace Admm

variable {E : Type*} [NormedAddCommGroup E] [InnerProductSpace ℝ E]

/-- One round from the point `w` with the dual `d` over the proximal point `h` to the point `w'` of
    the graph with the dual `d'`. -/
structure Turn (G : Submodule ℝ E) (w d h w' d' : E) : Prop where
  /-- The new point is on the graph. -/
  after : w' ∈ G
  /-- What is left of the proximal point goes into the dual. -/
  left : d' - d = h - w'
  /-- The new dual is orthogonal to the graph. -/
  dual : d' ∈ Gᗮ

namespace Turn

variable {G : Submodule ℝ E} {w d h w' d' : E}

/-- The pull towards the proximal point, in terms of the move and the new dual. -/
theorem pull (T : Turn G w d h w' d') : w - d - h = w - w' - d' := by
  have hleft := T.left
  have hsum : d + h = d' + w' := by
    rw [sub_eq_sub_iff_add_eq_add] at hleft
    rw [add_comm d h, hleft]
  calc w - d - h = w - (d + h) := sub_sub _ _ _
    _ = w - w' - d' := by rw [hsum, add_comm d' w', sub_sub]

/-- A term that has the pull as its slope at the proximal point: its value there is not far above
    the value at any point of the graph. -/
theorem certificate (T : Turn G w d h w' d') {z : E} (hz : z ∈ G) {rho a b : ℝ} (hrho : 0 ≤ rho)
    (hab : a + ⟪rho • (w - d - h), z - h⟫ ≤ b) :
    a ≤ b + rho * ‖d'‖ * ‖h - w'‖ + rho * ‖w' - w‖ * ‖h - z‖ := by
  rw [T.pull, real_inner_smul_left, inner_sub_left] at hab
  -- The dual only sees what of the proximal point is off the graph.
  have hdual : ⟪d', z - h⟫ = -⟪d', h - w'⟫ := by
    have hzero : ⟪d', z - w'⟫ = 0 :=
      Submodule.inner_left_of_mem_orthogonal (sub_mem hz T.after) T.dual
    rw [show z - h = (z - w') - (h - w') by abel, inner_sub_right, hzero, zero_sub]
  have hmove : -⟪w - w', z - h⟫ ≤ ‖w' - w‖ * ‖h - z‖ := by
    rw [← inner_neg_left, neg_sub, norm_sub_rev h z]
    exact real_inner_le_norm _ _
  have hoff : -⟪d', h - w'⟫ ≤ ‖d'‖ * ‖h - w'‖ := by
    rw [← inner_neg_left, ← norm_neg d']
    exact real_inner_le_norm _ _
  have h₁ := mul_le_mul_of_nonneg_left hmove hrho
  have h₂ : rho * ⟪d', z - h⟫ ≤ rho * (‖d'‖ * ‖h - w'‖) := by
    rw [hdual]
    exact mul_le_mul_of_nonneg_left hoff hrho
  linarith

/-- The squared distances to a point of the graph and to a dual of it, when the pull grows along
    the way from that point: they fall by the squares of what the round left and of its move. -/
theorem energy (T : Turn G w d h w' d') (hw : w ∈ G) (hd : d ∈ Gᗮ) {p u : E} (hp : p ∈ G)
    (hu : u ∈ Gᗮ) (hmono : 0 ≤ ⟪w - d - h + u, h - p⟫) :
    ‖w' - p‖ ^ 2 + ‖d' - u‖ ^ 2 ≤
      ‖w - p‖ ^ 2 + ‖d - u‖ ^ 2 - ‖h - w'‖ ^ 2 - ‖w' - w‖ ^ 2 := by
  -- Inner products of a difference on the graph with a difference of duals vanish.
  have hmove : ⟪w - w', d' - d⟫ = 0 :=
    Submodule.inner_right_of_mem_orthogonal (sub_mem hw T.after) (sub_mem T.dual hd)
  have hdual : ⟪d' - u, w' - p⟫ = 0 :=
    Submodule.inner_left_of_mem_orthogonal (sub_mem T.after hp) (sub_mem T.dual hu)
  have hsplit : h - p = (d' - d) + (w' - p) := by rw [T.left, sub_add_sub_cancel]
  have hcross : ⟪d' - u, d' - d⟫ ≤ ⟪w - w', w' - p⟫ := by
    rw [T.pull, show w - w' - d' + u = (w - w') - (d' - u) by abel, inner_sub_left, hsplit,
      inner_add_right, inner_add_right, hmove, hdual] at hmono
    linarith
  have hpoint : ‖w - p‖ ^ 2 = ‖w' - w‖ ^ 2 + 2 * ⟪w - w', w' - p⟫ + ‖w' - p‖ ^ 2 := by
    rw [← sub_add_sub_cancel w w' p, norm_add_sq_real, norm_sub_rev w w']
  have hdist : ‖d - u‖ ^ 2 = ‖d' - u‖ ^ 2 - 2 * ⟪d' - u, d' - d⟫ + ‖h - w'‖ ^ 2 := by
    rw [← T.left, ← norm_sub_sq_real, sub_sub_sub_cancel_left]
  rw [hpoint, hdist]
  linarith

end Turn

end Admm

end RegPath
