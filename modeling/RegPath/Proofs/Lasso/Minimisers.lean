import Mathlib.LinearAlgebra.Matrix.ToLin
import RegPath.Proofs.Lasso.Cost

namespace RegPath

open scoped BigOperators Matrix

/-!
# The minimisers of a lasso

A lasso has a minimiser, and it may have several.  All of them have one product `A x` and one
absolute sum, because the squared distance is strictly convex in the product.  From one penalty to a
smaller one the absolute sum of a minimiser does not fall, and its distance from the observations
does not grow.

* `GraphForm.norm1_le_of_lt`, `GraphForm.residual_le_of_lt` — minimisers for two penalties;
* `GraphForm.mulVec_eq_of_isMinimiser`, `GraphForm.norm1_eq_of_isMinimiser`,
  `GraphForm.eq_of_isMinimiser` — two minimisers for one penalty;
* `GraphForm.exists_isMinimiser` — there is a minimiser.
-/

namespace GraphForm

variable {A : RowMatrix ℝ} {b : List ℝ}

/-! ### Two penalties -/

section TwoPenalties

variable {lam lam' : ℝ} {h : 0 < lam} {h' : 0 < lam'} {x x' : List ℝ}

/-- Each of two minimisers is the better one for its own penalty. -/
theorem exchange (hx : (lasso A b lam h).IsMinimiser x) (hx' : (lasso A b lam' h').IsMinimiser x') :
    A.residual b x / 2 + lam * Vec.norm1 x ≤ A.residual b x' / 2 + lam * Vec.norm1 x' ∧
      A.residual b x' / 2 + lam' * Vec.norm1 x' ≤ A.residual b x / 2 + lam' * Vec.norm1 x := by
  obtain ⟨hlen, hle⟩ := lasso_isMinimiser_iff.1 hx
  obtain ⟨hlen', hle'⟩ := lasso_isMinimiser_iff.1 hx'
  have hbetter := hle x' hlen'
  have hbetter' := hle' x hlen
  rw [cost_eq_residual hlen, cost_eq_residual hlen'] at hbetter hbetter'
  exact ⟨hbetter, hbetter'⟩

/-- For a smaller penalty the absolute sum is no smaller. -/
theorem norm1_le_of_lt (hlam : lam' < lam) (hx : (lasso A b lam h).IsMinimiser x)
    (hx' : (lasso A b lam' h').IsMinimiser x') : Vec.norm1 x ≤ Vec.norm1 x' := by
  obtain ⟨hle, hle'⟩ := exchange hx hx'
  have hgap : (lam - lam') * Vec.norm1 x ≤ (lam - lam') * Vec.norm1 x' := by linarith
  exact le_of_mul_le_mul_left hgap (sub_pos.2 hlam)

/-- For a smaller penalty the distance from the observations is no larger. -/
theorem residual_le_of_lt (hlam : lam' < lam) (hx : (lasso A b lam h).IsMinimiser x)
    (hx' : (lasso A b lam' h').IsMinimiser x') : A.residual b x' ≤ A.residual b x := by
  obtain ⟨-, hle'⟩ := exchange hx hx'
  have hnorm := mul_le_mul_of_nonneg_left (norm1_le_of_lt hlam hx hx') (le_of_lt h')
  linarith

end TwoPenalties

/-! ### One penalty -/

section OnePenalty

variable {lam : ℝ} {h : 0 < lam} {x z : List ℝ}

/-- The vector half-way between two others. -/
noncomputable def midpoint (x z : List ℝ) : List ℝ := Vec.scale Scalar.half (Vec.add x z)

/-- The middle of two vectors of one length has that length. -/
theorem length_midpoint {n : ℕ} (hx : x.length = n) (hz : z.length = n) :
    (midpoint x z).length = n := by
  rw [midpoint, Vec.length_scale, Vec.length_add_of_eq hx hz]

/-- The middle of two vectors in coordinates. -/
theorem coords_midpoint {n : ℕ} (hx : x.length = n) (hz : z.length = n) :
    Vec.coords n (midpoint x z) = (1 / 2 : ℝ) • (Vec.coords n x + Vec.coords n z) := by
  rw [midpoint, Vec.coords_scale, Vec.coords_add hx hz, Scalar.half_real]

/-- The absolute sum is convex. -/
theorem norm1_midpoint_le {n : ℕ} (hx : x.length = n) (hz : z.length = n) :
    Vec.norm1 (midpoint x z) ≤ (Vec.norm1 x + Vec.norm1 z) / 2 := by
  rw [Vec.norm1_eq (length_midpoint hx hz), Vec.norm1_eq hx, Vec.norm1_eq hz,
    coords_midpoint hx hz, ← Finset.sum_add_distrib, Finset.sum_div]
  refine Finset.sum_le_sum fun j _ => ?_
  have htriangle := abs_add_le (Vec.coords n x j) (Vec.coords n z j)
  rw [Pi.smul_apply, smul_eq_mul, Pi.add_apply, abs_mul, abs_of_pos (by norm_num : (0 : ℝ) < 1 / 2)]
  linarith

/-- The squared distance is strictly convex in the product: in the middle it falls short of the mean
    by a quarter of the squared distance of the two products. -/
theorem residual_midpoint (hb : b.length = A.height) (hx : x.length = A.cols)
    (hz : z.length = A.cols) :
    A.residual b (midpoint x z) = (A.residual b x + A.residual b z) / 2 -
      Vec.sumSquares (Vec.sub (A.mulVec x) (A.mulVec z)) / 4 := by
  have hAx := A.length_mulVec x
  have hAz := A.length_mulVec z
  have hAm := A.length_mulVec (midpoint x z)
  have hproduct : Vec.coords A.height (A.mulVec (midpoint x z)) = (1 / 2 : ℝ) •
      (Vec.coords A.height (A.mulVec x) + Vec.coords A.height (A.mulVec z)) := by
    rw [A.coords_mulVec, A.coords_mulVec, A.coords_mulVec, coords_midpoint hx hz,
      Matrix.mulVec_smul, Matrix.mulVec_add]
  unfold RowMatrix.residual
  rw [Vec.sumSquares_eq (Vec.length_sub_of_eq hAm hb),
    Vec.sumSquares_eq (Vec.length_sub_of_eq hAx hb),
    Vec.sumSquares_eq (Vec.length_sub_of_eq hAz hb),
    Vec.sumSquares_eq (Vec.length_sub_of_eq hAx hAz), Vec.coords_sub hAm hb, Vec.coords_sub hAx hb,
    Vec.coords_sub hAz hb, Vec.coords_sub hAx hAz, hproduct, ← Finset.sum_add_distrib,
    Finset.sum_div, Finset.sum_div, ← Finset.sum_sub_distrib]
  refine Finset.sum_congr rfl fun i _ => ?_
  simp only [Pi.sub_apply, Pi.smul_apply, Pi.add_apply, smul_eq_mul]
  ring

/-- Two minimisers have one product with the matrix: else the point between them would be better. -/
theorem mulVec_eq_of_isMinimiser (hb : b.length = A.height)
    (hx : (lasso A b lam h).IsMinimiser x) (hz : (lasso A b lam h).IsMinimiser z) :
    A.mulVec x = A.mulVec z := by
  obtain ⟨hxlen, hxle⟩ := lasso_isMinimiser_iff.1 hx
  obtain ⟨hzlen, hzle⟩ := lasso_isMinimiser_iff.1 hz
  have hmlen := length_midpoint hxlen hzlen
  have hxm := hxle _ hmlen
  have hzm := hzle _ hmlen
  rw [cost_eq_residual hxlen, cost_eq_residual hmlen] at hxm
  rw [cost_eq_residual hzlen, cost_eq_residual hmlen] at hzm
  have hresidual := residual_midpoint hb hxlen hzlen
  have hnorm := mul_le_mul_of_nonneg_left (norm1_midpoint_le hxlen hzlen) (le_of_lt h)
  have hsquares : Vec.sumSquares (Vec.sub (A.mulVec x) (A.mulVec z)) ≤ 0 := by linarith
  have hAx := A.length_mulVec x
  have hAz := A.length_mulVec z
  have hzero := Vec.eq_zeros_of_sumSquares_le (Vec.length_sub_of_eq hAx hAz) hsquares
  apply Vec.eq_of_coords_eq hAx hAz
  rw [← sub_eq_zero, ← Vec.coords_sub hAx hAz, hzero, Vec.coords_zeros]

/-- They have one absolute sum. -/
theorem norm1_eq_of_isMinimiser (hb : b.length = A.height)
    (hx : (lasso A b lam h).IsMinimiser x) (hz : (lasso A b lam h).IsMinimiser z) :
    Vec.norm1 x = Vec.norm1 z := by
  obtain ⟨hle, hle'⟩ := exchange hx hz
  have hresidual : A.residual b x = A.residual b z := by
    rw [RowMatrix.residual, RowMatrix.residual, mulVec_eq_of_isMinimiser hb hx hz]
  have hlam : lam * Vec.norm1 x = lam * Vec.norm1 z := by linarith
  exact mul_left_cancel₀ (ne_of_gt h) hlam

/-- If the columns are linearly independent there is only one minimiser. -/
theorem eq_of_isMinimiser (hb : b.length = A.height)
    (hcolumns : LinearIndependent ℝ A.toMatrix.col) (hx : (lasso A b lam h).IsMinimiser x)
    (hz : (lasso A b lam h).IsMinimiser z) : x = z := by
  have hproduct := congrArg (Vec.coords A.height) (mulVec_eq_of_isMinimiser hb hx hz)
  rw [A.coords_mulVec, A.coords_mulVec] at hproduct
  exact Vec.eq_of_coords_eq hx.length hz.length
    (Matrix.mulVec_injective_iff.2 hcolumns hproduct)

end OnePenalty

/-! ### Existence -/

/-- The largest coordinate is bounded by the absolute sum. -/
theorem norm_coords_le_norm1 {n : ℕ} {x : List ℝ} (hx : x.length = n) :
    ‖Vec.coords n x‖ ≤ Vec.norm1 x := by
  rw [pi_norm_le_iff_of_nonneg (Vec.norm1_nonneg x), Vec.norm1_eq hx]
  intro j
  rw [Real.norm_eq_abs]
  exact Finset.single_le_sum (f := fun j => |Vec.coords n x j|) (fun k _ => abs_nonneg _)
    (Finset.mem_univ j)

/-- The cost of a lasso is continuous in the coordinates. -/
theorem continuous_cost (hb : b.length = A.height) {lam : ℝ} (h : 0 < lam) :
    Continuous fun v : Fin A.cols → ℝ => (lasso A b lam h).cost (List.ofFn v) := by
  have hcost : ∀ v : Fin A.cols → ℝ, (lasso A b lam h).cost (List.ofFn v) =
      (∑ i, ((A.toMatrix *ᵥ v) i - Vec.coords A.height b i) ^ 2) / 2 + lam * ∑ j, |v j| := by
    intro v
    have hv : (List.ofFn v).length = A.cols := List.length_ofFn
    have hAv := A.length_mulVec (List.ofFn v)
    rw [cost_lasso hv, Vec.norm1_eq hv, Vec.sumSquares_eq (Vec.length_sub_of_eq hAv hb),
      Vec.coords_sub hAv hb, A.coords_mulVec, Vec.coords_ofFn]
    rfl
  simp only [hcost, Matrix.mulVec, dotProduct]
  fun_prop

/-- A lasso has a minimiser: its cost is continuous and grows with the absolute sum. -/
theorem exists_isMinimiser (hb : b.length = A.height) {lam : ℝ} (h : 0 < lam) :
    ∃ x, (lasso A b lam h).IsMinimiser x := by
  have hgrowth : Filter.Tendsto (fun v : Fin A.cols → ℝ => (lasso A b lam h).cost (List.ofFn v))
      (Filter.cocompact _) Filter.atTop := by
    refine Filter.tendsto_atTop_mono (fun v => ?_)
      ((tendsto_norm_cocompact_atTop).const_mul_atTop h)
    have hv : (List.ofFn v).length = A.cols := List.length_ofFn
    have hnorm := mul_le_mul_of_nonneg_left (norm_coords_le_norm1 hv) (le_of_lt h)
    have hresidual := Vec.sumSquares_nonneg (Vec.sub (A.mulVec (List.ofFn v)) b)
    rw [Vec.coords_ofFn] at hnorm
    rw [cost_lasso hv]
    linarith
  obtain ⟨v, hv⟩ := (continuous_cost hb h).exists_forall_le hgrowth
  refine ⟨List.ofFn v, lasso_isMinimiser_iff.2 ⟨List.length_ofFn, fun z hz => ?_⟩⟩
  have hle := hv (Vec.coords A.cols z)
  rwa [Vec.ofFn_coords hz] at hle

end GraphForm

end RegPath
