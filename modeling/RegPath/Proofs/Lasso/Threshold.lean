import RegPath.Proofs.Lasso.Cost
import RegPath.Problem

namespace RegPath

open scoped BigOperators Matrix

/-!
# The zero threshold of a lasso

Zero minimises a lasso exactly if no entry of `|Aᵀ b|` exceeds the penalty.  From there on the cost
grows in every direction; below, it falls along the coordinate with the largest entry.

* `lambdaMax_eq` — the computed threshold, without its shortcut;
* `GraphForm.lasso_isMinimiser_iff_eq_zeros` — penalties from the threshold on;
* `GraphForm.not_isMinimiser_zeros` — penalties below it.
-/

/-- A matrix that stores nothing takes everything to zero. -/
theorem RowMatrix.transpose_mulVec_of_stored {A : RowMatrix ℝ} (h : A.stored = 0) (b : List ℝ) :
    A.transpose.mulVec b = Vec.zeros A.cols := by
  have hrows : ∀ r ∈ A.rows, r = [] :=
    List.flatten_eq_nil_iff.1 (List.eq_nil_of_length_eq_zero h)
  have hentry : A.toMatrix = 0 := by
    ext i j
    have hi : (i : ℕ) < A.rows.length := i.isLt
    rw [toMatrix, entry, List.getElem?_eq_getElem hi, Option.getD_some,
      hrows _ (List.getElem_mem hi)]
    rfl
  apply Vec.eq_of_coords_eq (A.length_transpose_mulVec b) (Vec.length_zeros _)
  rw [coords_transpose_mulVec, hentry, Matrix.transpose_zero, Matrix.zero_mulVec, Vec.coords_zeros]

/-- The computed threshold is the largest entry of `|Aᵀ b|`, also where nothing is stored. -/
theorem lambdaMax_eq {A : RowMatrix ℝ} {b : List ℝ} (hb : b.length = A.height) :
    lambdaMax A b = .ok (Vec.normInf (A.transpose.mulVec b)) := by
  rw [lambdaMax, if_neg (not_not.2 hb)]
  split
  · rename_i hstored
    have hle : Vec.normInf (Vec.zeros A.cols) ≤ (0 : ℝ) :=
      (Vec.normInf_le_zero_iff (Vec.length_zeros _)).2 rfl
    rw [RowMatrix.transpose_mulVec_of_stored hstored, le_antisymm hle (Vec.normInf_nonneg _)]
  · rw [if_neg (not_not.2 (Scalar.hasRoom_real _))]

namespace GraphForm

variable {A : RowMatrix ℝ} {b : List ℝ} {lam : ℝ} {h : 0 < lam}

/-! ### From the threshold on -/

/-- From the threshold on the cost of a point exceeds that of zero by what its product adds. -/
theorem cost_zeros_add_le (hb : b.length = A.height)
    (hlam : Vec.normInf (A.transpose.mulVec b) ≤ lam) {x : List ℝ} (hx : x.length = A.cols) :
    (lasso A b lam h).cost (Vec.zeros A.cols) + Vec.sumSquares (A.mulVec x) / 2 ≤
      (lasso A b lam h).cost x := by
  have hdot := Vec.dot_le_norm1_mul_normInf hx (A.length_transpose_mulVec b)
  have hnorm := mul_le_mul_of_nonneg_left hlam (Vec.norm1_nonneg x)
  rw [cost_lasso_eq hb hx]
  linarith

/-- A point that costs no more than zero is zero: its product vanishes, so that only its absolute
    sum is left. -/
theorem eq_zeros_of_cost_le (hb : b.length = A.height)
    (hlam : Vec.normInf (A.transpose.mulVec b) ≤ lam) {x : List ℝ} (hx : x.length = A.cols)
    (hcost : (lasso A b lam h).cost x ≤ (lasso A b lam h).cost (Vec.zeros A.cols)) :
    x = Vec.zeros A.cols := by
  have hproduct : A.mulVec x = Vec.zeros A.height := by
    have hle := cost_zeros_add_le (h := h) hb hlam hx
    exact Vec.eq_zeros_of_sumSquares_le (A.length_mulVec x) (by linarith)
  have hdot : Vec.dot x (A.transpose.mulVec b) = 0 := by
    rw [← A.dot_mulVec hx hb, hproduct, Vec.dot_eq (Vec.length_zeros _) hb, Vec.coords_zeros,
      zero_dotProduct]
  have hsquares := Vec.sumSquares_nonneg (A.mulVec x)
  rw [cost_lasso_eq hb hx, hdot] at hcost
  have hnorm : lam * Vec.norm1 x ≤ 0 := by linarith
  exact Vec.eq_zeros_of_norm1_le hx (nonpos_of_mul_nonpos_right hnorm h)

/-- From the threshold on zero is the only minimiser. -/
theorem lasso_isMinimiser_iff_eq_zeros (hb : b.length = A.height)
    (hlam : Vec.normInf (A.transpose.mulVec b) ≤ lam) (x : List ℝ) :
    (lasso A b lam h).IsMinimiser x ↔ x = Vec.zeros A.cols := by
  rw [lasso_isMinimiser_iff]
  constructor
  · rintro ⟨hx, hle⟩
    exact eq_zeros_of_cost_le hb hlam hx (hle _ (Vec.length_zeros _))
  · rintro rfl
    refine ⟨Vec.length_zeros _, fun z hz => ?_⟩
    have hsquares := Vec.sumSquares_nonneg (A.mulVec z)
    have hle := cost_zeros_add_le (h := h) hb hlam hz
    linarith

/-! ### Below the threshold -/

/-- The vector with one entry `c` and zeros elsewhere. -/
def spike {n : ℕ} (j : Fin n) (c : ℝ) : List ℝ := List.ofFn (Pi.single j c)

/-- The cost of a vector with one entry. -/
theorem cost_spike (hb : b.length = A.height) (j : Fin A.cols) (c : ℝ) :
    (lasso A b lam h).cost (spike j c) = (lasso A b lam h).cost (Vec.zeros A.cols) +
      c ^ 2 * (∑ i, A.toMatrix i j ^ 2) / 2 - c * Vec.coords A.cols (A.transpose.mulVec b) j +
        lam * |c| := by
  have hlen : (spike j c).length = A.cols := List.length_ofFn
  have hcoords : Vec.coords A.cols (spike j c) = Pi.single j c := Vec.coords_ofFn _
  have hsquares : Vec.sumSquares (A.mulVec (spike j c)) = c ^ 2 * ∑ i, A.toMatrix i j ^ 2 := by
    rw [Vec.sumSquares_eq (A.length_mulVec _), RowMatrix.coords_mulVec, hcoords, Finset.mul_sum]
    refine Finset.sum_congr rfl fun i _ => ?_
    rw [Matrix.mulVec_single, Pi.smul_apply, op_smul_eq_mul, mul_pow, mul_comm]
    rfl
  have hdot : Vec.dot (spike j c) (A.transpose.mulVec b) =
      c * Vec.coords A.cols (A.transpose.mulVec b) j := by
    rw [Vec.dot_eq hlen (A.length_transpose_mulVec b), hcoords, single_dotProduct]
  have hnorm : Vec.norm1 (spike j c) = |c| := by
    rw [Vec.norm1_eq hlen, hcoords, Finset.sum_eq_single j]
    · rw [Pi.single_eq_same]
    · intro k _ hk
      rw [Pi.single_eq_of_ne hk, abs_zero]
    · intro hj
      exact absurd (Finset.mem_univ j) hj
  rw [cost_lasso_eq hb hlen, hsquares, hdot, hnorm]

/-- Below the threshold zero is no minimiser: a small step against the largest entry of the
    gradient is better. -/
theorem not_isMinimiser_zeros (hb : b.length = A.height)
    (hlam : lam < Vec.normInf (A.transpose.mulVec b)) :
    ¬ (lasso A b lam h).IsMinimiser (Vec.zeros A.cols) := by
  intro hmin
  have hlarge : ∃ j, lam < |Vec.coords A.cols (A.transpose.mulVec b) j| := by
    by_contra hnone
    refine not_lt.2 ((Vec.normInf_le_iff_coords (A.length_transpose_mulVec b) (le_of_lt h)).2 ?_)
      hlam
    intro j
    exact not_lt.1 fun hj => hnone ⟨j, hj⟩
  obtain ⟨j, hj⟩ := hlarge
  -- The length of the step balances the linear gain against the quadratic loss.
  let g := Vec.coords A.cols (A.transpose.mulVec b) j
  let K := ∑ i, A.toMatrix i j ^ 2
  have hK : 0 ≤ K := Finset.sum_nonneg fun i _ => sq_nonneg _
  have hgain : 0 < |g| - lam := sub_pos.2 hj
  let t := (|g| - lam) / (K + 1)
  have ht : 0 < t := div_pos hgain (by linarith)
  have htK : t * K < |g| - lam := by
    have heq : t * (K + 1) = |g| - lam := div_mul_cancel₀ _ (by linarith)
    linarith
  have hstep : ∃ c : ℝ, |c| = t ∧ c * g = t * |g| := by
    rcases le_total 0 g with hg | hg
    · exact ⟨t, abs_of_pos ht, by rw [abs_of_nonneg hg]⟩
    · exact ⟨-t, by rw [abs_neg, abs_of_pos ht], by rw [abs_of_nonpos hg, neg_mul, mul_neg]⟩
  obtain ⟨c, hc, hcg⟩ := hstep
  have hle := hmin.le (spike j c) List.length_ofFn (lasso_admits _)
  have hcsq : c ^ 2 = t ^ 2 := by rw [← sq_abs, hc]
  rw [cost_spike hb, hc, show c * Vec.coords A.cols (A.transpose.mulVec b) j = t * |g| from hcg,
    hcsq] at hle
  have hfall : t ^ 2 * K / 2 - t * |g| + lam * t < 0 := by
    calc t ^ 2 * K / 2 - t * |g| + lam * t = t * (t * K / 2 - (|g| - lam)) := by ring
      _ < 0 := mul_neg_of_pos_of_neg ht (by linarith [mul_nonneg (le_of_lt ht) hK])
  linarith

end GraphForm

end RegPath
