import RegPath.Proofs.Matrix.Entries
import RegPath.Proofs.Proximal

namespace RegPath

open scoped BigOperators Matrix

/-!
# The cost of a lasso

Every point has a finite value, half the squared distance of `A x` from the observations plus the
penalty times the absolute sum of `x`.

* `RowMatrix.residual` — the squared distance of `A x` from the observations;
* `GraphForm.cost_lasso`, `GraphForm.cost_eq_residual` — the cost;
* `GraphForm.cost_lasso_eq` — the cost compared with the one of zero;
* `GraphForm.lasso_isMinimiser_iff` — minimisers of a lasso.
-/

/-- The squared distance of `A x` from the observations. -/
def RowMatrix.residual {α : Type} [Scalar α] (A : RowMatrix α) (b x : List α) : α :=
  Vec.sumSquares (Vec.sub (A.mulVec x) b)

namespace Term

/-- The cost of terms of equal shape and scale is that of each at its entry. -/
theorem totalCost_replicate (t : Term ℝ) (x : List ℝ) :
    totalCost (List.replicate x.length t) x = (x.map t.cost).sum := by
  induction x with
  | nil => rfl
  | cons a x ih => rw [List.length_cons, List.replicate_succ, totalCost_cons, ih, List.map_cons,
      List.sum_cons]

/-- The column terms of a lasso cost the penalty times the absolute sum. -/
theorem totalCost_penalties {n : ℕ} {x : List ℝ} (hx : x.length = n) (lam : ℝ) (h : 0 < lam) :
    totalCost ((penalties n).map fun t => t.withScale lam h) x = lam * Vec.norm1 x := by
  rw [penalties, List.map_replicate, ← hx, totalCost_replicate, Vec.norm1, ← List.sum_map_mul_left]
  congr 1
  refine List.map_congr_left fun a _ => ?_
  rw [cost_abs rfl, Scalar.abs_real]
  show lam * |a - 0| = lam * |a|
  rw [sub_zero]

/-- The row terms of a lasso cost half the squared distance from the observations. -/
theorem totalCost_squaresAt (b y : List ℝ) :
    totalCost (squaresAt b) y = Vec.sumSquares (Vec.sub y b) / 2 := by
  induction b generalizing y with
  | nil => simp [squaresAt, Vec.sub, Vec.sumSquares]
  | cons c b ih =>
    cases y with
    | nil => simp [totalCost, Vec.sub, Vec.sumSquares]
    | cons a y =>
      rw [squaresAt, List.map_cons, totalCost_cons, cost_square rfl,
        show Vec.sub (a :: y) (c :: b) = (a - c) :: Vec.sub y b from rfl, Vec.sumSquares,
        List.map_cons, List.sum_cons]
      have htail := ih y
      rw [squaresAt, Vec.sumSquares] at htail
      rw [htail]
      show 1 / 2 * (a - c) ^ 2 + _ = _
      ring

/-- Terms that are no half-lines admit everything. -/
theorem allAdmit_of_ne {ts : List (Term ℝ)} (h : ∀ t ∈ ts, t.kind ≠ .nonneg) (x : List ℝ) :
    AllAdmit ts x := by
  intro p hp
  exact admits_of_ne (h p.1 (List.of_mem_zip hp).1) p.2

end Term

namespace GraphForm

variable {A : RowMatrix ℝ} {b : List ℝ} {lam : ℝ} {h : 0 < lam}

/-- Every point of a lasso has a finite value. -/
theorem lasso_admits (x : List ℝ) : (lasso A b lam h).Admits x := by
  refine ⟨Term.allAdmit_of_ne ?_ _, Term.allAdmit_of_ne ?_ _⟩
  · intro t ht
    obtain ⟨c, -, rfl⟩ := List.mem_map.1 ht
    exact (by decide : Kind.square ≠ .nonneg)
  · intro t ht
    obtain ⟨u, hu, rfl⟩ := List.mem_map.1 ht
    rw [List.eq_of_mem_replicate hu]
    exact (by decide : Kind.abs ≠ .nonneg)

/-- The cost of a point of a lasso. -/
theorem cost_lasso {x : List ℝ} (hx : x.length = A.cols) :
    (lasso A b lam h).cost x =
      Vec.sumSquares (Vec.sub (A.mulVec x) b) / 2 + lam * Vec.norm1 x := by
  rw [cost]
  exact congrArg₂ (· + ·) (Term.totalCost_squaresAt b _) (Term.totalCost_penalties hx lam h)

/-- The cost in terms of the residual. -/
theorem cost_eq_residual {x : List ℝ} (hx : x.length = A.cols) :
    (lasso A b lam h).cost x = A.residual b x / 2 + lam * Vec.norm1 x :=
  cost_lasso hx

/-- A minimiser of a lasso is a point below which no other is. -/
theorem lasso_isMinimiser_iff {x : List ℝ} :
    (lasso A b lam h).IsMinimiser x ↔ x.length = A.cols ∧
      ∀ z, z.length = A.cols → (lasso A b lam h).cost x ≤ (lasso A b lam h).cost z :=
  ⟨fun hx => ⟨hx.length, fun z hz => hx.le z hz (lasso_admits z)⟩,
    fun hx => ⟨hx.1, lasso_admits x, fun z hz _ => hx.2 z hz⟩⟩

/-- The cost of a point compared with the one of zero. -/
theorem cost_lasso_eq (hb : b.length = A.height) {x : List ℝ} (hx : x.length = A.cols) :
    (lasso A b lam h).cost x = (lasso A b lam h).cost (Vec.zeros A.cols) +
      Vec.sumSquares (A.mulVec x) / 2 - Vec.dot x (A.transpose.mulVec b) + lam * Vec.norm1 x := by
  have hy := A.length_mulVec x
  have hzero := A.length_mulVec (Vec.zeros A.cols)
  have hcoords : Vec.coords A.height (A.mulVec (Vec.zeros A.cols)) = 0 := by
    rw [A.mulVec_zeros, Vec.coords_zeros]
  have hsquares : Vec.sumSquares (Vec.sub (A.mulVec x) b) =
      Vec.sumSquares (A.mulVec x) - 2 * Vec.dot (A.mulVec x) b + Vec.sumSquares b := by
    rw [Vec.sumSquares_eq (Vec.length_sub_of_eq hy hb), Vec.sumSquares_eq hy,
      Vec.sumSquares_eq hb, Vec.dot_eq hy hb, Vec.coords_sub hy hb, dotProduct, Finset.mul_sum,
      ← Finset.sum_sub_distrib, ← Finset.sum_add_distrib]
    refine Finset.sum_congr rfl fun i _ => ?_
    rw [Pi.sub_apply]
    ring
  have hsquares_zero : Vec.sumSquares (Vec.sub (A.mulVec (Vec.zeros A.cols)) b) =
      Vec.sumSquares b := by
    rw [Vec.sumSquares_eq (Vec.length_sub_of_eq hzero hb), Vec.sumSquares_eq hb,
      Vec.coords_sub hzero hb, hcoords, zero_sub]
    exact Finset.sum_congr rfl fun i _ => neg_sq _
  have hnorm_zero : Vec.norm1 (Vec.zeros A.cols : List ℝ) = 0 := by
    rw [Vec.norm1_eq (Vec.length_zeros _), Vec.coords_zeros]
    simp
  rw [cost_lasso hx, cost_lasso (Vec.length_zeros _), hsquares, hsquares_zero, hnorm_zero,
    A.dot_mulVec hx hb]
  ring

end GraphForm

end RegPath
