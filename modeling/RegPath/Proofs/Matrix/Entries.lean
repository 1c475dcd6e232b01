import Mathlib.Data.Matrix.Mul
import RegPath.Matrix.Rows
import RegPath.Proofs.Coordinates

namespace RegPath

open scoped BigOperators Matrix

/-!
# Matrices by their entries

However the entries of a row matrix are stored, in any order and with repeated columns, its products
are those of the matrix of its entries.

* `RowMatrix.toMatrix` — the matrix of the entries;
* `RowMatrix.coords_mulVec`, `RowMatrix.coords_transpose_mulVec` — the two products in coordinates;
* `RowMatrix.dot_mulVec` — they are adjoint to each other;
* `RowMatrix.columnDot_column` — the inner product of two columns.
-/

namespace RowMatrix

variable {n : ℕ}

/-- The matrix of the entries. -/
noncomputable def toMatrix (A : RowMatrix ℝ) : Matrix (Fin A.height) (Fin A.cols) ℝ :=
  fun i j => A.entry i j

/-! ### Sums over stored entries -/

/-- What a stored entry adds to the values of a column. -/
theorem storedAt_cons (e : ℕ × ℝ) (r : List (ℕ × ℝ)) (j : ℕ) :
    (storedAt (e :: r) j).sum = (if e.1 = j then e.2 else 0) + (storedAt r j).sum := by
  unfold storedAt
  by_cases h : e.1 = j
  · simp [h]
  · simp [h]

/-- A weighted sum over the stored entries is one over the columns, each with all that is stored
    for it. -/
theorem sum_map_mul_eq {r : List (ℕ × ℝ)} (hr : ∀ e ∈ r, e.1 < n) (f : ℕ → ℝ) :
    (r.map fun e => e.2 * f e.1).sum = ∑ j : Fin n, (storedAt r j).sum * f j := by
  induction r with
  | nil => simp [storedAt]
  | cons e r ih =>
    have hj : ∑ j : Fin n, (if e.1 = (j : ℕ) then e.2 else 0) * f j = e.2 * f e.1 := by
      rw [Finset.sum_eq_single ⟨e.1, hr e List.mem_cons_self⟩]
      · rw [if_pos rfl]
      · intro j _ hne
        rw [if_neg fun h => hne (Fin.ext h.symm), zero_mul]
      · intro h
        exact absurd (Finset.mem_univ _) h
    rw [List.map_cons, List.sum_cons, ih fun d hd => hr d (List.mem_cons_of_mem _ hd), ← hj,
      ← Finset.sum_add_distrib]
    exact Finset.sum_congr rfl fun j _ => by rw [storedAt_cons, add_mul]

/-- The product of a row with a vector, over the columns. -/
theorem rowDot_eq {r : List (ℕ × ℝ)} (hr : ∀ e ∈ r, e.1 < n) (x : List ℝ) :
    rowDot r x.toArray = ∑ j : Fin n, (storedAt r j).sum * Vec.coords n x j := by
  simp only [rowDot, List.getElem?_toArray]
  exact sum_map_mul_eq hr fun j => x[j]?.getD 0

/-! ### Products -/

/-- The product `A x` in coordinates. -/
theorem coords_mulVec (A : RowMatrix ℝ) (x : List ℝ) :
    Vec.coords A.height (A.mulVec x) = A.toMatrix *ᵥ Vec.coords A.cols x := by
  funext i
  have hi : (i : ℕ) < A.rows.length := i.isLt
  rw [Vec.coords_apply i (by rw [A.length_mulVec]; exact i.isLt)]
  simp only [mulVec, List.getElem_map]
  rw [rowDot_eq (A.inBounds _ (List.getElem_mem hi))]
  simp only [Matrix.mulVec, dotProduct, toMatrix, entry, List.getElem?_eq_getElem hi,
    Option.getD_some]

/-- A weighted sum over what a row, numbered `k`, stores for column `j`. -/
theorem sum_filterMap_mul_eq (j k : ℕ) (r : List (ℕ × ℝ)) (f : ℕ → ℝ) :
    ((r.filterMap fun e => if e.1 = j then some (k, e.2) else none).map
      fun e => e.2 * f e.1).sum = (storedAt r j).sum * f k := by
  induction r with
  | nil => simp [storedAt]
  | cons e r ih =>
    rw [storedAt_cons, add_mul, ← ih]
    by_cases h : e.1 = j
    · simp [h]
    · simp [h]

/-- A weighted sum over a column is one over the rows, which are numbered from `k` on. -/
theorem sum_flatMap_mul_eq (j : ℕ) (rows : List (List (ℕ × ℝ))) (f : ℕ → ℝ) (k : ℕ) :
    (((rows.zipIdx k).flatMap fun r =>
      r.1.filterMap fun e => if e.1 = j then some (r.2, e.2) else none).map
        fun e => e.2 * f e.1).sum =
      ∑ i : Fin rows.length, (storedAt rows[i] j).sum * f (k + i) := by
  induction rows generalizing k with
  | nil => rfl
  | cons r rows ih =>
    rw [List.zipIdx_cons, List.flatMap_cons, List.map_append, List.sum_append,
      sum_filterMap_mul_eq, ih]
    refine Eq.trans ?_ (Fin.sum_univ_succ _).symm
    congr 1
    refine Finset.sum_congr rfl fun i _ => ?_
    rw [show k + 1 + (i : ℕ) = k + ((i : ℕ) + 1) by omega]
    rfl

/-- A weighted sum over a column in terms of the entries. -/
theorem sum_column_mul_eq (A : RowMatrix ℝ) (j : ℕ) (f : ℕ → ℝ) :
    ((A.column j).map fun e => e.2 * f e.1).sum = ∑ i : Fin A.height, A.entry i j * f i := by
  rw [column, sum_flatMap_mul_eq]
  refine Finset.sum_congr rfl fun i _ => ?_
  rw [entry, List.getElem?_eq_getElem i.isLt, Option.getD_some, Nat.zero_add]
  rfl

/-- The length of `Aᵀ y`. -/
theorem length_transpose_mulVec (A : RowMatrix ℝ) (y : List ℝ) :
    (A.transpose.mulVec y).length = A.cols := by
  rw [length_mulVec, height_transpose]

/-- The product `Aᵀ y` in coordinates. -/
theorem coords_transpose_mulVec (A : RowMatrix ℝ) (y : List ℝ) :
    Vec.coords A.cols (A.transpose.mulVec y) = A.toMatrixᵀ *ᵥ Vec.coords A.height y := by
  funext j
  rw [Vec.coords_apply j (by rw [A.length_transpose_mulVec]; exact j.isLt)]
  simp only [mulVec, transpose, List.getElem_map, List.getElem_range, rowDot, List.getElem?_toArray]
  exact sum_column_mul_eq A j fun i => y[i]?.getD 0

/-- An entry of the product `A x`, for a matrix of known shape. -/
theorem coords_mulVec_apply {m : ℕ} {A : RowMatrix ℝ} (hheight : A.height = m) (hcols : A.cols = n)
    (x : List ℝ) (i : Fin m) :
    Vec.coords m (A.mulVec x) i = ∑ j : Fin n, A.entry i j * Vec.coords n x j := by
  subst hheight hcols
  exact congrFun (A.coords_mulVec x) i

/-- An entry of the product `Aᵀ y`, for a matrix of known shape. -/
theorem coords_transpose_mulVec_apply {m : ℕ} {A : RowMatrix ℝ} (hheight : A.height = m)
    (hcols : A.cols = n) (y : List ℝ) (j : Fin n) :
    Vec.coords n (A.transpose.mulVec y) j = ∑ i : Fin m, A.entry i j * Vec.coords m y i := by
  subst hheight hcols
  exact congrFun (A.coords_transpose_mulVec y) j

/-- Zero is taken to zero. -/
theorem mulVec_zeros (A : RowMatrix ℝ) : A.mulVec (Vec.zeros A.cols) = Vec.zeros A.height := by
  apply Vec.eq_of_coords_eq (A.length_mulVec _) (Vec.length_zeros _)
  rw [coords_mulVec, Vec.coords_zeros, Matrix.mulVec_zero, Vec.coords_zeros]

/-- The two products are adjoint. -/
theorem dot_mulVec (A : RowMatrix ℝ) {x y : List ℝ} (hx : x.length = A.cols)
    (hy : y.length = A.height) :
    Vec.dot (A.mulVec x) y = Vec.dot x (A.transpose.mulVec y) := by
  rw [Vec.dot_eq (A.length_mulVec x) hy, Vec.dot_eq hx (A.length_transpose_mulVec y),
    coords_mulVec, coords_transpose_mulVec, Matrix.dotProduct_mulVec, Matrix.vecMul_transpose]

/-- The inner product of two columns. -/
theorem columnDot_column (A : RowMatrix ℝ) (j k : ℕ) :
    A.columnDot (A.column j) k = ∑ i : Fin A.height, A.entry i j * A.entry i k := by
  rw [← sum_column_mul_eq A j fun i => A.entry i k, columnDot]
  have hflat : ∀ col : List (ℕ × ℝ),
      (col.flatMap fun e => (storedAt (A.rows[e.1]?.getD []) k).map (e.2 * ·)).sum =
        (col.map fun e => e.2 * A.entry e.1 k).sum := by
    intro col
    induction col with
    | nil => rfl
    | cons e col ih =>
      rw [List.flatMap_cons, List.sum_append, ih, List.map_cons, List.sum_cons,
        List.sum_map_mul_left, List.map_id', entry]
  exact hflat _

end RowMatrix

end RegPath
