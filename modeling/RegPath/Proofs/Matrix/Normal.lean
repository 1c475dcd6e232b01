import RegPath.Proofs.Elimination
import RegPath.Proofs.Matrix.Entries

namespace RegPath

open scoped BigOperators Matrix

/-!
# The normal system

The triangle of `I + Aᵀ A` denotes that matrix, which is positive definite whatever `A` is, so that
an exact solver solves every system with it.

* `Triangle.upper`, `Triangle.rows_upper` — the triangle of a symmetric matrix and its rows;
* `RowMatrix.normalTriangle_mulVec` — the product with `I + Aᵀ A`;
* `RowMatrix.eq_zeros_of_normal` — its only null vector is zero;
* `RowMatrix.solve_normal` — what a solver of the triangle gives.
-/

namespace Triangle

/-- The upper triangle of the matrix with entries `M i j` for `i` and `j` from `s` on. -/
def upper (M : ℕ → ℕ → ℝ) (s n : ℕ) : Triangle ℝ :=
  (List.range' s n).map fun j => (M j j, (List.range' (j + 1) (s + n - (j + 1))).map (M j))

/-- A triangle begins with a row of the matrix. -/
theorem upper_succ (M : ℕ → ℕ → ℝ) (s n : ℕ) :
    upper M s (n + 1) = (M s s, (List.range' (s + 1) n).map (M s)) :: upper M (s + 1) n := by
  rw [upper, List.range'_succ, List.map_cons, upper]
  rw [show s + (n + 1) - (s + 1) = n by omega]
  congr 1
  refine List.map_congr_left fun j _ => ?_
  rw [show s + (n + 1) - (j + 1) = s + 1 + n - (j + 1) by omega]

/-- The length of an upper triangle. -/
@[simp] theorem length_upper (M : ℕ → ℕ → ℝ) (s n : ℕ) : List.length (upper M s n) = n := by
  rw [upper, List.length_map, List.length_range']

/-- An upper triangle is shaped. -/
theorem shaped_upper (M : ℕ → ℕ → ℝ) (s n : ℕ) : (upper M s n).Shaped := by
  induction n generalizing s with
  | zero => exact trivial
  | succ n ih =>
    rw [upper_succ]
    exact ⟨by rw [List.length_map, List.length_range', length_upper], ih (s + 1)⟩

/-- The rows of a symmetric matrix come back from its triangle. -/
theorem rows_upper {M : ℕ → ℕ → ℝ} (hM : ∀ i j, M i j = M j i) (s n : ℕ) :
    rows (upper M s n) = (List.range' s n).map fun i => (List.range' s n).map (M i) := by
  induction n generalizing s with
  | zero => rfl
  | succ n ih =>
    rw [upper_succ, rows, ih, List.range'_succ, List.map_cons, List.map_cons, List.zipWith_map,
      List.zipWith_self]
    congr 1
    exact List.map_congr_left fun i _ => by rw [List.map_cons, hM s i]

end Triangle

namespace RowMatrix

/-- An entry of `I + Aᵀ A`. -/
noncomputable def normalEntry (A : RowMatrix ℝ) (j k : ℕ) : ℝ :=
  (if j = k then 1 else 0) + A.columnDot (A.column j) k

/-- An entry of `I + Aᵀ A` in terms of the entries of `A`. -/
theorem normalEntry_eq (A : RowMatrix ℝ) (j k : ℕ) :
    A.normalEntry j k = (if j = k then 1 else 0) +
      ∑ i : Fin A.height, A.entry i j * A.entry i k := by
  rw [normalEntry, columnDot_column]

/-- The matrix is symmetric. -/
theorem normalEntry_comm (A : RowMatrix ℝ) (j k : ℕ) : A.normalEntry j k = A.normalEntry k j := by
  simp only [normalEntry_eq, eq_comm, mul_comm]

/-- The triangle that is factored is the one of the matrix. -/
theorem normalTriangle_eq_upper (A : RowMatrix ℝ) :
    A.normalTriangle = Triangle.upper A.normalEntry 0 A.cols := by
  rw [normalTriangle, Triangle.upper, List.range_eq_range']
  refine List.map_congr_left fun j _ => ?_
  rw [Nat.zero_add]
  refine Prod.ext ?_ ?_
  · simp [normalEntry]
  · simp only [List.range'_eq_map_range, List.map_map]
    refine List.map_congr_left fun i _ => ?_
    simp [normalEntry, show j ≠ j + 1 + i by omega]

/-- The triangle is shaped. -/
theorem shaped_normalTriangle (A : RowMatrix ℝ) :
    Triangle.Shaped (A.normalTriangle : Triangle ℝ) := by
  rw [normalTriangle_eq_upper]
  exact Triangle.shaped_upper ..

/-- The triangle has a row for each column. -/
@[simp] theorem length_normalTriangle (A : RowMatrix ℝ) : A.normalTriangle.length = A.cols := by
  rw [normalTriangle, List.length_map, List.length_range]

/-- The product of the triangle with a vector has an entry for each column. -/
theorem length_normalTriangle_mulVec (A : RowMatrix ℝ) (x : List ℝ) :
    (Triangle.mulVec A.normalTriangle x).length = A.cols := by
  rw [Triangle.mulVec, List.length_map, A.shaped_normalTriangle.square.height,
    length_normalTriangle]

/-- The product of the triangle with a vector in coordinates. -/
theorem coords_normalTriangle_mulVec (A : RowMatrix ℝ) {x : List ℝ} (hx : x.length = A.cols) :
    Vec.coords A.cols (Triangle.mulVec A.normalTriangle x) =
      Vec.coords A.cols x + A.toMatrixᵀ *ᵥ (A.toMatrix *ᵥ Vec.coords A.cols x) := by
  funext j
  have hrow : ((List.range' 0 A.cols).map (A.normalEntry j)).length = A.cols := by
    rw [List.length_map, List.length_range']
  have hentry : ∀ k, Vec.coords A.cols ((List.range' 0 A.cols).map (A.normalEntry j)) k =
      A.normalEntry j k := by
    intro k
    rw [Vec.coords_apply k (by rw [hrow]; exact k.isLt), List.getElem_map, List.getElem_range']
    simp
  rw [Vec.coords_apply j (by rw [length_normalTriangle_mulVec]; exact j.isLt)]
  simp only [Triangle.mulVec, normalTriangle_eq_upper, Triangle.rows_upper A.normalEntry_comm,
    List.map_map, List.getElem_map, List.getElem_range', Function.comp_apply, zero_add, one_mul]
  rw [Vec.dot_eq hrow hx, Matrix.mulVec_mulVec, Pi.add_apply]
  simp only [dotProduct, Matrix.mulVec, hentry, normalEntry_eq, add_mul, Finset.sum_add_distrib,
    Matrix.mul_apply, Matrix.transpose_apply, toMatrix]
  congr 1
  simp [Fin.val_inj]

/-- The product of the triangle with a vector. -/
theorem normalTriangle_mulVec (A : RowMatrix ℝ) {x : List ℝ} (hx : x.length = A.cols) :
    Triangle.mulVec A.normalTriangle x = Vec.add x (A.transpose.mulVec (A.mulVec x)) := by
  have hlen := A.length_transpose_mulVec (A.mulVec x)
  apply Vec.eq_of_coords_eq (A.length_normalTriangle_mulVec x) (Vec.length_add_of_eq hx hlen)
  rw [coords_normalTriangle_mulVec A hx, Vec.coords_add hx hlen, coords_transpose_mulVec,
    coords_mulVec]

/-- The quadratic form of the normal matrix is the sum of two squares. -/
theorem dot_normalTriangle_mulVec (A : RowMatrix ℝ) {x : List ℝ} (hx : x.length = A.cols) :
    Vec.dot x (Triangle.mulVec A.normalTriangle x) =
      Vec.sumSquares x + Vec.sumSquares (A.mulVec x) := by
  rw [Vec.dot_eq hx (A.length_normalTriangle_mulVec x), coords_normalTriangle_mulVec A hx,
    dotProduct_add, Matrix.dotProduct_mulVec, Matrix.vecMul_transpose, ← coords_mulVec,
    Vec.sumSquares_eq hx, Vec.sumSquares_eq (A.length_mulVec x)]
  simp only [dotProduct, sq]

/-- The only null vector of the normal matrix is zero. -/
theorem eq_zeros_of_normal (A : RowMatrix ℝ) {x : List ℝ} (hx : x.length = A.cols)
    (h : Triangle.mulVec A.normalTriangle x = Vec.zeros A.cols) : x = Vec.zeros A.cols := by
  have hsq : Vec.sumSquares x ≤ 0 := by
    have hdot := A.dot_normalTriangle_mulVec hx
    rw [h, Vec.dot_zeros hx] at hdot
    linarith [Vec.sumSquares_nonneg (A.mulVec x)]
  exact Vec.eq_zeros_of_sumSquares_le hx hsq

/-- An exact solver has a solution of the normal system for every right-hand side. -/
theorem solve_normal {F : Factorization ℝ} (hF : F.Exact) (A : RowMatrix ℝ) :
    ∃ solve, F.solver? A.normalTriangle = some solve ∧
      ∀ r, r.length = A.cols → (solve r).length = A.cols ∧
        Vec.add (solve r) (A.transpose.mulVec (A.mulVec (solve r))) = r := by
  obtain ⟨solve, hsolve⟩ := hF.solvable A.normalTriangle A.shaped_normalTriangle <| by
    intro x hx hzero
    rw [length_normalTriangle] at hx hzero ⊢
    exact A.eq_zeros_of_normal hx hzero
  refine ⟨solve, hsolve, fun r hr => ?_⟩
  obtain ⟨hlen, heq⟩ := hF.solves _ solve A.shaped_normalTriangle hsolve r
    (by rw [length_normalTriangle, hr])
  rw [length_normalTriangle] at hlen
  exact ⟨hlen, by rw [← A.normalTriangle_mulVec hlen, heq]⟩

end RowMatrix

end RegPath
