import Mathlib.Data.Matrix.Mul
import RegPath.Convergence
import RegPath.Proofs.Coordinates
import RegPath.Term

namespace RegPath

open scoped BigOperators Matrix

/-!
# Similarities

A signed permutation puts the coordinates of a vector into other places and changes some of their
signs.  Followed by a multiplication with a positive factor it commutes with sums and differences,
multiplies every norm by the factor, and commutes with soft thresholds and weighted means whose
parameters are multiplied as well.

* `SignedPerm`, `SignedPerm.toMatrix` — signed permutations and their matrices;
* `Vec.through` — the product of a table with a vector;
* `SignedPerm.Carries` — a map of vectors that is a signed permutation followed by a factor;
* `SignedPerm.Carries.add`, `pairNorm`, `normInf`, `converged?` — what such a map does to the
  operations on vectors;
* `Similarity` — one such map for the columns and one for the rows, with the same factor.
-/

/-! ### Signed permutations -/

/-- A permutation of `n` places with a sign for each. -/
structure SignedPerm (n : ℕ) where
  /-- Where the coordinate in each place comes from. -/
  perm : Equiv.Perm (Fin n)
  /-- What it is multiplied by. -/
  sign : Fin n → ℝ
  /-- Every sign is one or minus one. -/
  unit : ∀ i, sign i = 1 ∨ sign i = -1

namespace SignedPerm

variable {n m : ℕ}

/-- Everything stays in its place. -/
def one (n : ℕ) : SignedPerm n := ⟨1, fun _ => 1, fun _ => .inl rfl⟩

/-- The inverse, which is the transpose. -/
def transpose (P : SignedPerm n) : SignedPerm n :=
  ⟨P.perm.symm, fun j => P.sign (P.perm.symm j), fun j => P.unit (P.perm.symm j)⟩

/-- The matrix: each row has one entry that is not zero, the sign of its place. -/
noncomputable def toMatrix (P : SignedPerm n) : Matrix (Fin n) (Fin n) ℝ :=
  fun i j => if P.perm i = j then P.sign i else 0

/-- A sign is its own inverse. -/
theorem sign_mul_sign (P : SignedPerm n) (i : Fin n) : P.sign i * P.sign i = 1 := by
  rcases P.unit i with h | h <;> simp [h]

/-- A sign does not change an absolute value. -/
theorem abs_sign_mul (P : SignedPerm n) (i : Fin n) (a : ℝ) : |P.sign i * a| = |a| := by
  rcases P.unit i with h | h <;> simp [h]

/-- The transposed matrix. -/
theorem toMatrix_transpose (P : SignedPerm n) : P.transpose.toMatrix = P.toMatrixᵀ := by
  ext i j
  simp only [toMatrix, transpose, Matrix.transpose_apply, Equiv.symm_apply_eq]
  by_cases h : i = P.perm j
  · subst h
    simp
  · rw [if_neg h, if_neg fun h' => h h'.symm]

/-- The product with a vector. -/
theorem toMatrix_mulVec (P : SignedPerm n) (v : Fin n → ℝ) (i : Fin n) :
    (P.toMatrix *ᵥ v) i = P.sign i * v (P.perm i) := by
  simp [Matrix.mulVec, dotProduct, toMatrix]

/-- The product with a matrix moves its rows. -/
theorem toMatrix_mul_apply (P : SignedPerm m) (M : Matrix (Fin m) (Fin n) ℝ) (i : Fin m)
    (j : Fin n) : (P.toMatrix * M) i j = P.sign i * M (P.perm i) j := by
  simp [Matrix.mul_apply, toMatrix]

/-- The product of a matrix with it moves the columns of the matrix. -/
theorem mul_toMatrix_apply (M : Matrix (Fin m) (Fin n) ℝ) (P : SignedPerm n) (i : Fin m)
    (j : Fin n) : (M * P.toMatrix) i j = P.transpose.sign j * M i (P.transpose.perm j) := by
  have htranspose := toMatrix_mul_apply P.transpose Mᵀ j i
  rw [toMatrix_transpose, ← Matrix.transpose_mul, Matrix.transpose_apply] at htranspose
  exact htranspose

end SignedPerm

/-! ### Maps of vectors -/

/-- The product of a table with a vector. -/
noncomputable def Vec.through {m n : ℕ} (M : Matrix (Fin m) (Fin n) ℝ) (x : List ℝ) : List ℝ :=
  List.ofFn (M *ᵥ Vec.coords n x)

namespace SignedPerm

/-- The map takes vectors of `n` entries to such vectors: it moves their coordinates, with their
    signs, and multiplies them by `c`. -/
structure Carries {n : ℕ} (P : SignedPerm n) (c : ℝ) (f : List ℝ → List ℝ) : Prop where
  /-- The length stays. -/
  length : ∀ x, x.length = n → (f x).length = n
  /-- The coordinates move. -/
  coords : ∀ x, x.length = n → ∀ i,
    Vec.coords n (f x) i = c * (P.sign i * Vec.coords n x (P.perm i))

/-- The product with its matrix is such a map. -/
theorem carries_through {n : ℕ} (P : SignedPerm n) : P.Carries 1 (Vec.through P.toMatrix) where
  length x _ := by rw [Vec.through, List.length_ofFn]
  coords x _ i := by rw [Vec.through, Vec.coords_ofFn, toMatrix_mulVec, one_mul]

/-- So is the product with its transposed matrix. -/
theorem carries_through_transpose {n : ℕ} (P : SignedPerm n) :
    P.transpose.Carries 1 (Vec.through P.toMatrixᵀ) := by
  rw [← toMatrix_transpose]
  exact P.transpose.carries_through

/-- A multiple is one as well. -/
theorem carries_scale (n : ℕ) (c : ℝ) : (one n).Carries c (Vec.scale c) where
  length x hx := (Vec.length_scale c x).trans hx
  coords x _ i := by
    rw [Vec.coords_scale, Pi.smul_apply, smul_eq_mul]
    simp [one]

namespace Carries

variable {n m : ℕ} {P : SignedPerm n} {Q : SignedPerm m} {c : ℝ} {f g : List ℝ → List ℝ}
  {x y : List ℝ}

/-- Zero stays zero. -/
theorem zeros (h : P.Carries c f) : f (Vec.zeros n) = Vec.zeros n := by
  have hlen := Vec.length_zeros (α := ℝ) n
  apply Vec.eq_of_coords_eq (h.length _ hlen) hlen
  funext i
  rw [h.coords _ hlen, Vec.coords_zeros, Pi.zero_apply, Pi.zero_apply, mul_zero, mul_zero]

/-- An operation on pairs of entries commutes with the map, if it does so entry by entry. -/
theorem zipWith (h : P.Carries c f) (hx : x.length = n) (hy : y.length = n) {op op' : ℝ → ℝ → ℝ}
    (hop : ∀ i a b, op' (c * (P.sign i * a)) (c * (P.sign i * b)) = c * (P.sign i * op a b)) :
    List.zipWith op' (f x) (f y) = f (List.zipWith op x y) := by
  have hlen : (List.zipWith op x y).length = n := by rw [List.length_zipWith, hx, hy, min_self]
  have hlen' : (List.zipWith op' (f x) (f y)).length = n := by
    rw [List.length_zipWith, h.length x hx, h.length y hy, min_self]
  apply Vec.eq_of_coords_eq hlen' (h.length _ hlen)
  funext i
  rw [Vec.coords_zipWith op' (h.length x hx) (h.length y hy), h.coords x hx, h.coords y hy, hop,
    h.coords _ hlen, Vec.coords_zipWith op hx hy]

/-- Sums commute with the map. -/
theorem add (h : P.Carries c f) (hx : x.length = n) (hy : y.length = n) :
    Vec.add (f x) (f y) = f (Vec.add x y) :=
  h.zipWith hx hy fun i a b => by ring

/-- So do differences. -/
theorem sub (h : P.Carries c f) (hx : x.length = n) (hy : y.length = n) :
    Vec.sub (f x) (f y) = f (Vec.sub x y) :=
  h.zipWith hx hy fun i a b => by ring

/-- The absolute values of the coordinates are moved and multiplied. -/
theorem abs_coords (h : P.Carries c f) (hc : 0 < c) (hx : x.length = n) (i : Fin n) :
    |Vec.coords n (f x) i| = c * |Vec.coords n x (P.perm i)| := by
  rw [h.coords x hx, abs_mul, P.abs_sign_mul, abs_of_pos hc]

/-- The sum of squares is multiplied by the square of the factor. -/
theorem sumSquares (h : P.Carries c f) (hc : 0 < c) (hx : x.length = n) :
    Vec.sumSquares (f x) = c ^ 2 * Vec.sumSquares x := by
  rw [Vec.sumSquares_eq (h.length x hx), Vec.sumSquares_eq hx, Finset.mul_sum,
    ← Equiv.sum_comp P.perm fun k => c ^ 2 * Vec.coords n x k ^ 2]
  refine Finset.sum_congr rfl fun i _ => ?_
  rw [← sq_abs, h.abs_coords hc hx, mul_pow, sq_abs]

/-- The absolute sum is multiplied by the factor. -/
theorem norm1 (h : P.Carries c f) (hc : 0 < c) (hx : x.length = n) :
    Vec.norm1 (f x) = c * Vec.norm1 x := by
  rw [Vec.norm1_eq (h.length x hx), Vec.norm1_eq hx, Finset.mul_sum,
    ← Equiv.sum_comp P.perm fun k => c * |Vec.coords n x k|]
  exact Finset.sum_congr rfl fun i _ => h.abs_coords hc hx i

/-- So is the largest entry. -/
theorem normInf (h : P.Carries c f) (hc : 0 < c) (hx : x.length = n) :
    Vec.normInf (f x) = c * Vec.normInf x := by
  apply le_antisymm
  · rw [Vec.normInf_le_iff_coords (h.length x hx)
      (mul_nonneg (le_of_lt hc) (Vec.normInf_nonneg x))]
    intro i
    rw [h.abs_coords hc hx]
    exact mul_le_mul_of_nonneg_left
      ((Vec.normInf_le_iff_coords hx (Vec.normInf_nonneg x)).1 le_rfl _) (le_of_lt hc)
  · rw [← le_div_iff₀' hc, Vec.normInf_le_iff_coords hx
      (div_nonneg (Vec.normInf_nonneg (f x)) (le_of_lt hc))]
    intro k
    have hk := (Vec.normInf_le_iff_coords (h.length x hx) (Vec.normInf_nonneg (f x))).1 le_rfl
      (P.perm.symm k)
    rw [h.abs_coords hc hx, Equiv.apply_symm_apply] at hk
    rwa [le_div_iff₀' hc]

/-- So is the length of a pair of vectors. -/
theorem pairNorm (h : P.Carries c f) (h' : Q.Carries c g) (hc : 0 < c) (hx : x.length = n)
    (hy : y.length = m) : Vec.pairNorm (f x) (g y) = c * Vec.pairNorm x y := by
  rw [Vec.pairNorm, Vec.pairNorm, h.sumSquares hc hx, h'.sumSquares hc hy, ← mul_add,
    Scalar.sqrt_real, Scalar.sqrt_real, Real.sqrt_mul (sq_nonneg c), Real.sqrt_sq (le_of_lt hc)]

/-! ### Convergence -/

/-- Two vectors agree exactly if their images do. -/
theorem converged? (h : P.Carries c f) (hc : 0 < c) (hx : x.length = n) (hy : y.length = n)
    (tol : ℝ) : RegPath.converged? tol (f x) (f y) = RegPath.converged? tol x y := by
  have hchange : Vec.normInf (Vec.sub (f x) (f y)) = c * Vec.normInf (Vec.sub x y) := by
    rw [h.sub hx hy, h.normInf hc (Vec.length_sub_of_eq hx hy)]
  rw [RegPath.converged?, RegPath.converged?,
    largestChange?_of_length ((h.length x hx).trans (h.length y hy).symm),
    largestChange?_of_length (hx.trans hy.symm), Option.map_some, Option.map_some, hchange,
    h.norm1 hc hx, mul_left_comm]
  exact congrArg some (decide_eq_decide.2 (mul_le_mul_iff_right₀ hc))

/-! ### Terms -/

/-- The proximal points of squares move with their centres. -/
theorem proxAll_squaresAt (h : P.Carries c f) (hx : x.length = n) (hy : y.length = n) {rho : ℝ}
    (hrho : 0 < rho) : Term.proxAll (Term.squaresAt (f x)) (f y) rho =
      f (Term.proxAll (Term.squaresAt x) y rho) := by
  have hprox : ∀ b v : List ℝ, b.length = v.length → Term.proxAll (Term.squaresAt b) v rho =
      List.zipWith (fun a u => (a + rho * u) / (1 + rho)) b v := by
    intro b v hlen
    rw [Term.proxAll_of_length_eq rho ((Term.length_squaresAt b).trans hlen), Term.squaresAt,
      List.zipWith_map_left]
    simp [Term.prox, Term.unit]
  have hpos : 1 + rho ≠ 0 := ne_of_gt (add_pos one_pos hrho)
  rw [hprox _ _ ((h.length x hx).trans (h.length y hy).symm), hprox _ _ (hx.trans hy.symm)]
  refine h.zipWith hx hy fun i a u => ?_
  field_simp

/-- Soft thresholds are multiplied by the factor. -/
theorem proxAll_penalties (h : P.Carries c f) (hc : 0 < c) (hx : x.length = n) (rho : ℝ) {lam : ℝ}
    (hlam : 0 < lam) (hlam' : 0 < c * lam) :
    Term.proxAll ((Term.penalties n).map fun t => t.withScale (c * lam) hlam') (f x) rho =
      f (Term.proxAll ((Term.penalties n).map fun t => t.withScale lam hlam) x rho) := by
  have hprox : ∀ (l : ℝ) (hl : 0 < l) (v : List ℝ), v.length = n →
      Term.proxAll ((Term.penalties n).map fun t => t.withScale l hl) v rho =
        List.zipWith (fun a _ => (SignType.sign a : ℝ) * max (|a| - l / rho) 0) v v := by
    intro l hl v hv
    rw [Term.proxAll_of_length_eq rho (by rw [List.length_map, Term.length_penalties, hv]),
      Term.penalties, List.map_replicate, ← hv, ← List.map_const', List.zipWith_map_left]
    simp [Term.prox, Term.withScale, Term.unit, Scalar.sign_real]
  rw [hprox _ _ _ (h.length x hx), hprox _ _ _ hx]
  refine h.zipWith hx hx fun i a _ => ?_
  have hmax : max (|c * (P.sign i * a)| - c * lam / rho) 0 = c * max (|a| - lam / rho) 0 := by
    rw [abs_mul, P.abs_sign_mul, abs_of_pos hc, mul_div_assoc, ← mul_sub,
      mul_max_of_nonneg _ _ (le_of_lt hc), mul_zero]
  have hsign : (SignType.sign (c * (P.sign i * a)) : ℝ) = P.sign i * (SignType.sign a : ℝ) := by
    rw [sign_mul, sign_pos hc, one_mul, sign_mul, SignType.coe_mul]
    rcases P.unit i with hone | hneg
    · rw [hone, sign_one, SignType.coe_one]
    · rw [hneg, sign_neg (neg_lt_zero.2 one_pos), SignType.coe_neg_one]
  rw [hmax, hsign]
  ring

end Carries

end SignedPerm

/-! ### Similarities -/

/-- A map of the columns and one of the rows: signed permutations, both followed by the same
    factor. -/
structure Similarity (m n : ℕ) where
  /-- The factor. -/
  factor : ℝ
  /-- The factor is positive. -/
  factor_pos : 0 < factor
  /-- How the rows are moved. -/
  rows : SignedPerm m
  /-- How the columns are moved. -/
  cols : SignedPerm n
  /-- The map of the rows. -/
  y : List ℝ → List ℝ
  /-- The map of the columns. -/
  x : List ℝ → List ℝ
  /-- The map of the rows is what it should be. -/
  carries_y : rows.Carries factor y
  /-- So is the map of the columns. -/
  carries_x : cols.Carries factor x

namespace Similarity

/-- The products with the matrix of `P` and with the transposed matrix of `Q`. -/
noncomputable def ofPerms {m n : ℕ} (P : SignedPerm m) (Q : SignedPerm n) : Similarity m n where
  factor := 1
  factor_pos := Scalar.one_factor
  rows := P
  cols := Q.transpose
  y := Vec.through P.toMatrix
  x := Vec.through Q.toMatrixᵀ
  carries_y := P.carries_through
  carries_x := Q.carries_through_transpose

/-- The multiples by a positive number. -/
def ofFactor (m n : ℕ) {c : ℝ} (hc : 0 < c) : Similarity m n where
  factor := c
  factor_pos := hc
  rows := .one m
  cols := .one n
  y := Vec.scale c
  x := Vec.scale c
  carries_y := SignedPerm.carries_scale m c
  carries_x := SignedPerm.carries_scale n c

end Similarity

end RegPath
