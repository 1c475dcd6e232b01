import Mathlib.Analysis.InnerProductSpace.PiL2
import RegPath.Proofs.Exact
import RegPath.Vec

namespace RegPath

open scoped BigOperators RealInnerProductSpace

/-!
# Coordinates

A vector of the library is a list.  Its algebra is the one of functions on `Fin n`, and a pair of
vectors, one for the columns and one for the rows of a matrix, is a point of a Euclidean space.

* `Vec.coords` — the coordinates of a list; entrywise operations, sums and norms in coordinates;
* `Vec.normInf_le_iff`, `Vec.dot_le_norm1_mul_normInf` — the largest entry;
* `Vec.joint` — two lists as one point, with `Vec.pairNorm_eq_norm` and `Vec.inner_joint`;
* `Vec.scale` — a multiple of a vector.
-/

namespace Vec

variable {n m : ℕ}

/-! ### Coordinates of one vector -/

/-- The first `n` entries of a list, continued by zeros. -/
def coords (n : ℕ) (x : List ℝ) : Fin n → ℝ := fun j => x[(j : ℕ)]?.getD 0

/-- A coordinate within the vector is an entry. -/
theorem coords_apply {x : List ℝ} (j : Fin n) (hj : (j : ℕ) < x.length) :
    coords n x j = x[(j : ℕ)] := by
  rw [coords, List.getElem?_eq_getElem hj, Option.getD_some]

/-- A vector is what its coordinates say. -/
theorem ofFn_coords {x : List ℝ} (hx : x.length = n) : List.ofFn (coords n x) = x := by
  apply List.ext_getElem
  · rw [List.length_ofFn, hx]
  · intro j h₁ h₂
    rw [List.getElem_ofFn, coords_apply _ h₂]

/-- Every function is the coordinates of a vector. -/
@[simp] theorem coords_ofFn (f : Fin n → ℝ) : coords n (List.ofFn f) = f := by
  funext j
  rw [coords_apply j (by rw [List.length_ofFn]; exact j.isLt), List.getElem_ofFn]

/-- Vectors of one length with the same coordinates are equal. -/
theorem eq_of_coords_eq {x y : List ℝ} (hx : x.length = n) (hy : y.length = n)
    (h : coords n x = coords n y) : x = y := by
  rw [← ofFn_coords hx, ← ofFn_coords hy, h]

/-- The zero vector. -/
@[simp] theorem coords_zeros : coords n (zeros n) = 0 := by
  funext j
  rw [coords_apply j (by rw [length_zeros]; exact j.isLt)]
  simp [zeros]

/-- An entrywise operation on two vectors of one length. -/
theorem coords_zipWith (op : ℝ → ℝ → ℝ) {x y : List ℝ} (hx : x.length = n) (hy : y.length = n)
    (j : Fin n) : coords n (List.zipWith op x y) j = op (coords n x j) (coords n y j) := by
  have hj : (j : ℕ) < x.length ∧ (j : ℕ) < y.length := by
    rw [hx, hy]
    exact ⟨j.isLt, j.isLt⟩
  rw [coords_apply j (by rw [List.length_zipWith]; exact lt_min hj.1 hj.2), coords_apply j hj.1,
    coords_apply j hj.2, List.getElem_zipWith]

/-- A sum of two vectors of one length. -/
theorem coords_add {x y : List ℝ} (hx : x.length = n) (hy : y.length = n) :
    coords n (add x y) = coords n x + coords n y := by
  funext j
  exact coords_zipWith _ hx hy j

/-- A difference of two vectors of one length. -/
theorem coords_sub {x y : List ℝ} (hx : x.length = n) (hy : y.length = n) :
    coords n (sub x y) = coords n x - coords n y := by
  funext j
  exact coords_zipWith _ hx hy j

/-- The length of a sum of two vectors of one length. -/
theorem length_add_of_eq {x y : List ℝ} (hx : x.length = n) (hy : y.length = n) :
    (add x y).length = n := by
  rw [length_add, hx, hy, min_self]

/-- The length of a difference of two vectors of one length. -/
theorem length_sub_of_eq {x y : List ℝ} (hx : x.length = n) (hy : y.length = n) :
    (sub x y).length = n := by
  rw [length_sub, hx, hy, min_self]

/-- Subtracting zero changes nothing. -/
theorem sub_zeros {x : List ℝ} (hx : x.length = n) : sub x (zeros n) = x := by
  apply eq_of_coords_eq (length_sub_of_eq hx (length_zeros n)) hx
  rw [coords_sub hx (length_zeros n), coords_zeros, sub_zero]

/-- What is added after a subtraction may be added before it. -/
theorem add_sub_eq_sub_add {x y z : List ℝ} (hx : x.length = n) (hy : y.length = n)
    (hz : z.length = n) : add x (sub y z) = sub (add y x) z := by
  apply eq_of_coords_eq (length_add_of_eq hx (length_sub_of_eq hy hz))
    (length_sub_of_eq (length_add_of_eq hy hx) hz)
  rw [coords_add hx (length_sub_of_eq hy hz), coords_sub hy hz,
    coords_sub (length_add_of_eq hy hx) hz, coords_add hy hx]
  ring

/-! ### Sums -/

/-- A sum over the entries is a sum over the coordinates. -/
theorem sum_map_eq (g : ℝ → ℝ) {x : List ℝ} (hx : x.length = n) :
    (x.map g).sum = ∑ j, g (coords n x j) := by
  conv_lhs => rw [← ofFn_coords hx, List.map_ofFn]
  exact List.sum_ofFn

/-- A sum over pairs of entries is a sum over the coordinates. -/
theorem sum_zipWith_eq (op : ℝ → ℝ → ℝ) {x y : List ℝ} (hx : x.length = n) (hy : y.length = n) :
    (List.zipWith op x y).sum = ∑ j, op (coords n x j) (coords n y j) := by
  have hxy : (List.zipWith op x y).length = n := by rw [List.length_zipWith, hx, hy, min_self]
  rw [← List.map_id (List.zipWith op x y), sum_map_eq id hxy]
  exact Finset.sum_congr rfl fun j _ => coords_zipWith op hx hy j

/-- The inner product in coordinates. -/
theorem dot_eq {x y : List ℝ} (hx : x.length = n) (hy : y.length = n) :
    dot x y = coords n x ⬝ᵥ coords n y :=
  sum_zipWith_eq _ hx hy

/-- The inner product of vectors by their first entries. -/
theorem dot_cons (a b : ℝ) (x y : List ℝ) : dot (a :: x) (b :: y) = a * b + dot x y :=
  List.sum_cons

/-- The inner product with the zero vector. -/
theorem dot_zeros {x : List ℝ} (hx : x.length = n) : dot x (zeros n) = 0 := by
  rw [dot_eq hx (length_zeros n), coords_zeros, dotProduct_zero]

/-- The inner product does not depend on the order of the vectors. -/
theorem dot_comm {x y : List ℝ} (hx : x.length = n) (hy : y.length = n) : dot x y = dot y x := by
  rw [dot_eq hx hy, dot_eq hy hx, dotProduct_comm]

/-- The sum of squares in coordinates. -/
theorem sumSquares_eq {x : List ℝ} (hx : x.length = n) :
    sumSquares x = ∑ j, coords n x j ^ 2 := by
  rw [sumSquares, sum_map_eq _ hx]
  exact Finset.sum_congr rfl fun j _ => (sq _).symm

/-- The absolute sum in coordinates. -/
theorem norm1_eq {x : List ℝ} (hx : x.length = n) : norm1 x = ∑ j, |coords n x j| := by
  rw [norm1, sum_map_eq _ hx]
  exact Finset.sum_congr rfl fun j _ => Scalar.abs_real _

/-- A sum of squares is not negative. -/
theorem sumSquares_nonneg (x : List ℝ) : 0 ≤ sumSquares x := by
  rw [sumSquares_eq rfl]
  exact Finset.sum_nonneg fun j _ => sq_nonneg _

/-- A vector without squares is zero. -/
theorem eq_zeros_of_sumSquares_le {x : List ℝ} (hx : x.length = n) (h : sumSquares x ≤ 0) :
    x = zeros n := by
  apply eq_of_coords_eq hx (length_zeros n)
  rw [sumSquares_eq hx] at h
  have hsum := le_antisymm h (Finset.sum_nonneg fun j _ => sq_nonneg _)
  funext j
  have hj := (Finset.sum_eq_zero_iff_of_nonneg fun j _ => sq_nonneg _).1 hsum j (Finset.mem_univ j)
  rw [coords_zeros, pow_eq_zero_iff two_ne_zero |>.1 hj]
  rfl

/-- An absolute sum is not negative. -/
theorem norm1_nonneg (x : List ℝ) : 0 ≤ norm1 x := by
  rw [norm1_eq rfl]
  exact Finset.sum_nonneg fun j _ => abs_nonneg _

/-- A vector without an absolute sum is zero. -/
theorem eq_zeros_of_norm1_le {x : List ℝ} (hx : x.length = n) (h : norm1 x ≤ 0) : x = zeros n := by
  apply eq_of_coords_eq hx (length_zeros n)
  rw [norm1_eq hx] at h
  have hsum := le_antisymm h (Finset.sum_nonneg fun j _ => abs_nonneg _)
  funext j
  have hj := (Finset.sum_eq_zero_iff_of_nonneg fun j _ => abs_nonneg _).1 hsum j (Finset.mem_univ j)
  rw [coords_zeros, abs_eq_zero.1 hj]
  rfl

/-! ### The largest entry -/

/-- The largest entry by the first. -/
theorem normInf_cons (a : ℝ) (x : List ℝ) : normInf (a :: x) = max |a| (normInf x) := by
  rw [normInf, List.map_cons, List.foldr_cons, Scalar.sup_real, Scalar.abs_real, normInf]

/-- The largest entry is within a bound if all entries are. -/
theorem normInf_le_iff {x : List ℝ} {c : ℝ} (hc : 0 ≤ c) :
    normInf x ≤ c ↔ ∀ a ∈ x, |a| ≤ c := by
  induction x with
  | nil => simp [normInf, hc]
  | cons a x ih => rw [normInf_cons, max_le_iff, ih, List.forall_mem_cons]

/-- The largest entry is not negative. -/
theorem normInf_nonneg (x : List ℝ) : 0 ≤ normInf x := by
  cases x with
  | nil => exact le_refl 0
  | cons a x =>
    rw [normInf_cons]
    exact le_max_of_le_left (abs_nonneg a)

/-- The largest entry is within a bound if all coordinates are. -/
theorem normInf_le_iff_coords {x : List ℝ} (hx : x.length = n) {c : ℝ} (hc : 0 ≤ c) :
    normInf x ≤ c ↔ ∀ j, |coords n x j| ≤ c := by
  rw [normInf_le_iff hc]
  constructor
  · intro h j
    rw [coords_apply j (by rw [hx]; exact j.isLt)]
    exact h _ (List.getElem_mem _)
  · intro h a ha
    obtain ⟨i, hi, rfl⟩ := List.getElem_of_mem ha
    have hj := h ⟨i, hx ▸ hi⟩
    rwa [coords_apply ⟨i, hx ▸ hi⟩ hi] at hj

/-- Zero is the only vector whose largest entry is zero. -/
theorem normInf_le_zero_iff {x : List ℝ} (hx : x.length = n) : normInf x ≤ 0 ↔ x = zeros n := by
  rw [normInf_le_iff_coords hx le_rfl]
  constructor
  · intro h
    apply eq_of_coords_eq hx (length_zeros n)
    funext j
    rw [coords_zeros, abs_nonpos_iff.1 (h j)]
    rfl
  · rintro rfl j
    rw [coords_zeros, Pi.zero_apply, abs_zero]

/-- An inner product is bounded by an absolute sum and a largest entry. -/
theorem dot_le_norm1_mul_normInf {x y : List ℝ} (hx : x.length = n) (hy : y.length = n) :
    dot x y ≤ norm1 x * normInf y := by
  have hle := (normInf_le_iff_coords hy (normInf_nonneg y)).1 le_rfl
  rw [dot_eq hx hy, norm1_eq hx, Finset.sum_mul]
  refine Finset.sum_le_sum fun j _ => ?_
  calc coords n x j * coords n y j ≤ |coords n x j * coords n y j| := le_abs_self _
    _ = |coords n x j| * |coords n y j| := abs_mul _ _
    _ ≤ |coords n x j| * normInf y := mul_le_mul_of_nonneg_left (hle j) (abs_nonneg _)

/-! ### Multiples -/

/-- The multiple of a vector by a number. -/
def scale (c : ℝ) (x : List ℝ) : List ℝ := x.map (c * ·)

/-- A multiple has the length of the vector. -/
@[simp] theorem length_scale (c : ℝ) (x : List ℝ) : (scale c x).length = x.length :=
  List.length_map ..

/-- A multiple in coordinates. -/
@[simp] theorem coords_scale (c : ℝ) (x : List ℝ) : coords n (scale c x) = c • coords n x := by
  funext j
  cases h : x[(j : ℕ)]? with
  | none => simp [coords, scale, h]
  | some a => simp [coords, scale, h]

/-- The inner product of a multiple. -/
theorem dot_scale (c : ℝ) {x y : List ℝ} (hx : x.length = n) (hy : y.length = n) :
    dot (scale c x) y = c * dot x y := by
  rw [dot_eq ((length_scale c x).trans hx) hy, dot_eq hx hy, coords_scale, smul_dotProduct,
    smul_eq_mul]

/-! ### Two vectors as one point -/

/-- The point of a Euclidean space whose coordinates are those of two vectors. -/
def joint (n m : ℕ) (x y : List ℝ) : EuclideanSpace ℝ (Fin n ⊕ Fin m) :=
  WithLp.toLp _ (Sum.elim (coords n x) (coords m y))

/-- Sums are taken part by part. -/
theorem joint_add {x x' y y' : List ℝ} (hx : x.length = n) (hx' : x'.length = n)
    (hy : y.length = m) (hy' : y'.length = m) :
    joint n m (add x x') (add y y') = joint n m x y + joint n m x' y' := by
  rw [joint, coords_add hx hx', coords_add hy hy', Sum.elim_add_add, WithLp.toLp_add]
  rfl

/-- Differences are taken part by part. -/
theorem joint_sub {x x' y y' : List ℝ} (hx : x.length = n) (hx' : x'.length = n)
    (hy : y.length = m) (hy' : y'.length = m) :
    joint n m (sub x x') (sub y y') = joint n m x y - joint n m x' y' := by
  rw [joint, coords_sub hx hx', coords_sub hy hy', Sum.elim_sub_sub, WithLp.toLp_sub]
  rfl

/-- Multiples are taken part by part. -/
theorem joint_scale (c : ℝ) (x y : List ℝ) :
    joint n m (scale c x) (scale c y) = c • joint n m x y := by
  rw [joint, coords_scale, coords_scale, joint, ← WithLp.toLp_smul]
  congr 1
  funext i
  cases i <;> rfl

/-- The point of two zero vectors. -/
@[simp] theorem joint_zeros : joint n m (zeros n) (zeros m) = 0 := by
  rw [joint, coords_zeros, coords_zeros, Sum.elim_zero_zero]
  rfl

/-- The inner product is the sum of those of the parts. -/
theorem inner_joint {x y u v : List ℝ} (hx : x.length = n) (hu : u.length = n)
    (hy : y.length = m) (hv : v.length = m) :
    ⟪joint n m x y, joint n m u v⟫ = dot x u + dot y v := by
  rw [dot_eq hx hu, dot_eq hy hv, joint, joint, PiLp.inner_apply, Fintype.sum_sum_type]
  simp [dotProduct, mul_comm]

/-- The squared length is the sum of those of the parts. -/
theorem norm_joint_sq {x y : List ℝ} (hx : x.length = n) (hy : y.length = m) :
    ‖joint n m x y‖ ^ 2 = sumSquares x + sumSquares y := by
  rw [sumSquares_eq hx, sumSquares_eq hy, EuclideanSpace.norm_sq_eq, Fintype.sum_sum_type]
  simp [joint]

/-- The Euclidean length of a pair of vectors is the length of its point. -/
theorem pairNorm_eq_norm {x y : List ℝ} (hx : x.length = n) (hy : y.length = m) :
    pairNorm x y = ‖joint n m x y‖ := by
  rw [pairNorm, Scalar.sqrt_real, ← norm_joint_sq hx hy, Real.sqrt_sq (norm_nonneg _)]

/-- Pairs of vectors with the same point are equal. -/
theorem eq_of_joint_eq {x x' y y' : List ℝ} (hx : x.length = n) (hx' : x'.length = n)
    (hy : y.length = m) (hy' : y'.length = m) (h : joint n m x y = joint n m x' y') :
    x = x' ∧ y = y' := by
  have hxy := congrArg WithLp.ofLp h
  simp only [joint, Sum.elim_eq_iff] at hxy
  exact ⟨eq_of_coords_eq hx hx' hxy.1, eq_of_coords_eq hy hy' hxy.2⟩

end Vec

end RegPath
