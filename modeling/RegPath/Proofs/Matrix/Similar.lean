import RegPath.Proofs.Lasso.Threshold
import RegPath.Proofs.Matrix.Forms
import RegPath.Proofs.Matrix.Normal
import RegPath.Proofs.Similarity

namespace RegPath

open scoped BigOperators Matrix

/-!
# Similar matrices

A similarity moves the rows and the columns of a matrix, with their signs.  Its factor does not
change the entries, as it is the same for rows and columns.  Products, the threshold of a lasso and
solutions of the normal system move with the matrix.

* `RowMatrix.Similar` — a matrix whose entries are those of another in other places;
* `RowMatrix.Similar.mulVec_eq`, `transpose_mulVec_eq`, `normal_eq` — products and the normal
  system;
* `lambdaMax_of_similar` — the threshold;
* `RowMatrix.Similar.ofPerms`, `RowMatrix.Similar.ofFactor` — the two kinds of similarities.
-/

namespace RowMatrix

variable {m n : ℕ} {I : Similarity m n} {A A' : RowMatrix ℝ}

/-- The matrices have the shape of the similarity, and the entries of the second are those of the
    first in other places and with other signs. -/
structure Similar (I : Similarity m n) (A A' : RowMatrix ℝ) : Prop where
  /-- The number of rows of the first. -/
  height : A.height = m
  /-- The number of its columns. -/
  cols : A.cols = n
  /-- The number of rows of the second. -/
  height' : A'.height = m
  /-- The number of its columns. -/
  cols' : A'.cols = n
  /-- The entries. -/
  entry : ∀ (i : Fin m) (j : Fin n), A'.entry i j =
    I.rows.sign i * I.cols.sign j * A.entry (I.rows.perm i) (I.cols.perm j)

/-- Equal results of the normal system have equal solutions. -/
theorem eq_of_normal (A : RowMatrix ℝ) {x z : List ℝ} (hx : x.length = A.cols)
    (hz : z.length = A.cols) (h : Vec.add x (A.transpose.mulVec (A.mulVec x)) =
      Vec.add z (A.transpose.mulVec (A.mulVec z))) : x = z := by
  have hdiff := Vec.length_sub_of_eq hx hz
  rw [← A.normalTriangle_mulVec hx, ← A.normalTriangle_mulVec hz] at h
  have hzero : Triangle.mulVec A.normalTriangle (Vec.sub x z) = Vec.zeros A.cols := by
    apply Vec.eq_of_coords_eq (A.length_normalTriangle_mulVec _) (Vec.length_zeros _)
    have hcoords := congrArg (Vec.coords A.cols) h
    rw [coords_normalTriangle_mulVec A hx, coords_normalTriangle_mulVec A hz] at hcoords
    rw [coords_normalTriangle_mulVec A hdiff, Vec.coords_sub hx hz, Matrix.mulVec_sub,
      Matrix.mulVec_sub, sub_add_sub_comm, hcoords, sub_self, Vec.coords_zeros]
  have hnull := congrArg (Vec.coords A.cols) (A.eq_zeros_of_normal hdiff hzero)
  rw [Vec.coords_sub hx hz, Vec.coords_zeros, sub_eq_zero] at hnull
  exact Vec.eq_of_coords_eq hx hz hnull

namespace Similar

variable {x y : List ℝ}

/-- The product with a moved vector is the moved product. -/
theorem mulVec_eq (h : A.Similar I A') (hx : x.length = n) :
    A'.mulVec (I.x x) = I.y (A.mulVec x) := by
  have hy : (A.mulVec x).length = m := (A.length_mulVec x).trans h.height
  apply Vec.eq_of_coords_eq ((A'.length_mulVec _).trans h.height') (I.carries_y.length _ hy)
  funext i
  rw [coords_mulVec_apply h.height' h.cols', I.carries_y.coords _ hy,
    coords_mulVec_apply h.height h.cols, Finset.mul_sum, Finset.mul_sum,
    ← Equiv.sum_comp I.cols.perm fun j => I.factor *
      (I.rows.sign i * (A.entry (I.rows.perm i) j * Vec.coords n x j))]
  refine Finset.sum_congr rfl fun j _ => ?_
  rw [h.entry, I.carries_x.coords x hx]
  linear_combination (I.factor * I.rows.sign i * A.entry (I.rows.perm i) (I.cols.perm j) *
    Vec.coords n x (I.cols.perm j)) * I.cols.sign_mul_sign j

/-- So is the product with the transpose. -/
theorem transpose_mulVec_eq (h : A.Similar I A') (hy : y.length = m) :
    A'.transpose.mulVec (I.y y) = I.x (A.transpose.mulVec y) := by
  have hx : (A.transpose.mulVec y).length = n := (A.length_transpose_mulVec y).trans h.cols
  apply Vec.eq_of_coords_eq ((A'.length_transpose_mulVec _).trans h.cols')
    (I.carries_x.length _ hx)
  funext j
  rw [coords_transpose_mulVec_apply h.height' h.cols', I.carries_x.coords _ hx,
    coords_transpose_mulVec_apply h.height h.cols, Finset.mul_sum, Finset.mul_sum,
    ← Equiv.sum_comp I.rows.perm fun i => I.factor *
      (I.cols.sign j * (A.entry i (I.cols.perm j) * Vec.coords m y i))]
  refine Finset.sum_congr rfl fun i _ => ?_
  rw [h.entry, I.carries_y.coords y hy]
  linear_combination (I.factor * I.cols.sign j * A.entry (I.rows.perm i) (I.cols.perm j) *
    Vec.coords m y (I.rows.perm i)) * I.rows.sign_mul_sign i

/-- The left side of the normal system moves with its vector. -/
theorem normal_eq (h : A.Similar I A') (hx : x.length = n) :
    Vec.add (I.x x) (A'.transpose.mulVec (A'.mulVec (I.x x))) =
      I.x (Vec.add x (A.transpose.mulVec (A.mulVec x))) := by
  rw [h.mulVec_eq hx, h.transpose_mulVec_eq ((A.length_mulVec x).trans h.height),
    I.carries_x.add hx ((A.length_transpose_mulVec _).trans h.cols)]

end Similar

/-- Two forms of which the second denotes the matrix of the first between two signed
    permutations. -/
theorem Similar.ofPerms {M : Matrix (Fin m) (Fin n) ℝ} (P : SignedPerm m) (Q : SignedPerm n)
    (h : A.Holds M) (h' : A'.Holds (P.toMatrix * M * Q.toMatrix)) :
    A.Similar (.ofPerms P Q) A' := by
  refine ⟨h.height, h.cols, h'.height, h'.cols, fun i j => ?_⟩
  rw [h'.entry, SignedPerm.mul_toMatrix_apply, SignedPerm.toMatrix_mul_apply, ← h.entry]
  show _ = P.sign i * Q.transpose.sign j * A.entry (P.perm i) (Q.transpose.perm j)
  ring

/-- A matrix stays as it is when the vectors are multiplied by a factor. -/
theorem Similar.ofFactor (A : RowMatrix ℝ) {c : ℝ} (hc : 0 < c) :
    A.Similar (.ofFactor A.height A.cols hc) A := by
  refine ⟨rfl, rfl, rfl, rfl, fun i j => ?_⟩
  show _ = (1 : ℝ) * 1 * A.entry i j
  rw [one_mul, one_mul]

end RowMatrix

/-- The threshold of a lasso is multiplied by the factor. -/
theorem lambdaMax_of_similar {m n : ℕ} {I : Similarity m n} {A A' : RowMatrix ℝ}
    (h : A.Similar I A') {b : List ℝ} (hb : b.length = m) :
    ∃ top, lambdaMax A b = .ok top ∧ lambdaMax A' (I.y b) = .ok (I.factor * top) := by
  have hb' : (I.y b).length = A'.height := (I.carries_y.length b hb).trans h.height'.symm
  refine ⟨_, lambdaMax_eq (hb.trans h.height.symm), ?_⟩
  rw [lambdaMax_eq hb', h.transpose_mulVec_eq hb, I.carries_x.normInf I.factor_pos
    ((A.length_transpose_mulVec b).trans h.cols)]

end RegPath
