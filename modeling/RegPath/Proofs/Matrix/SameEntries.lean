import RegPath.Proofs.Lasso.Threshold
import RegPath.Proofs.Matrix.Forms
import RegPath.Proofs.Matrix.Normal

namespace RegPath

open scoped BigOperators

/-!
# Matrices with the same entries

Two matrices may store the same entries in different ways: in another order, in several parts, or
with zeros that are written down.  No operation of the library tells them apart.

* `RowMatrix.SameEntries` — two matrices with the same shape and the same entries;
* `RowMatrix.SameEntries.mulVec_eq`, `transpose_mulVec_eq`, `normalTriangle_eq`, `selectRows` — the
  operations on them;
* `lambdaMax_eq_of_sameEntries` — the threshold of a lasso on them.
-/

namespace RowMatrix

/-- The matrices have the same shape and the same entries. -/
structure SameEntries (A A' : RowMatrix ℝ) : Prop where
  /-- They have the same height. -/
  height : A'.height = A.height
  /-- They have the same number of columns. -/
  cols : A'.cols = A.cols
  /-- They have the same entries. -/
  entry : ∀ i j, A'.entry i j = A.entry i j

/-- A row that does not exist has no entries. -/
theorem entry_of_height_le {A : RowMatrix ℝ} {i : ℕ} (h : A.height ≤ i) (j : ℕ) :
    A.entry i j = 0 := by
  rw [entry, List.getElem?_eq_none (show A.rows.length ≤ i from h)]
  rfl

/-- Nor has a column that does not exist. -/
theorem entry_of_cols_le {A : RowMatrix ℝ} {j : ℕ} (h : A.cols ≤ j) (i : ℕ) : A.entry i j = 0 := by
  have hnil : storedAt (A.rows[i]?.getD []) j = [] := by
    refine List.filterMap_eq_nil_iff.2 fun e he => if_neg fun hej => ?_
    cases hrow : A.rows[i]? with
    | none =>
      rw [hrow] at he
      cases he
    | some r =>
      rw [hrow] at he
      have hlt := A.inBounds r (List.mem_of_getElem? hrow) e he
      omega
  rw [entry, hnil, List.sum_nil]

/-- Matrices that hold one and the same table have the same entries. -/
theorem Holds.sameEntries {m n : ℕ} {A A' : RowMatrix ℝ} {M : Matrix (Fin m) (Fin n) ℝ}
    (h : A.Holds M) (h' : A'.Holds M) : A.SameEntries A' := by
  refine ⟨h'.height.trans h.height.symm, h'.cols.trans h.cols.symm, fun i j => ?_⟩
  by_cases hi : i < m
  · by_cases hj : j < n
    · rw [h'.entry ⟨i, hi⟩ ⟨j, hj⟩, h.entry ⟨i, hi⟩ ⟨j, hj⟩]
    · rw [entry_of_cols_le (h'.cols.trans_le (Nat.le_of_not_lt hj)),
        entry_of_cols_le (h.cols.trans_le (Nat.le_of_not_lt hj))]
  · rw [entry_of_height_le (h'.height.trans_le (Nat.le_of_not_lt hi)),
      entry_of_height_le (h.height.trans_le (Nat.le_of_not_lt hi))]

namespace SameEntries

variable {A A' : RowMatrix ℝ}

/-- The product `A x` is the same, for vectors of any length. -/
theorem mulVec_eq (h : A.SameEntries A') (x : List ℝ) : A'.mulVec x = A.mulVec x := by
  apply Vec.eq_of_coords_eq ((A'.length_mulVec x).trans h.height) (A.length_mulVec x)
  funext i
  rw [coords_mulVec_apply h.height h.cols, coords_mulVec_apply rfl rfl]
  exact Finset.sum_congr rfl fun j _ => by rw [h.entry]

/-- The product `Aᵀ y` is the same. -/
theorem transpose_mulVec_eq (h : A.SameEntries A') (y : List ℝ) :
    A'.transpose.mulVec y = A.transpose.mulVec y := by
  apply Vec.eq_of_coords_eq ((A'.length_transpose_mulVec y).trans h.cols)
    (A.length_transpose_mulVec y)
  funext j
  rw [coords_transpose_mulVec_apply h.height h.cols, coords_transpose_mulVec_apply rfl rfl]
  exact Finset.sum_congr rfl fun i _ => by rw [h.entry]

/-- The triangle of `I + Aᵀ A` is the same, entry by entry. -/
theorem normalTriangle_eq (h : A.SameEntries A') : A'.normalTriangle = A.normalTriangle := by
  have hsum : ∀ j k, ∑ i : Fin A'.height, A'.entry i j * A'.entry i k =
      ∑ i : Fin A.height, A.entry i j * A.entry i k := by
    intro j k
    rw [Fin.sum_univ_eq_sum_range (fun i => A'.entry i j * A'.entry i k),
      Fin.sum_univ_eq_sum_range (fun i => A.entry i j * A.entry i k), h.height]
    exact Finset.sum_congr rfl fun i _ => by rw [h.entry, h.entry]
  have hentry : A'.normalEntry = A.normalEntry := by
    funext j k
    rw [normalEntry_eq, normalEntry_eq, hsum]
  rw [normalTriangle_eq_upper, normalTriangle_eq_upper, hentry, h.cols]

/-- Selected rows have the same entries. -/
theorem selectRows (h : A.SameEntries A') (positions : List ℕ) :
    (A.selectRows positions).SameEntries (A'.selectRows positions) := by
  have hentry : ∀ (B : RowMatrix ℝ) (k j : ℕ), (B.selectRows positions).entry k j =
      (positions[k]?.map fun i => B.entry i j).getD 0 := by
    intro B k j
    simp only [RowMatrix.selectRows, RowMatrix.entry, List.getElem?_map]
    cases positions[k]? with
    | none => rfl
    | some i => rfl
  refine ⟨by rw [height_selectRows, height_selectRows], h.cols, fun k j => ?_⟩
  rw [hentry, hentry]
  simp only [h.entry]

end SameEntries

end RowMatrix

/-- The threshold of the lasso is the same: the shortcut for a matrix that stores nothing gives what
    zeros that are stored give. -/
theorem lambdaMax_eq_of_sameEntries {A A' : RowMatrix ℝ} (h : A.SameEntries A') (b : List ℝ) :
    lambdaMax A' b = lambdaMax A b := by
  by_cases hb : b.length = A.height
  · rw [lambdaMax_eq hb, lambdaMax_eq (hb.trans h.height.symm), h.transpose_mulVec_eq]
  · rw [lambdaMax, lambdaMax, if_pos hb, if_pos fun hb' => hb (hb'.trans h.height), h.height]

end RegPath
