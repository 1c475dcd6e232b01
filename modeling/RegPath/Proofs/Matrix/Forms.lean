import RegPath.Proofs.Matrix.Entries
import RegPath.Matrix.Assemble

namespace RegPath

open scoped BigOperators

/-!
# What a form denotes

Each form in which a matrix is given denotes a table of numbers, whatever order its parts are in and
however often a position occurs.  The matrix that is read from it has these numbers for entries.

* `Csr.sumAt`, `Triplets.sumAt`, `Grid.valueAt` — what a form says about a position;
* `Csr.Contained` — rows follow one another, none reaches beyond the stored entries;
* `MatrixForm.Denotes` — the matrix that a form denotes;
* `MatrixForm.Denotes.holds` — it is the one that is read.
-/

namespace RowMatrix

/-- The matrix has the shape and the entries of `M`. -/
structure Holds {m n : ℕ} (A : RowMatrix ℝ) (M : Matrix (Fin m) (Fin n) ℝ) : Prop where
  /-- The number of rows. -/
  height : A.height = m
  /-- The number of columns. -/
  cols : A.cols = n
  /-- The entries. -/
  entry : ∀ (i : Fin m) (j : Fin n), A.entry i j = M i j

/-- What a row stores for a column, with a zero for every other entry. -/
theorem sum_storedAt_eq (r : List (ℕ × ℝ)) (j : ℕ) :
    (storedAt r j).sum = (r.map fun e => if e.1 = j then e.2 else 0).sum := by
  induction r with
  | nil => rfl
  | cons e r ih => rw [storedAt_cons, ih, List.map_cons, List.sum_cons]

/-- The entry in a row that exists. -/
theorem entry_of_getElem? {A : RowMatrix ℝ} {i : ℕ} {r : List (ℕ × ℝ)} (h : A.rows[i]? = some r)
    (j : ℕ) : A.entry i j = (storedAt r j).sum := by
  rw [entry, h, Option.getD_some]

end RowMatrix

/-! ### Compressed rows -/

namespace Csr

/-- Where the entries of row `i` begin, as long as the row pointer is not negative. -/
def startOf {α : Type} (c : Csr α) (i : ℕ) : ℕ := (c.pointer[i]?.getD 0).toNat

/-- What the layout stores for row `i` and column `j`: the sum of the values between the pointers of
    the row whose index is the column. -/
noncomputable def sumAt (c : Csr ℝ) (i j : ℕ) : ℝ :=
  ∑ k ∈ Finset.Ico (c.startOf i) (c.startOf (i + 1)),
    if c.indices[k]? = some (j : ℤ) then c.data[k]?.getD 0 else 0

/-- Rows follow one another and do not reach beyond the stored entries.  An accepted layout may have
    pointers of which this is not true, since distances between words wrap around. -/
structure Contained {α : Type} (c : Csr α) : Prop where
  /-- No row ends before it starts. -/
  ordered : c.pointer.IsChain (· ≤ ·)
  /-- Every pointer points at a stored entry or behind the last one. -/
  within : ∀ p ∈ c.pointer, 0 ≤ p ∧ p ≤ c.data.length

section Pieces

variable {α : Type} {c : Csr α}

/-- The piece between two consecutive pointers that do not decrease. -/
theorem getElem?_slices {β : Type} {ps : List ℤ} (hps : ps.IsChain (· ≤ ·)) (es : List β) {i : ℕ}
    {p q s : ℤ} (hs : ps.head? = some s) (hp : ps[i]? = some p) (hq : ps[i + 1]? = some q) :
    (slices ps es)[i]? = some ((es.drop (p - s).toNat).take (q - p).toNat) := by
  -- Each piece is dropped before the next one is taken, so the distances from the start add up.
  induction ps generalizing es i s with
  | nil => cases hs
  | cons a ps ih =>
    obtain rfl : a = s := Option.some.inj hs
    cases ps with
    | nil => simp at hq
    | cons b rest =>
      have hab : a ≤ b := hps.rel
      rw [slices]
      cases i with
      | zero =>
        obtain rfl : a = p := Option.some.inj hp
        obtain rfl : b = q := Option.some.inj hq
        simp
      | succ i =>
        have hbp : b ≤ p := by
          have hpair := List.isChain_iff_pairwise.1 hps.tail
          rw [List.getElem?_cons_succ] at hp
          cases i with
          | zero => exact le_of_eq (Option.some.inj hp)
          | succ i =>
            rw [List.getElem?_cons_succ] at hp
            exact List.rel_of_pairwise_cons hpair (List.mem_of_getElem? hp)
        rw [List.getElem?_cons_succ, ih hps.tail _ rfl hp hq, List.drop_drop]
        congr 3
        omega

/-- A row of an accepted layout, as a piece of what is stored. -/
theorem getElem?_toRows (h : c.Accepted) (hcontained : c.Contained) {i : ℕ} (hi : i < c.height) :
    (c.toRows h).rows[i]? = some (((List.zip (c.indices.map Int.toNat) c.data).drop
      (c.startOf i)).take (c.startOf (i + 1) - c.startOf i)) := by
  have hlen : i + 1 < c.pointer.length := by
    rw [h.pointerLength]
    omega
  have hp := List.getElem?_eq_getElem (Nat.lt_of_succ_lt hlen)
  have hq := List.getElem?_eq_getElem hlen
  have hnonneg := (hcontained.within _ (List.getElem_mem (Nat.lt_of_succ_lt hlen))).1
  have hlength : (c.pointer[i + 1] - c.pointer[i]).toNat =
      c.pointer[i + 1].toNat - c.pointer[i].toNat := by omega
  rw [startOf, startOf, hp, hq, toRows,
    getElem?_slices hcontained.ordered _ h.starts hp hq, Int.sub_zero, hlength]
  rfl

end Pieces

variable {c : Csr ℝ}

/-- A sum over a piece of a list is one over the positions of the piece. -/
theorem sum_take_drop {β : Type} (g : β → ℝ) (es : List β) {a b : ℕ} (hab : a ≤ b)
    (hb : b ≤ es.length) :
    (((es.drop a).take (b - a)).map g).sum = ∑ k ∈ Finset.Ico a b, (es[k]?.map g).getD 0 := by
  induction b, hab using Nat.le_induction with
  | base => simp
  | succ b hab ih =>
    have hlt : b - a < (es.drop a).length := by
      rw [List.length_drop]
      omega
    rw [Nat.succ_sub hab, List.take_succ_eq_append_getElem hlt, List.map_append, List.sum_append,
      ih (by omega), Finset.sum_Ico_succ_top hab, List.getElem_drop]
    simp [Nat.add_sub_cancel' hab, show b < es.length by omega]

/-- The entry of an accepted layout is the sum of what it stores for it. -/
theorem entry_toRows (h : c.Accepted) (hcontained : c.Contained) {i : ℕ} (hi : i < c.height)
    (j : ℕ) : (c.toRows h).entry i j = c.sumAt i j := by
  have hlen : i + 1 < c.pointer.length := by
    rw [h.pointerLength]
    omega
  have hp := List.getElem?_eq_getElem (Nat.lt_of_succ_lt hlen)
  have hq := List.getElem?_eq_getElem hlen
  have hle : c.pointer[i] ≤ c.pointer[i + 1] := hcontained.ordered.getElem i hlen
  have hpbound := hcontained.within _ (List.getElem_mem (Nat.lt_of_succ_lt hlen))
  have hqbound := hcontained.within _ (List.getElem_mem hlen)
  have hstart : c.startOf i = c.pointer[i].toNat ∧ c.startOf (i + 1) = c.pointer[i + 1].toNat := by
    rw [startOf, startOf, hp, hq]
    exact ⟨rfl, rfl⟩
  have hrow := getElem?_toRows h hcontained hi
  have hes : (List.zip (c.indices.map Int.toNat) c.data).length = c.data.length := by
    rw [List.length_zip, List.length_map, h.dataLength, Nat.min_self]
  rw [RowMatrix.entry_of_getElem? hrow, RowMatrix.sum_storedAt_eq,
    sum_take_drop _ _ (by rw [hstart.1, hstart.2]; omega) (by rw [hes, hstart.2]; omega), sumAt]
  refine Finset.sum_congr rfl fun k hk => ?_
  have hk : k < c.data.length := by
    rw [Finset.mem_Ico, hstart.2] at hk
    omega
  have hindex : k < c.indices.length := by rw [h.dataLength]; exact hk
  have hnonneg := (h.inRange _ (List.getElem_mem hindex)).1
  have hentry : (List.zip (c.indices.map Int.toNat) c.data)[k]? =
      some (c.indices[k].toNat, c.data[k]) := by
    rw [List.getElem?_zip_eq_some, List.getElem?_map, List.getElem?_eq_getElem hindex,
      List.getElem?_eq_getElem hk]
    exact ⟨rfl, rfl⟩
  simp only [hentry, Option.map_some, Option.getD_some, List.getElem?_eq_getElem hindex,
    List.getElem?_eq_getElem hk, Option.some.injEq]
  exact if_congr (by omega) rfl rfl

/-- A layout that is read is accepted. -/
theorem exists_accepted {A : RowMatrix ℝ} (h : (MatrixForm.compressed c).read = .ok A) :
    ∃ haccepted, A = c.toRows haccepted := by
  change c.read.mapError Fault.layout = .ok A at h
  unfold read at h
  split at h
  · cases h
  · exact ⟨_, (Except.ok.inj h).symm⟩

/-- A matrix has the height of its layout. -/
theorem height_toRows {α : Type} {c : Csr α} (h : c.Accepted) :
    (c.toRows h).height = c.height := by
  have hlen : ∀ (ps : List ℤ) (es : List (ℕ × α)), (slices ps es).length = ps.length - 1 := by
    intro ps
    induction ps with
    | nil => exact fun _ => rfl
    | cons p ps ih =>
      intro es
      cases ps with
      | nil => rfl
      | cons q rest => rw [slices, List.length_cons, ih]; rfl
  rw [RowMatrix.height, toRows, hlen, h.pointerLength, Nat.add_sub_cancel]

end Csr

/-! ### Triplets -/

namespace Triplets

/-- The sum of the values that are given for row `i` and column `j`. -/
noncomputable def sumAt (c : Triplets ℝ) (i j : ℕ) : ℝ :=
  ((c.entries.filter fun t => t.row = i ∧ t.col = j).map Triplet.value).sum

/-- Merging a value adds it to what is stored for its column. -/
theorem sum_storedAt_mergeEntry (j : ℕ) (v : ℝ) (r : List (ℕ × ℝ)) (k : ℕ) :
    (RowMatrix.storedAt (mergeEntry j v r) k).sum =
      (if j = k then v else 0) + (RowMatrix.storedAt r k).sum := by
  induction r with
  | nil => rw [mergeEntry, RowMatrix.storedAt_cons]
  | cons e r ih =>
    unfold mergeEntry
    split
    · rw [RowMatrix.storedAt_cons]
    · split
      · rename_i hj
        rw [RowMatrix.storedAt_cons, RowMatrix.storedAt_cons, ← hj]
        by_cases hk : j = k
        · simp only [if_pos hk]
          ring
        · simp only [if_neg hk, zero_add]
      · rw [RowMatrix.storedAt_cons, RowMatrix.storedAt_cons, ih]
        ring

/-- An assembled row stores the sum of its values for each column. -/
theorem sum_storedAt_foldl (ts : List (Triplet ℝ)) (r : List (ℕ × ℝ)) (k : ℕ) :
    (RowMatrix.storedAt (ts.foldl (fun r t => mergeEntry t.col t.value r) r) k).sum =
      ((ts.filter fun t => t.col = k).map Triplet.value).sum + (RowMatrix.storedAt r k).sum := by
  induction ts generalizing r with
  | nil => simp
  | cons t ts ih =>
    rw [List.foldl_cons, ih, sum_storedAt_mergeEntry, List.filter_cons]
    by_cases hk : t.col = k
    · simp only [hk, decide_true, if_true, List.map_cons, List.sum_cons]
      ring
    · simp only [hk, decide_false, if_false, Bool.false_eq_true, zero_add]

/-- The entry of triplets is the sum of what is given for it. -/
theorem entry_toRows (c : Triplets ℝ) {i : ℕ} (hi : i < c.height) (j : ℕ) :
    c.toRows.entry i j = c.sumAt i j := by
  have hrow : c.toRows.rows[i]? = some (rowOfTriplets c.entries i) := by
    rw [toRows, List.getElem?_map, List.getElem?_range hi, Option.map_some]
  rw [RowMatrix.entry_of_getElem? hrow, rowOfTriplets, sum_storedAt_foldl, List.filter_filter,
    sumAt]
  simp [RowMatrix.storedAt, Bool.and_comm]

end Triplets

/-! ### Dense tables -/

namespace Grid

/-- The entry of the table in row `i` and column `j`. -/
noncomputable def valueAt (g : Grid ℝ) (i j : ℕ) : ℝ := (g.rows[i]?.bind fun r => r[j]?).getD 0

/-- What is kept of a row, numbered from `k` on, has its values: only zeros are left out. -/
theorem sum_storedAt_zipIdx (values : List ℝ) (k j : ℕ) :
    (RowMatrix.storedAt (((values.zipIdx k).filter fun e => decide ¬ Scalar.IsZero e.1).map
      fun e => (e.2, e.1)) (k + j)).sum = values[j]?.getD 0 := by
  have hbefore : ∀ (values : List ℝ) (k j : ℕ), j < k →
      (RowMatrix.storedAt (((values.zipIdx k).filter fun e => decide ¬ Scalar.IsZero e.1).map
        fun e => (e.2, e.1)) j).sum = 0 := by
    intro values k j hj
    rw [RowMatrix.storedAt, List.filterMap_eq_nil_iff.2, List.sum_nil]
    intro e he
    obtain ⟨f, hf, rfl⟩ := List.mem_map.1 he
    have hle := (List.mem_zipIdx (List.mem_of_mem_filter hf)).1
    rw [if_neg (by omega)]
  induction values generalizing k j with
  | nil => rfl
  | cons v values ih =>
    rw [List.zipIdx_cons, List.filter_cons]
    by_cases hv : v = 0
    · rw [if_neg (by simp [hv])]
      cases j with
      | zero => rw [hbefore values (k + 1) (k + 0) (by omega), hv]; rfl
      | succ j => rw [show k + (j + 1) = k + 1 + j by omega, ih, List.getElem?_cons_succ]
    · rw [if_pos (by simp [hv]), List.map_cons, RowMatrix.storedAt_cons]
      cases j with
      | zero => rw [hbefore values (k + 1) (k + 0) (by omega), add_zero]; exact if_pos rfl
      | succ j =>
        rw [if_neg (by simp), show k + (j + 1) = k + 1 + j by omega, ih, zero_add,
          List.getElem?_cons_succ]

/-- The entry of a table is the one that stands there. -/
theorem entry_toRows (g : Grid ℝ) {i : ℕ} (hi : i < g.rows.length) (j : ℕ) :
    g.toRows.entry i j = g.valueAt i j := by
  have hrow : g.toRows.rows[i]? = some (entries g.rows[i]) := by
    rw [toRows, List.getElem?_map, List.getElem?_eq_getElem hi, Option.map_some]
  have hvalue := sum_storedAt_zipIdx g.rows[i] 0 j
  rw [Nat.zero_add] at hvalue
  rw [RowMatrix.entry_of_getElem? hrow, valueAt, List.getElem?_eq_getElem hi, Option.bind_some]
  exact hvalue

end Grid

/-! ### Any form -/

/-- The form denotes the matrix `M`. -/
inductive MatrixForm.Denotes {m n : ℕ} : MatrixForm ℝ → Matrix (Fin m) (Fin n) ℝ → Prop where
  /-- Compressed rows, with columns in any order, repeated ones and stored zeros. -/
  | compressed {c : Csr ℝ} {M : Matrix (Fin m) (Fin n) ℝ} (contained : c.Contained)
      (height : c.height = m) (cols : c.cols = n) (entry : ∀ i j, M i j = c.sumAt i j) :
      MatrixForm.Denotes (.compressed c) M
  /-- A dense table. -/
  | dense {g : Grid ℝ} {M : Matrix (Fin m) (Fin n) ℝ} (height : g.rows.length = m)
      (cols : g.cols = n) (entry : ∀ i j, M i j = g.valueAt i j) : MatrixForm.Denotes (.dense g) M
  /-- Triplets in any order, with repeated positions. -/
  | coordinates {c : Triplets ℝ} {M : Matrix (Fin m) (Fin n) ℝ} (height : c.height = m)
      (cols : c.cols = n) (entry : ∀ i j, M i j = c.sumAt i j) :
      MatrixForm.Denotes (.coordinates c) M
  /-- The same by columns. -/
  | byColumns {c : Triplets ℝ} {M : Matrix (Fin m) (Fin n) ℝ} (height : c.height = m)
      (cols : c.cols = n) (entry : ∀ i j, M i j = c.sumAt i j) :
      MatrixForm.Denotes (.byColumns c) M

/-- The matrix that triplets denote is the one that is read. -/
theorem Triplets.holds {m n : ℕ} {c : Triplets ℝ} {M : Matrix (Fin m) (Fin n) ℝ}
    (height : c.height = m) (cols : c.cols = n) (entry : ∀ i j, M i j = c.sumAt i j) :
    c.toRows.Holds M := by
  refine ⟨?_, cols, fun i j => ?_⟩
  · rw [RowMatrix.height, toRows, List.length_map, List.length_range, height]
  · rw [c.entry_toRows (height ▸ i.isLt), entry]

/-- The matrix that a form denotes is the one that is read from it. -/
theorem MatrixForm.Denotes.holds {m n : ℕ} {form : MatrixForm ℝ} {M : Matrix (Fin m) (Fin n) ℝ}
    {A : RowMatrix ℝ} (h : form.Denotes M) (hA : form.read = .ok A) : A.Holds M := by
  cases h with
  | @compressed c M contained height cols entry =>
    obtain ⟨haccepted, rfl⟩ := Csr.exists_accepted hA
    refine ⟨(Csr.height_toRows haccepted).trans height, cols, fun i j => ?_⟩
    rw [Csr.entry_toRows haccepted contained (height ▸ i.isLt), entry]
  | @dense g M height cols entry =>
    obtain rfl : g.toRows = A := Except.ok.inj hA
    refine ⟨?_, cols, fun i j => ?_⟩
    · rw [RowMatrix.height, Grid.toRows, List.length_map, height]
    · rw [g.entry_toRows (height ▸ i.isLt), entry]
  | @coordinates c M height cols entry =>
    obtain rfl : c.toRows = A := Except.ok.inj hA
    exact c.holds height cols entry
  | @byColumns c M height cols entry =>
    obtain rfl : c.toRows = A := Except.ok.inj hA
    exact c.holds height cols entry

end RegPath
