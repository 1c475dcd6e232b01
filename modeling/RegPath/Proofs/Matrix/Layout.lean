import RegPath.Proofs.Matrix.Forms
import RegPath.Proofs.Matrix.Words
import RegPath.Proofs.Schedule

namespace RegPath

/-!
# Layouts that are safe to read

A compressed row layout is safe to read if its rows tile the stored entries: each stored position is
in exactly one row, and no row has another position.  Such layouts are accepted, whatever words hold
the row pointer.  The converse needs that the pointers do not decrease, which the test of their order
does not tell: it measures distances in words, and these wrap around, so that the pointers of an
accepted layout may leave the stored entries and come back.  Where words have a sign, this takes a
negative pointer.

* `Csr.InRow`, `Csr.Tiled` — the positions of a row, and layouts whose rows tile the entries;
* `Csr.Tiled.accepted`, `Csr.Accepted.tiled` — tiled and accepted layouts;
* `Csr.row?`, `Csr.product?`, `Csr.transposeProduct?` — reading with every access checked;
* `Csr.ReadAs` — a layout that is read without a fault, each entry once;
* `Csr.tiled_iff` — which layouts are tiled, and how they are read.
-/

namespace Csr

variable {α : Type}

/-! ### Rows -/

/-- The pointer of row `i`. -/
def pointerAt (c : Csr α) (i : ℕ) : ℤ := c.pointer[i]?.getD 0

/-- Whether position `k` is in the range of row `i`. -/
def InRow (c : Csr α) (i : ℕ) (k : ℤ) : Prop := c.pointerAt i ≤ k ∧ k < c.pointerAt (i + 1)

/-- A layout with arrays of the right lengths, existing columns, and rows that tile the stored
    entries. -/
structure Tiled (c : Csr α) : Prop where
  /-- There is one pointer for each row and one for the end. -/
  pointerLength : c.pointer.length = c.height + 1
  /-- The first row starts at the first stored entry. -/
  starts : c.pointer.head? = some 0
  /-- The last row ends at the last stored entry. -/
  ends : c.pointer.getLast? = some (c.indices.length : ℤ)
  /-- Each column index has a value. -/
  dataLength : c.indices.length = c.data.length
  /-- Every column exists. -/
  inRange : ∀ j ∈ c.indices, 0 ≤ j ∧ j < c.cols
  /-- No row reaches beyond the stored entries. -/
  within : ∀ i < c.height, ∀ k, c.InRow i k → 0 ≤ k ∧ k < c.indices.length
  /-- Each stored entry is in one row. -/
  once : ∀ k : ℤ, 0 ≤ k → k < c.indices.length → ∃! i, i < c.height ∧ c.InRow i k

/-- The first pointer. -/
theorem pointerAt_zero {c : Csr α} (h : c.pointer.head? = some 0) : c.pointerAt 0 = 0 := by
  rw [pointerAt, ← List.head?_eq_getElem?, h, Option.getD_some]

/-- The last pointer. -/
theorem pointerAt_height {c : Csr α} (hlength : c.pointer.length = c.height + 1)
    (h : c.pointer.getLast? = some (c.indices.length : ℤ)) :
    c.pointerAt c.height = c.indices.length := by
  rw [List.getLast?_eq_getElem?, hlength, Nat.add_sub_cancel] at h
  rw [pointerAt, h, Option.getD_some]

/-- The pointers do not decrease if none does from one row to the next. -/
theorem isChain_pointer_iff {c : Csr α} (hlength : c.pointer.length = c.height + 1) :
    c.pointer.IsChain (· ≤ ·) ↔ ∀ i < c.height, c.pointerAt i ≤ c.pointerAt (i + 1) := by
  have hat : ∀ i (hi : i < c.pointer.length), c.pointerAt i = c.pointer[i] := by
    intro i hi
    rw [pointerAt, List.getElem?_eq_getElem hi, Option.getD_some]
  rw [List.isChain_iff_getElem]
  constructor
  · intro h i hi
    rw [hat i (by omega), hat (i + 1) (by omega)]
    exact h i (by omega)
  · intro h i hi
    rw [← hat i (by omega), ← hat (i + 1) (by omega)]
    exact h i (by omega)

/-! ### Crossings -/

/-- On the way from a value up to a position to one beyond it some step crosses the position. -/
theorem exists_crossing {f : ℕ → ℤ} {a b : ℕ} {k : ℤ} (hab : a ≤ b) (ha : f a ≤ k)
    (hb : k < f b) : ∃ i, a ≤ i ∧ i < b ∧ f i ≤ k ∧ k < f (i + 1) := by
  induction b, hab using Nat.le_induction with
  | base => omega
  | succ b hab ih =>
    by_cases hk : k < f b
    · obtain ⟨i, hai, hib, hcross⟩ := ih hk
      exact ⟨i, hai, by omega, hcross⟩
    · exact ⟨b, hab, by omega, by omega, hb⟩

/-- What does not decrease from one step to the next does not decrease. -/
theorem le_of_steps {f : ℕ → ℤ} {n i j : ℕ} (hf : ∀ i < n, f i ≤ f (i + 1)) (hij : i ≤ j)
    (hj : j ≤ n) : f i ≤ f j := by
  induction j, hij using Nat.le_induction with
  | base => exact le_refl _
  | succ j hij ih => exact le_trans (ih (by omega)) (hf j (by omega))

/-- What does not decrease crosses a position once. -/
theorem crossing_unique {f : ℕ → ℤ} {n i j : ℕ} {k : ℤ} (hf : ∀ i < n, f i ≤ f (i + 1))
    (hi : i < n) (hj : j < n) (hik : f i ≤ k ∧ k < f (i + 1)) (hjk : f j ≤ k ∧ k < f (j + 1)) :
    i = j := by
  rcases lt_trichotomy i j with h | h | h
  · have := le_of_steps hf (show i + 1 ≤ j from h) (le_of_lt hj)
    omega
  · exact h
  · have := le_of_steps hf (show j + 1 ≤ i from h) (le_of_lt hi)
    omega

/-! ### Tiled layouts are accepted -/

namespace Tiled

variable {c : Csr α}

/-- Every pointer of a tiled layout points at a stored entry or behind the last one. -/
theorem pointer_mem (h : c.Tiled) {i : ℕ} (hi : i ≤ c.height) :
    0 ≤ c.pointerAt i ∧ c.pointerAt i ≤ c.indices.length := by
  have hfirst := pointerAt_zero h.starts
  have hlast := pointerAt_height h.pointerLength h.ends
  -- A pointer outside would have to be reached, or left again, through a row outside.
  constructor
  · by_contra hneg
    obtain ⟨r, -, hr, hcross⟩ := exists_crossing (f := c.pointerAt) (k := -1) hi (by omega)
      (by omega)
    have := h.within r hr (-1) hcross
    omega
  · by_contra hlarge
    obtain ⟨r, -, hr, hcross⟩ := exists_crossing (f := c.pointerAt) (k := c.indices.length)
      (Nat.zero_le i) (by omega) (by omega)
    have := h.within r (by omega) _ hcross
    omega

/-- The pointers of a tiled layout do not decrease: a position that they step back over would be in
    a row before and in a row after. -/
theorem le_succ (h : c.Tiled) {i : ℕ} (hi : i < c.height) :
    c.pointerAt i ≤ c.pointerAt (i + 1) := by
  by_contra hback
  have hfirst := pointerAt_zero h.starts
  have hlast := pointerAt_height h.pointerLength h.ends
  have hbefore := h.pointer_mem (le_of_lt hi)
  have hafter := h.pointer_mem (show i + 1 ≤ c.height from hi)
  obtain ⟨r, -, hr, hcross⟩ := exists_crossing (f := c.pointerAt) (k := c.pointerAt i - 1)
    (Nat.zero_le i) (by omega) (by omega)
  obtain ⟨s, hs, hs', hcross'⟩ := exists_crossing (f := c.pointerAt) (k := c.pointerAt i - 1)
    (show i + 1 ≤ c.height by omega) (by omega) (by omega)
  have hsame := (h.once (c.pointerAt i - 1) (by omega) (by omega)).unique
    ⟨by omega, hcross⟩ ⟨hs', hcross'⟩
  omega

/-- The rows of a tiled layout follow one another. -/
theorem contained (h : c.Tiled) : c.Contained := by
  refine ⟨(isChain_pointer_iff h.pointerLength).2 fun _ hi => h.le_succ hi, fun p hp => ?_⟩
  obtain ⟨i, hi, rfl⟩ := List.getElem_of_mem hp
  have hlength := h.pointerLength
  have hmem := h.pointer_mem (i := i) (by omega)
  rwa [pointerAt, List.getElem?_eq_getElem hi, Option.getD_some, h.dataLength] at hmem

/-- A tiled layout is accepted, whatever words hold its pointers. -/
theorem accepted (h : c.Tiled) (hheld : ∀ p ∈ c.pointer, c.word.Holds p) : c.Accepted :=
  have hordered := nonDecreasing_of_isChain
    (fun p hp => ⟨(h.contained.within p hp).1, hheld p hp⟩) h.contained.ordered
  ⟨h.pointerLength, h.starts, h.ends, h.dataLength, hordered, h.inRange⟩

end Tiled

/-! ### Accepted layouts whose pointers do not decrease are tiled -/

/-- An accepted layout is tiled if its pointers do not decrease. -/
theorem Accepted.tiled {c : Csr α} (h : c.Accepted) (hordered : c.pointer.IsChain (· ≤ ·)) :
    c.Tiled := by
  have hstep := (isChain_pointer_iff h.pointerLength).1 hordered
  have hfirst := pointerAt_zero h.starts
  have hlast := pointerAt_height h.pointerLength h.ends
  refine ⟨h.pointerLength, h.starts, h.ends, h.dataLength, h.inRange, fun i hi k hk => ?_,
    fun k hk hk' => ?_⟩
  · have hbelow := le_of_steps hstep (Nat.zero_le i) (le_of_lt hi)
    have habove := le_of_steps hstep (show i + 1 ≤ c.height from hi) (le_refl c.height)
    have := hk.1
    have := hk.2
    omega
  · obtain ⟨i, -, hi, hcross⟩ := exists_crossing (f := c.pointerAt) (k := k)
      (Nat.zero_le c.height) (by omega) (by omega)
    exact ⟨i, ⟨hi, hcross⟩, fun j hj => crossing_unique hstep hj.1 hi hj.2 hcross⟩

/-- A layout can be made of arrays if words hold the row pointer. -/
theorem ofWords_ok {w : Word} {s : Shape} {pointer indices : List ℤ} {data : List α} {c : Csr α}
    (h : ofWords w s pointer indices data = .ok c) :
    (∀ p ∈ pointer, w.Holds p) ∧ c = ⟨s.height, s.cols, w, pointer, indices, data⟩ := by
  unfold ofWords at h
  split at h
  · rename_i hheld
    exact ⟨hheld, (Except.ok.inj h).symm⟩
  · cases h

/-- Words with a sign are chosen for arrays. -/
theorem exists_ofWords {s : Shape} {pointer indices : List ℤ} {data : List α} {c : Csr α}
    (h : ofArrays s pointer indices data = .ok c) :
    ∃ w : Word, w.signed ∧ ofWords w s pointer indices data = .ok c := by
  simp only [ofArrays] at h
  split at h
  · exact ⟨_, Word.signed_choose _, h⟩
  · cases h

/-! ### Reading with every access checked -/

/-- The positions of row `i`, in order. -/
def positions (c : Csr α) (i : ℕ) : List ℤ :=
  (List.range (c.pointerAt (i + 1) - c.pointerAt i).toNat).map fun n : ℕ => c.pointerAt i + n

/-- The column and the value at position `k`; `none` outside of the arrays, and for a column that
    does not exist. -/
def stored? (c : Csr α) (k : ℤ) : Option (ℕ × α) := do
  guard (0 ≤ k)
  let j ← c.indices[k.toNat]?
  let v ← c.data[k.toNat]?
  guard (0 ≤ j ∧ j < c.cols)
  return (j.toNat, v)

/-- What is stored in row `i`. -/
def row? (c : Csr α) (i : ℕ) : Option (List (ℕ × α)) := (c.positions i).mapM c.stored?

/-- What is stored in all rows. -/
def rows? (c : Csr α) : Option (List (List (ℕ × α))) := (List.range c.height).mapM c.row?

/-- The product `A x`, position by position. -/
def product? [Scalar α] (c : Csr α) (x : List α) : Option (List α) := do
  let rows ← c.rows?
  rows.mapM fun r => do
    let terms ← r.mapM fun e => x[e.1]?.map (e.2 * ·)
    return terms.sum

/-- The product `Aᵀ b`, position by position: each adds to the sum of its column. -/
def transposeProduct? [Scalar α] (c : Csr α) (b : List α) : Option (List α) := do
  let rows ← c.rows?
  let terms ← (rows.zipIdx.flatMap fun r => r.1.map fun e => (r.2, e)).mapM
    fun e => b[e.1]?.map fun a => (e.2.1, e.2.2 * a)
  return (List.range c.cols).map fun j => ((terms.filter fun t => t.1 = j).map Prod.snd).sum

/-- The layout is read as the matrix `A`: no access of a product or a selection of rows fails, and
    all rows together read each stored position once. -/
structure ReadAs [Scalar α] (c : Csr α) (A : RowMatrix α) : Prop where
  /-- The number of rows. -/
  height : A.height = c.height
  /-- The number of columns. -/
  cols : A.cols = c.cols
  /-- All rows are read. -/
  rows : c.rows? = some A.rows
  /-- They read the stored positions in order, each once. -/
  once : (List.range c.height).flatMap c.positions = (List.range c.indices.length).map Int.ofNat
  /-- The product with the matrix is read. -/
  product : ∀ x : List α, x.length = c.cols → c.product? x = some (A.mulVec x)
  /-- The product with the transpose is read. -/
  transposeProduct : ∀ b : List α, b.length = c.height →
    c.transposeProduct? b = some (A.transpose.mulVec b)
  /-- Any rows are read. -/
  selected : ∀ is : List ℕ, (∀ i ∈ is, i < c.height) →
    is.mapM c.row? = some (A.selectRows is).rows

/-- Consecutive entries of a list, read one by one, are a piece of it. -/
theorem mapM_range' {β : Type} {read : ℕ → Option β} (es : List β)
    (hread : ∀ k < es.length, read k = es[k]?) {a n : ℕ} (h : a + n ≤ es.length) :
    (List.range' a n).mapM read = some ((es.drop a).take n) := by
  induction n generalizing a with
  | zero => rfl
  | succ n ih =>
    have ha : a < es.length := by omega
    rw [List.range'_succ, List.mapM_cons, hread a ha, List.getElem?_eq_getElem ha, ih (by omega),
      List.drop_eq_getElem_cons ha, List.take_succ_cons]
    rfl

namespace Tiled

variable {c : Csr α}

/-- A pointer of a tiled layout as a natural number. -/
theorem startOf_eq (h : c.Tiled) {i : ℕ} (hi : i ≤ c.height) : (c.startOf i : ℤ) = c.pointerAt i :=
  Int.toNat_of_nonneg (h.pointer_mem hi).1

/-- The positions of a row of a tiled layout. -/
theorem positions_eq (h : c.Tiled) {i : ℕ} (hi : i < c.height) :
    c.positions i =
      (List.range' (c.startOf i) (c.startOf (i + 1) - c.startOf i)).map Int.ofNat := by
  have hstart := h.startOf_eq (le_of_lt hi)
  have hend := h.startOf_eq (show i + 1 ≤ c.height from hi)
  rw [positions, ← hstart, ← hend, List.range'_eq_map_range, List.map_map, Int.toNat_sub]
  exact List.map_congr_left fun n _ => (Int.natCast_add _ _).symm

/-- The rows of a tiled layout read its stored positions in order, each once. -/
theorem flatMap_positions (h : c.Tiled) :
    (List.range c.height).flatMap c.positions =
      (List.range c.indices.length).map Int.ofNat := by
  have hupTo : ∀ n ≤ c.height, (List.range n).flatMap c.positions =
      (List.range (c.startOf n)).map Int.ofNat := by
    intro n hn
    induction n with
    | zero =>
      have hzero : c.startOf 0 = 0 := by
        have := h.startOf_eq (Nat.zero_le _)
        rw [pointerAt_zero h.starts] at this
        omega
      rw [hzero]
      rfl
    | succ n ih =>
      have hle := h.le_succ hn
      rw [← h.startOf_eq (le_of_lt hn), ← h.startOf_eq hn] at hle
      -- A row goes on where the rows before it have ended.
      rw [List.range_succ, List.flatMap_append, ih (le_of_lt hn), List.flatMap_singleton,
        h.positions_eq hn, ← List.map_append, List.range_eq_range', List.range_eq_range',
        ← Nat.add_sub_of_le (Int.ofNat_le.1 hle), ← List.range'_append_1, Nat.zero_add,
        Nat.add_sub_cancel_left]
  have hlast := h.startOf_eq (le_refl _)
  rw [pointerAt_height h.pointerLength h.ends] at hlast
  rw [hupTo _ (le_refl _), Int.ofNat_inj.1 hlast]

/-- What is stored at a position of a tiled layout. -/
theorem stored?_eq (h : c.Tiled) {k : ℕ} (hk : k < c.indices.length) :
    c.stored? (k : ℤ) = (List.zip (c.indices.map Int.toNat) c.data)[k]? := by
  have hdata : k < c.data.length := h.dataLength ▸ hk
  have hcolumn := h.inRange _ (List.getElem_mem hk)
  simp [stored?, hk, hdata, hcolumn, guard]

/-- A row of a tiled layout is read. -/
theorem row?_eq (h : c.Tiled) (haccepted : c.Accepted) {i : ℕ} (hi : i < c.height) :
    c.row? i = some (((c.toRows haccepted).rows[i]?).getD []) := by
  have hsucc : i + 1 ≤ c.height := hi
  have hend := h.pointer_mem hsucc
  have hle := h.le_succ hi
  rw [← h.startOf_eq (le_of_lt hi), ← h.startOf_eq hsucc] at hle
  rw [← h.startOf_eq hsucc] at hend
  have hlength : (List.zip (c.indices.map Int.toNat) c.data).length = c.indices.length := by
    rw [List.length_zip, List.length_map, h.dataLength, Nat.min_self]
  rw [getElem?_toRows haccepted h.contained hi, Option.getD_some, row?, h.positions_eq hi,
    List.mapM_map]
  refine mapM_range' _ (fun k hk => h.stored?_eq ?_) ?_
  · rwa [hlength] at hk
  · omega

/-- Any rows of a tiled layout are read. -/
theorem mapM_row?_eq (h : c.Tiled) (haccepted : c.Accepted) {is : List ℕ}
    (his : ∀ i ∈ is, i < c.height) :
    is.mapM c.row? = some (((c.toRows haccepted).selectRows is).rows) :=
  Schedule.mapM_eq_some_map fun i hi => h.row?_eq haccepted (his i hi)

/-- All rows of a tiled layout are read. -/
theorem rows?_eq (h : c.Tiled) (haccepted : c.Accepted) :
    c.rows? = some (c.toRows haccepted).rows := by
  have hheight := height_toRows haccepted
  rw [rows?, h.mapM_row?_eq haccepted fun i hi => List.mem_range.1 hi]
  congr 1
  -- Selecting all rows in order changes nothing.
  refine List.ext_getElem ?_ fun i _ hi => ?_
  · rw [RowMatrix.selectRows, List.length_map, List.length_range]
    exact hheight.symm
  · simp [RowMatrix.selectRows, hi]

end Tiled

section Products

variable [Scalar α] {c : Csr α} {A : RowMatrix α}

/-- The product of the rows that are read. -/
theorem product?_eq (hrows : c.rows? = some A.rows) {x : List α} (hx : x.length = A.cols) :
    c.product? x = some (A.mulVec x) := by
  rw [product?, hrows, Option.bind_eq_bind, Option.bind_some, RowMatrix.mulVec]
  refine Schedule.mapM_eq_some_map fun r hr => ?_
  have hterms : (r.mapM fun e => x[e.1]?.map (e.2 * ·)) =
      some (r.map fun e => e.2 * x[e.1]?.getD 0) := by
    refine Schedule.mapM_eq_some_map fun e he => ?_
    have hcolumn : e.1 < x.length := hx ▸ A.inBounds r hr e he
    rw [List.getElem?_eq_getElem hcolumn, Option.map_some, Option.getD_some]
  rw [hterms]
  simp [RowMatrix.rowDot]

/-- What a row, numbered `i`, adds to column `j`. -/
theorem filter_map_row (b : List α) (i j : ℕ) (r : List (ℕ × α)) :
    ((r.map fun e => (e.1, e.2 * b[i]?.getD 0)).filter fun t => t.1 = j).map Prod.snd =
      (r.filterMap fun e => if e.1 = j then some (i, e.2) else none).map
        fun e => e.2 * b[e.1]?.getD 0 := by
  induction r with
  | nil => rfl
  | cons e r ih =>
    by_cases hj : e.1 = j
    · simpa [hj] using ih
    · simpa [hj] using ih

/-- The product with the transpose of the rows that are read. -/
theorem transposeProduct?_eq (hrows : c.rows? = some A.rows) (hcols : A.cols = c.cols) {b : List α}
    (hb : b.length = A.height) : c.transposeProduct? b = some (A.transpose.mulVec b) := by
  have hterms : ((A.rows.zipIdx.flatMap fun r => r.1.map fun e => (r.2, e)).mapM
        fun e => b[e.1]?.map fun a => (e.2.1, e.2.2 * a)) =
      some ((A.rows.zipIdx.flatMap fun r => r.1.map fun e => (r.2, e)).map
        fun e => (e.2.1, e.2.2 * b[e.1]?.getD 0)) := by
    refine Schedule.mapM_eq_some_map fun e he => ?_
    obtain ⟨r, hr, he⟩ := List.mem_flatMap.1 he
    obtain ⟨f, -, rfl⟩ := List.mem_map.1 he
    have hrow : r.2 < b.length := hb ▸ List.snd_lt_of_mem_zipIdx hr
    rw [List.getElem?_eq_getElem hrow, Option.map_some, Option.getD_some]
  rw [transposeProduct?, hrows, Option.bind_eq_bind, Option.bind_some, hterms, Option.bind_eq_bind,
    Option.bind_some, ← hcols]
  refine congrArg some ?_
  rw [RowMatrix.mulVec, RowMatrix.transpose, List.map_map]
  refine List.map_congr_left fun j _ => ?_
  rw [Function.comp_apply, RowMatrix.rowDot, RowMatrix.column]
  simp only [List.map_flatMap, List.filter_flatMap, List.map_map, List.getElem?_toArray]
  refine congrArg List.sum (List.flatMap_congr fun r _ => ?_)
  exact filter_map_row b r.2 j r.1

/-- A tiled layout that is accepted is read, and without a fault. -/
theorem Tiled.readAs (h : c.Tiled) (haccepted : c.Accepted) :
    c.read = .ok (c.toRows haccepted) ∧ c.ReadAs (c.toRows haccepted) := by
  have hheight := height_toRows haccepted
  have hrows := h.rows?_eq haccepted
  refine ⟨?_, hheight, rfl, hrows, h.flatMap_positions, fun x hx => product?_eq hrows hx,
    fun b hb => transposeProduct?_eq hrows rfl (hb.trans hheight.symm),
    fun is his => h.mapM_row?_eq haccepted his⟩
  have hflaw := (flaw?_eq_none_iff c).2 haccepted
  unfold read
  split
  · rename_i flaw hsome
    rw [hflaw] at hsome
    cases hsome
  · rfl

end Products

/-! ### Which layouts are safe -/

/-- Of the layouts that arrays make, whatever words hold the row pointer, those without a flaw are
    tiled whose pointers do not decrease, and a tiled layout has no flaw.  If words have a sign, the
    layouts without a flaw are tiled whose pointers are not negative.  A tiled layout is read
    without a fault, each stored entry once. -/
theorem tiled_iff [Scalar α] {w : Word} {s : Shape} {pointer indices : List ℤ} {data : List α}
    {c : Csr α} (h : ofWords w s pointer indices data = .ok c) :
    (c.Tiled ↔ c.flaw? = none ∧ pointer.IsChain (· ≤ ·)) ∧
      (w.signed → (c.Tiled ↔ c.flaw? = none ∧ ∀ p ∈ pointer, 0 ≤ p)) ∧
      (c.Tiled → ∃ A, c.read = .ok A ∧ c.ReadAs A) := by
  obtain ⟨hheld, rfl⟩ := ofWords_ok h
  rw [flaw?_eq_none_iff]
  refine ⟨⟨fun ht => ⟨ht.accepted hheld, ht.contained.ordered⟩, fun ⟨haccepted, hordered⟩ => ?_⟩,
    fun hsigned => ⟨fun ht => ⟨ht.accepted hheld, fun p hp => ?_⟩, fun ⟨haccepted, hnonneg⟩ => ?_⟩,
    fun ht => ⟨_, ht.readAs (ht.accepted hheld)⟩⟩
  · exact haccepted.tiled hordered
  · exact (ht.contained.within p hp).1
  · exact haccepted.tiled (isChain_of_nonDecreasing hsigned
      (fun p hp => ⟨hnonneg p hp, hheld p hp⟩) haccepted.ordered)

/-- A layout with unsorted and repeated columns and an empty row is tiled. -/
theorem tiled_iff_unsorted :
    ∃ c : Csr Float, ofArrays ⟨4, 3⟩ [0, 2, 2, 4, 5] [2, 0, 1, 1, 0] [1, 2, 3, 4, 5] = .ok c ∧
      c.Tiled ∧ ∃ A, c.read = .ok A ∧ c.ReadAs A := by
  obtain ⟨c, hmade, hflaw⟩ : ∃ c : Csr Float,
      ofArrays ⟨4, 3⟩ [0, 2, 2, 4, 5] [2, 0, 1, 1, 0] [1, 2, 3, 4, 5] = .ok c ∧ c.flaw? = none :=
    ⟨_, rfl, by decide⟩
  obtain ⟨w, hsigned, hwords⟩ := exists_ofWords hmade
  obtain ⟨-, hiff, hread⟩ := tiled_iff hwords
  have htiled := (hiff hsigned).2 ⟨hflaw, by decide⟩
  exact ⟨c, hmade, htiled, hread htiled⟩

/-- A layout whose first row reaches beyond the two stored entries, and which is not refused: the
    pointers go up to the largest word, from there in one step to the smallest, and back up to the
    end. -/
theorem not_forall_tiled :
    ¬ ∀ (s : Shape) (pointer indices : List ℤ) (data : List Float) (c : Csr Float),
      ofArrays s pointer indices data = .ok c → c.flaw? = none → c.Tiled := by
  intro hall
  have htiled := hall ⟨4, 2⟩ [0, 2147483647, -2147483648, -1, 2] [0, 1] [1, 2] _ rfl (by decide)
  have houtside := htiled.within 0 (by decide) 2 ⟨by decide, by decide⟩
  exact absurd houtside.2 (by decide)

end Csr

end RegPath
