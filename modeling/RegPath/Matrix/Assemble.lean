import RegPath.Matrix.Csr
import RegPath.Matrix.Shape

namespace RegPath

/-!
# Other forms of a matrix

Dense tables and coordinate triplets, and how they become rows.  A dense table stores what is
not zero.  Triplets are sorted by column within each row, and those of one position are summed;
a zero that was given stays stored.

* `Triplets`, `Triplets.toRows` — coordinates;
* `Grid`, `Grid.toRows` — dense tables;
* `MatrixForm` — a matrix in any form, with `MatrixForm.read` and `MatrixForm.checked`.
-/

variable {α : Type}

/-! ### Coordinates -/

/-- A value with its row and column. -/
structure Triplet (α : Type) where
  /-- Row. -/
  row : Nat
  /-- Column. -/
  col : Nat
  /-- Value. -/
  value : α

/-- Adds a value to a row that is sorted by column. -/
def mergeEntry [Scalar α] (j : Nat) (v : α) : List (Nat × α) → List (Nat × α)
  | [] => [(j, v)]
  | e :: rest =>
    if j < e.1 then (j, v) :: e :: rest
    else if j = e.1 then (j, e.2 + v) :: rest
    else e :: mergeEntry j v rest

/-- Merging introduces no column but its own. -/
theorem fst_of_mem_mergeEntry [Scalar α] {j : Nat} {v : α} {e : Nat × α} :
    ∀ {r : List (Nat × α)}, e ∈ mergeEntry j v r → e.1 = j ∨ ∃ f ∈ r, f.1 = e.1
  | [], h => .inl (by rw [mergeEntry, List.mem_singleton] at h; rw [h])
  | f :: rest, h => by
    unfold mergeEntry at h
    split at h
    · rcases List.mem_cons.1 h with rfl | h
      · exact .inl rfl
      · exact .inr ⟨e, h, rfl⟩
    · split at h
      · rcases List.mem_cons.1 h with rfl | h
        · exact .inl rfl
        · exact .inr ⟨e, List.mem_cons_of_mem _ h, rfl⟩
      · rcases List.mem_cons.1 h with rfl | h
        · exact .inr ⟨e, List.mem_cons_self, rfl⟩
        · rcases fst_of_mem_mergeEntry h with h | ⟨g, hg, h⟩
          · exact .inl h
          · exact .inr ⟨g, List.mem_cons_of_mem _ hg, h⟩

/-- The entries of row `i`, sorted by column, those of one column summed. -/
def rowOfTriplets [Scalar α] (ts : List (Triplet α)) (i : Nat) : List (Nat × α) :=
  (ts.filter fun t => t.row = i).foldl (fun r t => mergeEntry t.col t.value r) []

/-- Every column of an assembled row is the column of a triplet. -/
theorem exists_of_mem_foldl_mergeEntry [Scalar α] {e : Nat × α} :
    ∀ {ts : List (Triplet α)} {r : List (Nat × α)},
      e ∈ ts.foldl (fun r t => mergeEntry t.col t.value r) r →
        (∃ f ∈ r, f.1 = e.1) ∨ ∃ t ∈ ts, t.col = e.1
  | [], r, h => .inl ⟨e, h, rfl⟩
  | t :: ts, r, h => by
    have ih := exists_of_mem_foldl_mergeEntry (r := mergeEntry t.col t.value r) h
    rcases ih with ⟨f, hf, hfe⟩ | ⟨u, hu, hue⟩
    · rcases fst_of_mem_mergeEntry hf with h' | ⟨g, hg, h'⟩
      · exact .inr ⟨t, List.mem_cons_self, by rw [← h', hfe]⟩
      · exact .inl ⟨g, hg, by rw [h', hfe]⟩
    · exact .inr ⟨u, List.mem_cons_of_mem _ hu, hue⟩

/-- Values with positions inside a shape, in any order; a position may occur several times. -/
structure Triplets (α : Type) where
  /-- Number of rows. -/
  height : Nat
  /-- Number of columns. -/
  cols : Nat
  /-- The values with their positions. -/
  entries : List (Triplet α)
  /-- Every position exists. -/
  inBounds : ∀ t ∈ entries, t.row < height ∧ t.col < cols

namespace Triplets

/-- Triplets whose positions all exist. -/
def ofList? (height cols : Nat) (entries : List (Triplet α)) : Option (Triplets α) :=
  if h : ∀ t ∈ entries, t.row < height ∧ t.col < cols then some ⟨height, cols, entries, h⟩
  else none

/-- The triplets of coordinate arrays; `none` if the arrays differ in length or a position does
    not exist. -/
def ofArrays? (height cols : Nat) (rowIndices colIndices : List Int) (data : List α) :
    Option (Triplets α) :=
  if rowIndices.length = data.length ∧ colIndices.length = data.length ∧
      rowIndices.all (fun i => decide (0 ≤ i)) ∧ colIndices.all (fun j => decide (0 ≤ j)) then
    ofList? height cols (List.zipWith (fun i p => ⟨i, p.1, p.2⟩)
      (rowIndices.map Int.toNat) (List.zip (colIndices.map Int.toNat) data))
  else none

/-- The matrix, with sorted columns and one stored entry for each position. -/
def toRows [Scalar α] (c : Triplets α) : RowMatrix α where
  cols := c.cols
  rows := (List.range c.height).map (rowOfTriplets c.entries)
  inBounds := by
    intro r hr e he
    obtain ⟨i, -, rfl⟩ := List.mem_map.1 hr
    rcases exists_of_mem_foldl_mergeEntry he with ⟨f, hf, -⟩ | ⟨t, ht, hte⟩
    · exact absurd hf List.not_mem_nil
    · rw [← hte]
      exact (c.inBounds t (List.mem_filter.1 ht).1).2

end Triplets

/-! ### Dense tables -/

/-- A dense table. -/
structure Grid (α : Type) where
  /-- Number of columns. -/
  cols : Nat
  /-- The rows. -/
  rows : List (List α)
  /-- All rows have one length. -/
  rectangular : ∀ r ∈ rows, r.length = cols

namespace Grid

/-- A table of a single row. -/
def ofRow (values : List α) : Grid α where
  cols := values.length
  rows := [values]
  rectangular := by simp

/-- A table of rows, `none` if they differ in length. -/
def ofRows? (rows : List (List α)) : Option (Grid α) :=
  let n := (rows.head?.map List.length).getD 0
  if h : ∀ r ∈ rows, r.length = n then some ⟨n, rows, h⟩ else none

/-- The entries of a dense row that are not zero, with their columns. -/
def entries [Scalar α] (values : List α) : List (Nat × α) :=
  (values.zipIdx.filter fun e => decide ¬ Scalar.IsZero e.1).map fun e => (e.2, e.1)

/-- Every column of a dense row exists. -/
theorem lt_length_of_mem_entries [Scalar α] {values : List α} {e : Nat × α}
    (h : e ∈ entries values) : e.1 < values.length := by
  obtain ⟨f, hf, rfl⟩ := List.mem_map.1 h
  exact List.snd_lt_of_mem_zipIdx (List.mem_filter.1 hf).1

/-- The matrix, which stores what is not zero. -/
def toRows [Scalar α] (g : Grid α) : RowMatrix α where
  cols := g.cols
  rows := g.rows.map entries
  inBounds := by
    intro r hr e he
    obtain ⟨values, hv, rfl⟩ := List.mem_map.1 hr
    rw [← g.rectangular values hv]
    exact lt_length_of_mem_entries he

end Grid

/-! ### Any form -/

/-- A matrix in one of the forms in which callers hold it. -/
inductive MatrixForm (α : Type) where
  /-- Compressed rows, unchecked. -/
  | compressed (c : Csr α)
  /-- A dense table. -/
  | dense (g : Grid α)
  /-- A dense array with more than two axes, which is no matrix. -/
  | deep
  /-- Triplets in the order in which they were given. -/
  | coordinates (c : Triplets α)
  /-- Triplets, kept by columns. -/
  | byColumns (c : Triplets α)

namespace MatrixForm

/-- The matrix itself: compressed rows are judged and taken as they are, all else is converted. -/
def read [Scalar α] : MatrixForm α → Except (Fault α) (RowMatrix α)
  | compressed c => c.read.mapError .layout
  | dense g => .ok g.toRows
  | deep => .error .malformedArray
  | coordinates c => .ok c.toRows
  | byColumns c => .ok c.toRows

/-- Compressed rows without a flaw; any other form is refused by its name. -/
def checked : MatrixForm α → Except LayoutFlaw (Csr α)
  | compressed c => match c.flaw? with
    | some flaw => .error flaw
    | none => .ok c
  | dense _ | deep => .error (.otherForm "ndarray")
  | coordinates _ => .error (.otherForm "coo_matrix")
  | byColumns _ => .error (.otherForm "csc_matrix")

end MatrixForm

end RegPath
