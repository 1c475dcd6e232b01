import RegPath.Vec

namespace RegPath

/-!
# Row matrices

A sparse matrix as the list of its rows, each a list of stored entries `(column, value)`.  The
entries of a row need not be sorted, a column may occur in several of them, and the value may be
zero; the matrix entry is the sum of what is stored for it.

* `RowMatrix` — the rows, with every column in range;
* `RowMatrix.entry` — the matrix entry;
* `RowMatrix.mulVec`, `RowMatrix.transpose`, `RowMatrix.selectRows` — the operations that the
  algorithms need;
* `RowMatrix.normalTriangle` — the upper triangle of `I + Aᵀ A`.
-/

/-- A sparse matrix by rows. -/
structure RowMatrix (α : Type) where
  /-- Number of columns. -/
  cols : Nat
  /-- Stored entries of each row. -/
  rows : List (List (Nat × α))
  /-- Every stored column exists. -/
  inBounds : ∀ r ∈ rows, ∀ e ∈ r, e.1 < cols

namespace RowMatrix

variable {α : Type}

/-- Number of rows. -/
def height (A : RowMatrix α) : Nat := A.rows.length

/-- Number of stored entries. -/
def stored (A : RowMatrix α) : Nat := A.rows.flatten.length

/-- The matrix with `m` rows, `n` columns and no stored entry. -/
def empty (m n : Nat) : RowMatrix α where
  cols := n
  rows := List.replicate m []
  inBounds := by
    intro r hr e he
    rw [List.eq_of_mem_replicate hr] at he
    exact absurd he List.not_mem_nil

/-- The rows at the given positions, in that order.  A position that does not exist gives an
    empty row. -/
def selectRows (A : RowMatrix α) (positions : List Nat) : RowMatrix α where
  cols := A.cols
  rows := positions.map fun i => A.rows[i]?.getD []
  inBounds := by
    intro r hr e he
    obtain ⟨i, -, rfl⟩ := List.mem_map.1 hr
    cases h : A.rows[i]? with
    | none => rw [h] at he; exact absurd he List.not_mem_nil
    | some r => rw [h] at he; exact A.inBounds r (List.mem_of_getElem? h) e he

/-- The entries stored in column `j`, each with its row, in the order of the rows. -/
def column (A : RowMatrix α) (j : Nat) : List (Nat × α) :=
  A.rows.zipIdx.flatMap fun r =>
    r.1.filterMap fun e => if e.1 = j then some (r.2, e.2) else none

/-- Every row of a column exists. -/
theorem lt_height_of_mem_column (A : RowMatrix α) {j : Nat} {e : Nat × α}
    (h : e ∈ A.column j) : e.1 < A.height := by
  obtain ⟨r, hr, he⟩ := List.mem_flatMap.1 h
  obtain ⟨f, -, hf⟩ := List.mem_filterMap.1 he
  split at hf
  · obtain rfl := Option.some.inj hf
    exact List.snd_lt_of_mem_zipIdx hr
  · exact absurd hf (by simp)

/-- The transposed matrix, with the same stored entries. -/
def transpose (A : RowMatrix α) : RowMatrix α where
  cols := A.height
  rows := (List.range A.cols).map A.column
  inBounds := by
    intro r hr e he
    obtain ⟨j, -, rfl⟩ := List.mem_map.1 hr
    exact A.lt_height_of_mem_column he

/-- The empty matrix has the height that was asked for. -/
@[simp] theorem height_empty (m n : Nat) : (empty m n : RowMatrix α).height = m := by
  simp [empty, height]

/-- One row for each selected position. -/
@[simp] theorem height_selectRows (A : RowMatrix α) (positions : List Nat) :
    (A.selectRows positions).height = positions.length := by
  simp [selectRows, height]

/-- The rows of the transpose are the columns. -/
@[simp] theorem height_transpose (A : RowMatrix α) : A.transpose.height = A.cols := by
  simp [transpose, height]

/-- The columns of the transpose are the rows. -/
@[simp] theorem cols_transpose (A : RowMatrix α) : A.transpose.cols = A.height := rfl

/-! ### Arithmetic -/

variable [Scalar α]

/-- The values stored in a row for column `j`. -/
def storedAt (r : List (Nat × α)) (j : Nat) : List α :=
  r.filterMap fun e => if e.1 = j then some e.2 else none

/-- The matrix entry: the sum of what is stored for it. -/
def entry (A : RowMatrix α) (i j : Nat) : α := (storedAt (A.rows[i]?.getD []) j).sum

/-- The identity matrix. -/
def identity (n : Nat) : RowMatrix α where
  cols := n
  rows := (List.range n).map fun i => [(i, 1)]
  inBounds := by
    intro r hr e he
    obtain ⟨i, hi, rfl⟩ := List.mem_map.1 hr
    rw [List.mem_singleton.1 he]
    exact List.mem_range.1 hi

/-- The product of a row with a vector: the sum over the stored entries. -/
def rowDot (r : List (Nat × α)) (x : Array α) : α := (r.map fun e => e.2 * x[e.1]?.getD 0).sum

/-- The product `A x`. -/
def mulVec (A : RowMatrix α) (x : List α) : List α :=
  let x := x.toArray
  A.rows.map fun r => rowDot r x

/-- The product `A x`, for a vector with one entry for each column. -/
def mulVec? (A : RowMatrix α) (x : List α) : Option (List α) :=
  if x.length = A.cols then some (A.mulVec x) else none

/-- The product has one entry for each row. -/
@[simp] theorem length_mulVec (A : RowMatrix α) (x : List α) :
    (A.mulVec x).length = A.height := by
  simp [mulVec, height]

/-- The inner product of two columns, given the stored entries of one of them: the sum of all
    products of stored entries that share a row. -/
def columnDot (A : RowMatrix α) (col : List (Nat × α)) (k : Nat) : α :=
  (col.flatMap fun e => (storedAt (A.rows[e.1]?.getD []) k).map (e.2 * ·)).sum

/-- The upper triangle of `I + Aᵀ A`: for each column the diagonal entry and those to its
    right. -/
def normalTriangle (A : RowMatrix α) : List (α × List α) :=
  (List.range A.cols).map fun j =>
    let col := A.column j
    (1 + A.columnDot col j,
      (List.range (A.cols - (j + 1))).map fun i => A.columnDot col (j + 1 + i))

end RowMatrix

/-- A matrix as an object: two uses of one `key` are uses of one and the same matrix. -/
structure Design (α : Type) where
  /-- What tells the objects apart. -/
  key : Nat
  /-- The matrix. -/
  matrix : RowMatrix α

end RegPath
