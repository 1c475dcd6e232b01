import RegPath.Matrix.Rows
import RegPath.Matrix.Shape

namespace RegPath

/-!
# Compressed row layouts

The arrays of a compressed row layout as they come from outside: any shape, any integers.  They
are read as a matrix if the row pointer runs over the stored entries without a step back and every
column exists.  Steps are measured in the machine words that hold the row pointer, and wrap around
where these are exceeded.

* `Word` — machine words, of any number of bits and with or without a sign; `Word.wrap`;
* `Csr` — shape, words, row pointer, column indices and values; `Csr.ofWords`, `Csr.ofArrays`
  make one;
* `Csr.span` — the distance between two entries of the row pointer, in its words;
* `Csr.Accepted` — the invariants of a layout;
* `Csr.flaw?` — the first invariant that fails, `Csr.flaw?_eq_none_iff`;
* `Csr.toRows` — the matrix of an accepted layout; `RowMatrix.toCsr` — the layout of a matrix.
-/

/-! ### Machine words -/

/-- A kind of machine words for integers. -/
structure Word where
  /-- The number of bits, besides the one for the sign. -/
  bits : Nat
  /-- Whether there is a bit for the sign. -/
  signed : Bool

namespace Word

/-- The first number that is too large for a word. -/
def high (w : Word) : Int := (Nat.pow 2 w.bits : Nat)

/-- The smallest number that is a word. -/
def low (w : Word) : Int := if w.signed then -w.high else 0

/-- Whether a number is a word. -/
def Holds (w : Word) (p : Int) : Prop := w.low ≤ p ∧ p < w.high

instance (w : Word) (p : Int) : Decidable (w.Holds p) := inferInstanceAs (Decidable (_ ∧ _))

/-- What a computation in words makes of a number. -/
def wrap (w : Word) (d : Int) : Int := w.low + (d - w.low) % (w.high - w.low)

/-- Signed words of 32 bits. -/
def narrow : Word := ⟨31, true⟩

/-- Signed words of 64 bits. -/
def wide : Word := ⟨63, true⟩

/-- The words for some numbers: narrow ones if these hold all of them. -/
def choose (numbers : List Int) : Word := if ∀ p ∈ numbers, narrow.Holds p then narrow else wide

end Word

/-! ### Layouts -/

/-- The arrays of a compressed row layout, unchecked. -/
structure Csr (α : Type) where
  /-- Number of rows. -/
  height : Nat
  /-- Number of columns. -/
  cols : Nat
  /-- The words that hold the row pointer. -/
  word : Word
  /-- Where each row starts among the stored entries, and where the last one ends. -/
  pointer : List Int
  /-- The column of each stored entry. -/
  indices : List Int
  /-- The value of each stored entry. -/
  data : List α

namespace Csr

variable {α : Type}

/-- The layout of the given arrays, with a row pointer in the given words.  Words do not hold every
    integer. -/
def ofWords (w : Word) (s : Shape) (pointer indices : List Int) (data : List α) :
    Except (Fault α) (Csr α) :=
  if ∀ p ∈ pointer, w.Holds p then .ok ⟨s.height, s.cols, w, pointer, indices, data⟩
  else .error .overflow

/-- The layout of the given arrays.  The index arrays are of the words that the shape, the number of
    stored entries and what the arrays hold ask for. -/
def ofArrays (s : Shape) (pointer indices : List Int) (data : List α) :
    Except (Fault α) (Csr α) :=
  let w := Word.choose (s.height :: s.cols :: indices.length :: (pointer ++ indices))
  if ∀ j ∈ indices, w.Holds j then ofWords w s pointer indices data else .error .overflow

/-- The distance from one pointer to another, as the words of the row pointer have it. -/
def span (c : Csr α) (p q : Int) : Int := c.word.wrap (q - p)

/-- Whether no distance between neighbours is negative. -/
def NonDecreasing (c : Csr α) : List Int → Prop
  | p :: q :: rest => 0 ≤ c.span p q ∧ NonDecreasing c (q :: rest)
  | _ => True

instance (c : Csr α) : (ps : List Int) → Decidable (c.NonDecreasing ps)
  | [] => isTrue trivial
  | [_] => isTrue trivial
  | p :: q :: rest =>
    have := instDecidableNonDecreasing c (q :: rest)
    inferInstanceAs (Decidable (0 ≤ c.span p q ∧ c.NonDecreasing (q :: rest)))

/-- The invariants of a compressed row layout. -/
structure Accepted (c : Csr α) : Prop where
  /-- There is one pointer for each row and one for the end. -/
  pointerLength : c.pointer.length = c.height + 1
  /-- The first row starts at the first stored entry. -/
  starts : c.pointer.head? = some 0
  /-- The last row ends at the last stored entry. -/
  ends : c.pointer.getLast? = some (c.indices.length : Int)
  /-- Each column index has a value. -/
  dataLength : c.indices.length = c.data.length
  /-- No row ends before it starts, as far as words tell. -/
  ordered : c.NonDecreasing c.pointer
  /-- Every column exists. -/
  inRange : ∀ j ∈ c.indices, 0 ≤ j ∧ j < c.cols

/-- The first flaw of the arrays, in the order in which they are examined. -/
def flaw? (c : Csr α) : Option LayoutFlaw :=
  if c.pointer.length ≠ c.height + 1 then
    some (.pointerLength (c.height + 1) c.pointer.length)
  else if c.pointer.head? ≠ some 0 ∨ c.pointer.getLast? ≠ some (c.indices.length : Int)
      ∨ c.indices.length ≠ c.data.length then
    some .pointerEnds
  else if ¬ c.NonDecreasing c.pointer then
    some .pointerOrder
  else if ¬ ∀ j ∈ c.indices, 0 ≤ j ∧ j < c.cols then
    some (.columnRange c.cols)
  else
    none

/-- Arrays without a flaw satisfy the invariants, and conversely. -/
theorem flaw?_eq_none_iff (c : Csr α) : c.flaw? = none ↔ c.Accepted := by
  unfold flaw?
  constructor
  · intro h
    split at h
    · exact absurd h (by simp)
    · rename_i h1
      split at h
      · exact absurd h (by simp)
      · rename_i h2
        split at h
        · exact absurd h (by simp)
        · rename_i h3
          split at h
          · exact absurd h (by simp)
          · rename_i h4
            simp only [ne_eq, not_or, Decidable.not_not] at h1 h2 h3 h4
            exact ⟨h1, h2.1, h2.2.1, h2.2.2, h3, h4⟩
  · intro h
    rw [if_neg (by simp [h.pointerLength]), if_neg, if_neg (by simp [h.ordered]),
      if_neg (by simpa using h.inRange)]
    simp only [not_or, ne_eq, Decidable.not_not]
    exact ⟨h.starts, h.ends, h.dataLength⟩

/-- Cuts a list into consecutive pieces, of the lengths between consecutive pointers. -/
def slices {β : Type} : List Int → List β → List (List β)
  | p :: q :: rest, es => es.take (q - p).toNat :: slices (q :: rest) (es.drop (q - p).toNat)
  | _, _ => []

/-- The pieces hold nothing but entries of the list. -/
theorem mem_of_mem_slices {β : Type} {e : β} {r : List β} :
    ∀ {ps : List Int} {es : List β}, r ∈ slices ps es → e ∈ r → e ∈ es
  | [], _, hr, _ => absurd hr (by simp [slices])
  | [_], _, hr, _ => absurd hr (by simp [slices])
  | p :: q :: rest, es, hr, he => by
    rw [slices, List.mem_cons] at hr
    rcases hr with rfl | hr
    · exact List.mem_of_mem_take he
    · exact List.mem_of_mem_drop (mem_of_mem_slices hr he)

/-- The matrix that an accepted layout denotes. -/
def toRows (c : Csr α) (h : c.Accepted) : RowMatrix α where
  cols := c.cols
  rows := slices c.pointer (List.zip (c.indices.map Int.toNat) c.data)
  inBounds := by
    intro r hr e he
    have hz := (List.of_mem_zip (mem_of_mem_slices hr he)).1
    obtain ⟨j, hj, hje⟩ := List.mem_map.1 hz
    have := h.inRange j hj
    omega

/-- The matrix that the arrays denote, or their first flaw. -/
def read (c : Csr α) : Except LayoutFlaw (RowMatrix α) :=
  match h : c.flaw? with
  | some flaw => .error flaw
  | none => .ok (c.toRows (c.flaw?_eq_none_iff.1 h))

/-- The number of entries before the end of the last row. -/
def storedCount (c : Csr α) : Int := (c.pointer[c.height]?).getD 0

end Csr

/-- The row pointer of rows of the given lengths, the first of which starts at `start`. -/
def RowMatrix.pointers (start : Int) : List Nat → List Int
  | [] => [start]
  | n :: rest => start :: pointers (start + n) rest

/-- The compressed row layout of a matrix. -/
def RowMatrix.toCsr {α : Type} (A : RowMatrix α) : Csr α where
  height := A.height
  cols := A.cols
  word := .choose [(A.height : Int), A.cols, A.stored]
  pointer := pointers 0 (A.rows.map List.length)
  indices := A.rows.flatten.map fun e => (e.1 : Int)
  data := A.rows.flatten.map Prod.snd

end RegPath
