import RegPath.Scalar

namespace RegPath

/-!
# Vectors

Vectors are lists.  The operations here are entrywise arithmetic, the sums and norms that the
algorithms test, and the pairing rule for operands whose lengths may differ.

* `Vec.sumSquares`, `Vec.norm1`, `Vec.normInf`, `Vec.dot` — reductions;
* `Vec.add`, `Vec.sub` — entrywise, for operands of one length;
* `Vec.pair?` — entrywise with a one-entry operand stretched to the other's length.
-/

namespace Vec

variable {α : Type} [Scalar α]

/-- The zero vector with `n` entries. -/
def zeros (n : Nat) : List α := List.replicate n 0

/-- Entrywise sum. -/
def add (x y : List α) : List α := List.zipWith (· + ·) x y

/-- Entrywise difference. -/
def sub (x y : List α) : List α := List.zipWith (· - ·) x y

/-- The inner product `Σ xᵢ yᵢ`. -/
def dot (x y : List α) : α := (List.zipWith (· * ·) x y).sum

/-- The sum of squares `Σ xᵢ²`. -/
def sumSquares (x : List α) : α := (x.map fun a => a * a).sum

/-- The absolute sum `Σ |xᵢ|`. -/
def norm1 (x : List α) : α := (x.map Scalar.abs).sum

/-- The largest `|xᵢ|`, zero for the empty vector, and not a number if some entry is none. -/
def normInf (x : List α) : α := (x.map Scalar.abs).foldr Scalar.sup 0

/-- Euclidean length of the pair of two vectors. -/
def pairNorm (x y : List α) : α := Scalar.sqrt (sumSquares x + sumSquares y)

/-- How many entries are not zero; what is not a number counts. -/
def nonzeros (x : List α) : Nat := x.countP fun a => decide ¬ Scalar.IsZero a

/-- The arithmetic mean. -/
def mean (x : List α) : α := x.sum / (x.length : α)

/-- Entrywise operation where an operand with a single entry is stretched to the length of
    the other; `none` if the lengths still differ. -/
def pair? {β γ δ : Type} (op : β → γ → δ) (x : List β) (y : List γ) : Option (List δ) :=
  match x, y with
  | [a], y => some (y.map fun b => op a b)
  | x, [b] => some (x.map fun a => op a b)
  | x, y => if x.length = y.length then some (List.zipWith op x y) else none

/-- The zero vector has the length that was asked for. -/
@[simp] theorem length_zeros (n : Nat) : (zeros n : List α).length = n := by
  simp [zeros]

/-- A sum is as long as the shorter operand. -/
@[simp] theorem length_add (x y : List α) : (add x y).length = min x.length y.length := by
  simp [add]

/-- A difference is as long as the shorter operand. -/
@[simp] theorem length_sub (x y : List α) : (sub x y).length = min x.length y.length := by
  simp [sub]

/-- Operands of one length are paired entry by entry. -/
theorem pair?_of_length_eq {β γ δ : Type} (op : β → γ → δ) {x : List β} {y : List γ}
    (h : x.length = y.length) : pair? op x y = some (List.zipWith op x y) := by
  unfold pair?
  split
  · match y, h with
    | [b], _ => rfl
  · match x, h with
    | [a], _ => rfl
  · simp [h]

end Vec

end RegPath
