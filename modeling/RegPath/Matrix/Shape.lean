import RegPath.Fault

namespace RegPath

/-!
# Shapes

The numbers of rows and columns of a matrix, judged before a matrix is made.

* `Shape` — the two numbers;
* `Shape.judge` — none may be negative, and both must fit a signed word of 64 bits.
-/

/-- The size of a matrix. -/
structure Shape where
  /-- Number of rows. -/
  height : Nat
  /-- Number of columns. -/
  cols : Nat
  deriving DecidableEq, Repr

namespace Shape

/-- The largest number of rows or columns. -/
def largest : Nat := Nat.pow 2 63 - 1

/-- Accepts a shape; the signs are judged before the magnitudes. -/
def judge {α : Type} (height cols : Int) : Except (Fault α) Shape :=
  if height < 0 ∨ cols < 0 then .error .malformedArray
  else if (largest : Int) < height ∨ (largest : Int) < cols then .error .overflow
  else .ok ⟨height.toNat, cols.toNat⟩

end Shape

end RegPath
