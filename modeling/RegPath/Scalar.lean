namespace RegPath

/-!
# Scalars

The numbers that every computation of the library is written over.  One definition of each
algorithm serves two readings: over `Float` it runs, and over a field with exact arithmetic
its laws are stated.

* `Scalar` — arithmetic, order, square root, and the two functions that can fail;
* `Scalar.abs`, `Scalar.sign`, `Scalar.sup` — derived from the order in such a way that a
  value which is not a number stays one;
* `Scalar.IsNumber`, `Scalar.IsFinite` — the two tests for special values, both trivially
  true where there are none;
* `Scalar.HasRoom` — whether an array of values is not too long to be made.
-/

/-- The most entries that an array of words of 64 bits can have: the number of its bytes is a signed
    word itself. -/
def longestArray : Nat := Nat.pow 2 60 - 1

/-- A type of numbers.  The only law is that one is positive: the operations may round, overflow,
    or return a value that compares false with everything. -/
class Scalar (α : Type) extends Zero α, One α, Add α, Sub α, Mul α, Div α, Neg α, NatCast α,
    LE α, LT α where
  /-- The order can be tested. -/
  decLe : DecidableLE α
  /-- The strict order can be tested. -/
  decLt : DecidableLT α
  /-- The square root. -/
  sqrt : α → α
  /-- The exponential; `none` if the argument is finite and the result is too large. -/
  exp? : α → Option α
  /-- The natural logarithm; `none` for an argument that is not positive. -/
  log? : α → Option α
  /-- The largest finite value, which stands for the iterate before the first one. -/
  largest : α
  /-- The most entries that an array of values can have; `none` without a bound. -/
  longest : Option Nat := none
  /-- One is positive. -/
  one_pos : (0 : α) < 1

namespace Scalar

variable {α : Type} [Scalar α]

instance decidableLE : DecidableLE α := Scalar.decLe

instance decidableLT : DecidableLT α := Scalar.decLt

/-- A fraction that is not refused is proper. -/
theorem proper_of_not_not {x : α} (h : ¬ ¬ (0 < x ∧ x < 1)) : 0 < x ∧ x < 1 :=
  Decidable.of_not_not h

/-- One half. -/
def half : α := 1 / (1 + 1)

/-- The quotient of two natural numbers, rounded once. -/
def ratio (p q : Nat) : α := (p : α) / (q : α)

/-- The absolute value; both zeros give the positive one. -/
def abs (x : α) : α := if x ≤ 0 then 0 - x else x

/-- The sign; a zero, and a value that is not a number, are their own signs. -/
def sign (x : α) : α := if x < 0 then -1 else if 0 < x then 1 else x

/-- The larger of two values, or a value that is not a number if either is none. -/
def sup (a b : α) : α := if a ≤ b then b else if b ≤ a then a else a + b

/-- The second value if it is larger, else the first. -/
def laterIfLarger (a b : α) : α := if a < b then b else a

/-- Whether the value is a number at all. -/
def IsNumber (x : α) : Prop := x ≤ x

instance (x : α) : Decidable (IsNumber x) := inferInstanceAs (Decidable (x ≤ x))

/-- Whether the value is a finite number. -/
def IsFinite (x : α) : Prop := IsNumber (x - x)

instance (x : α) : Decidable (IsFinite x) := inferInstanceAs (Decidable (IsNumber (x - x)))

/-- Whether the value is one of the zeros. -/
def IsZero (x : α) : Prop := x ≤ 0 ∧ 0 ≤ x

instance (x : α) : Decidable (IsZero x) := inferInstanceAs (Decidable (x ≤ 0 ∧ 0 ≤ x))

/-- Whether there is room for an array of `n` values. -/
def HasRoom (α : Type) [Scalar α] (n : Nat) : Prop := ∀ bound ∈ longest α, n ≤ bound

instance (n : Nat) : Decidable (HasRoom α n) :=
  inferInstanceAs (Decidable (∀ bound ∈ longest α, n ≤ bound))

/-- The logarithm to base ten of a positive value. -/
def log10 (x : α) : α := (log? x).getD 0 / (log? ((10 : Nat) : α)).getD 0

end Scalar

/-! ### Binary floating point -/

/-- Doubles: the exponential fails where a finite argument would give infinity, and the
    logarithm fails on zeros and negative numbers but not on values that are not numbers. -/
instance : Scalar Float where
  zero := 0.0
  one := 1.0
  natCast := Float.ofNat
  decLe := inferInstance
  decLt := inferInstance
  sqrt := Float.sqrt
  exp? x :=
    let y := Float.exp x
    if y.isInf && x.isFinite then none else some y
  log? x := if x ≤ 0.0 then none else some (Float.log x)
  largest := Float.ofBits 0x7FEFFFFFFFFFFFFF
  longest := some longestArray
  one_pos := by decide

end RegPath
