namespace RegPath.Decimal

/-!
# The exact value of a double

A double is read as an integer times a power of two, so that decimal text can be made in exact
arithmetic.

* `Binary` — what the 64 bits denote;
* `Binary.ofFloat` — the decoding;
* `Binary.scale` — the value times a power of ten, as a fraction of two natural numbers.
-/

/-- The datum that a double denotes. -/
inductive Binary where
  /-- Not a number. -/
  | nan
  /-- One of the infinities. -/
  | infinite (negative : Bool)
  /-- The number `± mantissa · 2 ^ exponent`. -/
  | finite (negative : Bool) (mantissa : Nat) (exponent : Int)
  deriving DecidableEq, Repr

namespace Binary

/-- Number of bits of the fraction field. -/
def fractionBits : Nat := 52

/-- The exponent of the smallest positive double, and of the unit of all subnormal ones. -/
def leastExponent : Int := -1074

/-- Reads sign, exponent field and fraction field. -/
def ofBits (bits : Nat) : Binary :=
  let negative : Bool := bits / Nat.pow 2 63 % 2 = 1
  let field : Nat := bits / Nat.pow 2 fractionBits % Nat.pow 2 11
  let fraction : Nat := bits % Nat.pow 2 fractionBits
  if field = Nat.pow 2 11 - 1 then
    if fraction = 0 then .infinite negative else .nan
  else if field = 0 then
    .finite negative fraction leastExponent
  else
    .finite negative (Nat.pow 2 fractionBits + fraction) (leastExponent + (field : Int) - 1)

/-- The datum that a double denotes. -/
def ofFloat (x : Float) : Binary := ofBits x.toBits.toNat

end Binary

/-- Numerator and denominator of `mantissa · 2 ^ twos · 10 ^ tens`. -/
def scaled (mantissa : Nat) (twos tens : Int) : Nat × Nat :=
  (mantissa * Nat.pow 2 twos.toNat * Nat.pow 10 tens.toNat,
    Nat.pow 2 (-twos).toNat * Nat.pow 10 (-tens).toNat)

/-- The quotient rounded to the nearest integer, a tie to the even one. -/
def roundDiv (num den : Nat) : Nat :=
  let q := num / den
  let r := num % den
  if 2 * r < den then q else if den < 2 * r then q + 1 else q + q % 2

/-- A rounded quotient is within half a unit of the exact one. -/
theorem roundDiv_near (num den : Nat) (h : 0 < den) :
    2 * (roundDiv num den * den) ≤ 2 * num + den ∧
      2 * num ≤ 2 * (roundDiv num den * den) + den := by
  have hq : den * (num / den) + num % den = num := Nat.div_add_mod num den
  have hr : num % den < den := Nat.mod_lt _ h
  have hp : num / den % 2 = 0 ∨ num / den % 2 = 1 := by omega
  unfold roundDiv
  simp only
  generalize num / den = q at *
  generalize num % den = r at *
  have hm : q * den = den * q := Nat.mul_comm _ _
  split
  · constructor <;> omega
  · split
    · have : (q + 1) * den = den * q + den := by rw [Nat.add_mul, hm]; omega
      constructor <;> omega
    · rcases hp with hp | hp <;> rw [hp]
      · constructor <;> simp only [Nat.add_zero] <;> omega
      · have : (q + 1) * den = den * q + den := by rw [Nat.add_mul, hm]; omega
        constructor <;> omega

/-- The decimal digits of a natural number, most significant first. -/
def digits (n : Nat) : List Char := Nat.toDigits 10 n

/-- The decimal exponent of a positive fraction: the largest `k` with `10 ^ k ≤ num / den`. -/
def exponentOf (num den : Nat) : Int :=
  let k : Int := (digits num).length - (digits den).length
  if den * Nat.pow 10 k.toNat ≤ num * Nat.pow 10 (-k).toNat then k else k - 1

end RegPath.Decimal
