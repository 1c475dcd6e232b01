import RegPath.Decimal.Binary

namespace RegPath.Decimal

/-!
# Rounded decimal text

The two forms with a given number of digits after the point, both rounded from the exact value
with ties to the even digit.

* `scientific` — one digit, a point, the places, and an exponent of at least two digits;
* `fixed` — the integer part, a point, and the places.
-/

/-- The text of a value that has no digits. -/
def infinityText (negative : Bool) : String := if negative then "-inf" else "inf"

/-- A text with its minus sign where there is one. -/
def signed (negative : Bool) (text : String) : String := if negative then "-" ++ text else text

/-- A decimal exponent with its sign and at least two digits. -/
def exponentText (k : Int) : String :=
  let ds := digits k.natAbs
  (if k < 0 then "-" else "+") ++ String.ofList (List.replicate (2 - ds.length) '0' ++ ds)

/-- Digits with a point after the first `whole` of them; no point if nothing follows. -/
def pointed (ds : List Char) (whole : Nat) : String :=
  match ds.drop whole with
  | [] => String.ofList ds
  | rest => String.ofList (ds.take whole ++ '.' :: rest)

/-- Scientific form of a non-negative value `mantissa · 2 ^ exponent`. -/
def scientificOf (places : Nat) (mantissa : Nat) (exponent : Int) : String :=
  if mantissa = 0 then
    pointed (List.replicate (places + 1) '0') 1 ++ "e" ++ exponentText 0
  else
    let (num, den) := scaled mantissa exponent 0
    let k := exponentOf num den
    let (n, d) := scaled mantissa exponent (places - k)
    let q := roundDiv n d
    -- Rounding up may carry into a new leading digit.
    let (q, k) := if q = Nat.pow 10 (places + 1) then (Nat.pow 10 places, k + 1) else (q, k)
    pointed (digits q) 1 ++ "e" ++ exponentText k

/-- Scientific form with `places` digits after the point. -/
def scientific (places : Nat) (x : Float) : String :=
  match Binary.ofFloat x with
  | .nan => "nan"
  | .infinite negative => infinityText negative
  | .finite negative m e => signed negative (scientificOf places m e)

/-- Fixed form of a non-negative value `mantissa · 2 ^ exponent`. -/
def fixedOf (places : Nat) (mantissa : Nat) (exponent : Int) : String :=
  let (n, d) := scaled mantissa exponent places
  let ds := digits (roundDiv n d)
  let padded := List.replicate (places + 1 - ds.length) '0' ++ ds
  pointed padded (padded.length - places)

/-- Fixed form with `places` digits after the point. -/
def fixed (places : Nat) (x : Float) : String :=
  match Binary.ofFloat x with
  | .nan => "nan"
  | .infinite negative => infinityText negative
  | .finite negative m e => signed negative (fixedOf places m e)

end RegPath.Decimal
