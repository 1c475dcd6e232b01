import RegPath.Decimal.Rounded

namespace RegPath.Decimal

/-!
# Shortest decimal text

The fewest digits that read back as the same double, and of those the nearest to its value.

* `Interval` — the numbers that round to a double, and the test of a decimal against it;
* `shortest` — the digits and the decimal exponent;
* `text` — the layout: positional for exponents from `-4` up to `15`, scientific beyond.
-/

/-- The numbers that round to one double, in units of `2 ^ unit`: those between `low` and
    `high`, the ends included if `closed`. -/
structure Interval where
  /-- Lower end. -/
  low : Nat
  /-- The value itself. -/
  mid : Nat
  /-- Upper end. -/
  high : Nat
  /-- Exponent of the unit. -/
  unit : Int
  /-- Whether the ends round to the double too. -/
  closed : Bool

/-- The gap below a power of two is half of the gap above it, except at the smallest exponent;
    a tie rounds to the even mantissa. -/
def Interval.ofFinite (mantissa : Nat) (exponent : Int) : Interval where
  low := if mantissa = Nat.pow 2 Binary.fractionBits ∧ Binary.leastExponent < exponent
    then 4 * mantissa - 1 else 4 * mantissa - 2
  mid := 4 * mantissa
  high := 4 * mantissa + 2
  unit := exponent - 2
  closed := mantissa % 2 = 0

/-- Whether `c · 10 ^ tens` lies in the interval. -/
def Interval.covers (i : Interval) (c : Nat) (tens : Int) : Bool :=
  let (n, d) := scaled 1 i.unit (-tens)
  if i.closed then i.low * n ≤ c * d ∧ c * d ≤ i.high * n
  else i.low * n < c * d ∧ c * d < i.high * n

/-- Of the two neighbours of the value on the grid of the multiples of `10 ^ tens`, the nearer
    one that lies in the interval; the even one on a tie. -/
def Interval.onGrid? (i : Interval) (tens : Int) : Option Nat :=
  let (n, d) := scaled i.mid i.unit (-tens)
  let below := n / d
  let nearest := roundDiv n d
  -- The interval holds a point of the grid only if it holds one of these two.
  let other := if nearest = below then below + 1 else below
  if i.covers nearest tens then some nearest
  else if i.covers other tens then some other
  else none

/-- The first grid with a hit, from coarse to fine; `count` more grids may be tried. -/
def Interval.search (i : Interval) (tens : Int) : Nat → Option (Nat × Int)
  | 0 => none
  | count + 1 =>
    match i.onGrid? tens with
    | some c => some (c, tens)
    | none => i.search (tens - 1) count

/-- The shortest decimal `digits · 10 ^ tens` that reads back as the positive double
    `mantissa · 2 ^ exponent`.  Seventeen digits always suffice. -/
def shortest (mantissa : Nat) (exponent : Int) : Nat × Int :=
  let (n, d) := scaled mantissa exponent 0
  let k := exponentOf n d
  ((Interval.ofFinite mantissa exponent).search k 18).getD (0, 0)

/-- Digits `ds`, of which the first stands for `10 ^ k`. -/
def layout (ds : List Char) (k : Int) : String :=
  if k < -4 ∨ 16 ≤ k then
    pointed ds 1 ++ "e" ++ exponentText k
  else if k < 0 then
    "0." ++ String.ofList (List.replicate (-k - 1).toNat '0' ++ ds)
  else
    let whole := k.toNat + 1
    let padded := ds ++ List.replicate (whole + 1 - ds.length) '0'
    pointed padded whole

/-- The text of a positive double `mantissa · 2 ^ exponent`. -/
def textOf (mantissa : Nat) (exponent : Int) : String :=
  if mantissa = 0 then "0.0"
  else
    let (c, tens) := shortest mantissa exponent
    let ds := digits c
    let kept := (ds.reverse.dropWhile (· == '0')).reverse
    layout kept (tens + ds.length - 1)

/-- The shortest text that reads back as the double; the negative zero keeps its sign. -/
def text (x : Float) : String :=
  match Binary.ofFloat x with
  | .nan => "nan"
  | .infinite negative => infinityText negative
  | .finite negative m e => signed negative (textOf m e)

end RegPath.Decimal
