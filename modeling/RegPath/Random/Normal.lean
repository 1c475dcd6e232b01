import RegPath.Random.Pcg64

namespace RegPath.Random

/-!
# Normal numbers

Standard normal numbers by the ziggurat method: the density is covered by 256 layers of equal
area, and nearly every draw falls into the rectangle inside a layer.

* `Ziggurat` — the tables of the layers;
* `Ziggurat.draw` — one number.
-/

/-- Of each layer: the bound below which a draw is inside its rectangle, the width of a unit, and
    the density at its edge. -/
structure Ziggurat where
  /-- Bounds, in units. -/
  bounds : Array UInt64
  /-- Width of a unit. -/
  widths : Array Float
  /-- Density at the edge. -/
  heights : Array Float

namespace Ziggurat

/-- Number of layers. -/
def layers : Nat := 256

/-- Where the tail begins. -/
def tail : Float := 3.6541528853610088

/-- The area of a layer. -/
def area : Float := 0.004928673233974658

/-- The density, up to a factor. -/
def density (x : Float) : Float := Float.exp (-x * x / 2.0)

/-- Number of units in a width. -/
def units : Float := Float.scaleB 1.0 52

/-- The edge of the layer below the one with edge `x`. -/
def below (x : Float) : Float :=
  Float.sqrt (-2.0 * Float.log (area / x + density x))

/-- The edges of the layers `n`, `n - 1`, …, given the edge of the layer above. -/
def edges (x : Float) : Nat → List Float
  | 0 => []
  | n + 1 => let y := below x; y :: edges y n

/-- The tables. -/
def tables : Ziggurat :=
  let base := area / density tail
  -- edges of the layers 255, 254, …, 1
  let xs := tail :: edges tail (layers - 2)
  let rising := xs.reverse
  { bounds := ((tail / base * units).toUInt64 :: 0 ::
      List.zipWith (fun x y => (x / y * units).toUInt64) rising rising.tail).toArray
    widths := (base / units :: rising.map (· / units)).toArray
    heights := (1.0 :: rising.map density).toArray }

/-- The value `-log (1 - u)` for `u` in `[0, 1)`, accurate also for small `u`. -/
def exponential (u : Float) : Float :=
  let v := 1.0 - u
  if v == 1.0 then u else -(Float.log v * u / (1.0 - v))

/-- A number beyond `tail`, by its excess.  At most `fuel` pairs are rejected. -/
def excess (g : Pcg64) : Nat → Float × Pcg64
  | 0 => (0.0, g)
  | fuel + 1 =>
    let (u, g) := g.nextUnit
    let (v, g) := g.nextUnit
    let x := exponential u / tail
    let y := exponential v
    if y + y > x * x then (x, g) else excess g fuel

/-- One number.  At most `fuel` words are rejected. -/
def draw (z : Ziggurat) (g : Pcg64) : Nat → Float × Pcg64
  | 0 => (0.0, g)
  | fuel + 1 =>
    let (w, g) := g.next64
    -- One word gives the layer, the sign and the place inside the layer.
    let i := (w &&& 0xff).toNat
    let w := w >>> 8
    let negative := w &&& 1 == 1
    let a := (w >>> 1) &&& 0xfffffffffffff
    let size := a.toFloat * z.widths[i]?.getD 0.0
    let x := if negative then -size else size
    if a < z.bounds[i]?.getD 0 then (x, g)
    -- Outside the lowest rectangle there is only the tail.
    else if i = 0 then
      let (e, g) := excess g Pcg64.patience
      let y := tail + e
      (if (a >>> 8) &&& 1 == 1 then -y else y, g)
    else
      -- Between the rectangle and the edge of the layer the density decides.
      let (u, g) := g.nextUnit
      let upper := z.heights[i - 1]?.getD 0.0
      let lower := z.heights[i]?.getD 0.0
      if (upper - lower) * u + lower < density x then (x, g) else draw z g fuel

end Ziggurat

/-- Standard normal numbers, `count` of them. -/
def Pcg64.normals (count : Nat) (g : Pcg64) : List Float × Pcg64 :=
  Pcg64.draws (fun g => Ziggurat.tables.draw g Pcg64.patience) g count

end RegPath.Random
