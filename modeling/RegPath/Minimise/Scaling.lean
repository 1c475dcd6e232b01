import RegPath.Minimise.Program

namespace RegPath.Minimise

/-!
# Scaling of programs

Unknowns, constraints and the objective are multiplied by positive factors until the coefficients of
every unknown and of every constraint have a size near one.  The point of the scaled program times
the factors of the unknowns is the point of the program itself.

* `Scaling` — the factors;
* `Program.scale` — a program with factors applied;
* `Program.equilibrate` — the scaled program with its factors.
-/

/-- The factors that have been applied to a program. -/
structure Scaling (α : Type) where
  /-- A factor for each unknown. -/
  unknowns : List α
  /-- A factor for each constraint. -/
  rows : List α
  /-- The factor of the objective. -/
  cost : α

variable {α : Type} [Scalar α]

/-- The value itself, or the bound that it violates. -/
def clamp (low high x : α) : α := if x < low then low else if high < x then high else x

namespace Scaling

/-- Rounds of scaling. -/
def rounds : Nat := 10

/-- The smallest factor of an unknown or a constraint. -/
def smallest : α := Scalar.ratio 1 (Nat.pow 10 4)

/-- The largest factor of an unknown or a constraint. -/
def largest : α := (Nat.pow 10 4 : α)

/-- No scaling yet. -/
def unit (p : Program α) : Scaling α :=
  ⟨p.slope.map fun _ => 1, p.rows.map fun _ => 1, 1⟩

/-- A further factor for coefficients of this size, as far as the factors so far allow.  What is
    zero everywhere is not scaled. -/
def further (size sofar : α) : α :=
  let size := if Scalar.IsZero size then 1 else size
  clamp (smallest / sofar) (largest / sofar) (1 / Scalar.sqrt size)

end Scaling

namespace Program

/-- The size of the coefficients of each unknown, its curvature among them. -/
def columnSizes (p : Program α) : List α :=
  p.rows.foldl (fun acc r => List.zipWith (fun a b => Scalar.laterIfLarger a (Scalar.abs b)) acc r)
    (p.curvature.map Scalar.abs)

/-- The program with a factor for each unknown and for each constraint. -/
def scale (p : Program α) (d e : List α) : Program α where
  curvature := List.zipWith (fun a f => a * (f * f)) p.curvature d
  slope := List.zipWith (· * ·) p.slope d
  rows := List.zipWith (fun r g => List.zipWith (fun a f => a * (g * f)) r d) p.rows e
  bounds := List.zipWith (· * ·) p.bounds e
  equalities := p.equalities

/-- The factor that gives the objective a size near one; one if a part of it is missing. -/
def costFactor (p : Program α) : α :=
  let mean := Vec.mean (p.curvature.map Scalar.abs)
  let top := Vec.normInf p.slope
  if Scalar.IsZero mean ∨ Scalar.IsZero top then 1
  else 1 / clamp Scaling.smallest Scaling.largest (Scalar.laterIfLarger mean top)

/-- One round of scaling. -/
def equilibrateOnce (p : Program α) (s : Scaling α) : Program α × Scaling α :=
  let d := List.zipWith Scaling.further p.columnSizes s.unknowns
  let e := List.zipWith Scaling.further (p.rows.map Vec.normInf) s.rows
  let p := p.scale d e
  let c := p.costFactor
  ({ p with curvature := p.curvature.map (· * c), slope := p.slope.map (· * c) },
    ⟨List.zipWith (· * ·) s.unknowns d, List.zipWith (· * ·) s.rows e, s.cost * c⟩)

/-- The scaled program with its factors. -/
def equilibrate (p : Program α) : Program α × Scaling α :=
  (List.range Scaling.rounds).foldl (fun q _ => q.1.equilibrateOnce q.2) (p, .unit p)

end Program

end RegPath.Minimise
