import RegPath.Vec

namespace RegPath.Minimise

/-!
# Programs

Convex quadratic programs in which every unknown has a curvature of its own:

    minimise  Σ (pⱼ xⱼ² / 2 + qⱼ xⱼ)   subject to  aᵢ · x = bᵢ  or  aᵢ · x ≤ bᵢ.

* `Program` — the numbers of a program;
* `Program.mulRows`, `Program.mulColumns` — the products with the coefficients;
* `Program.withoutVoid` — the same program without inequalities that exclude nothing.
-/

/-- A quadratic program. -/
structure Program (α : Type) where
  /-- The curvature of each unknown. -/
  curvature : List α
  /-- The slope of each unknown. -/
  slope : List α
  /-- The coefficients of each constraint; the equalities come first. -/
  rows : List (List α)
  /-- The bound of each constraint. -/
  bounds : List α
  /-- Number of equalities. -/
  equalities : Nat

namespace Program

variable {α : Type} [Scalar α]

/-- Number of unknowns. -/
def unknowns (p : Program α) : Nat := p.slope.length

/-- Number of inequalities. -/
def inequalities (p : Program α) : Nat := p.rows.length - p.equalities

/-- The left-hand sides of the constraints at a point. -/
def mulRows (p : Program α) (x : List α) : List α := p.rows.map fun r => Vec.dot r x

/-- The sum of the constraints' coefficients, each with its multiplier. -/
def mulColumns (p : Program α) (z : List α) : List α :=
  (List.zip p.rows z).foldl (fun acc e => Vec.add acc (e.1.map fun a => e.2 * a))
    (Vec.zeros p.unknowns)

/-- The curvature times a point. -/
def mulCurvature (p : Program α) (x : List α) : List α := List.zipWith (· * ·) p.curvature x

/-- The largest bound, from which on an inequality excludes nothing. -/
def vast : α := (Nat.pow 10 20 : α)

/-- The program without the inequalities that exclude nothing, and with equalities to nothing larger
    than the largest bound. -/
def withoutVoid (p : Program α) : Program α :=
  let binding := (List.zip p.rows p.bounds).zipIdx.filter fun e =>
    decide (e.2 < p.equalities ∨ ¬ vast ≤ e.1.2)
  { p with
    rows := binding.map fun e => e.1.1
    bounds := binding.map fun e => if vast < e.1.2 then vast else e.1.2 }

end Program

end RegPath.Minimise
