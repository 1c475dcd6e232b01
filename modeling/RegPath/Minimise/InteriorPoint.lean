import RegPath.Minimise.Saddle
import RegPath.Minimise.Scaling

namespace RegPath.Minimise

/-!
# Interior points

A minimiser of a program by a primal-dual interior point method.  The program is embedded in a
homogeneous one, in which a point carries two further numbers: `tau`, by which it has to be divided,
and `kappa`, which takes its place where the program has no minimiser.  Each step solves the
linearised optimality conditions twice, first to see how far they lead and then with a correction
that keeps away from the boundary.

* `Point`, `Residual`, `Measure` — where the method stands, and how far that is from the goal;
* `Tolerances`, `Measure.verdict?` — when a point is good enough, or shows that there is no
  minimiser;
* `Program.initial?`, `Program.next?` — the first point, and one step;
* `Program.interiorPoint` — the method, with its `Ending`.
-/

variable {α : Type} [Scalar α]

/-- A point of the embedded program, or a direction. -/
structure Point (α : Type) where
  /-- The unknowns. -/
  x : List α
  /-- How far each constraint is from its bound. -/
  slack : List α
  /-- A multiplier for each constraint. -/
  dual : List α
  /-- The number that the others have to be divided by. -/
  tau : α
  /-- The complement of `tau`. -/
  kappa : α

/-! ### Residuals -/

/-- What is missing from the optimality conditions, with the products that it is made of. -/
structure Residual (α : Type) where
  /-- The gradient, for each unknown. -/
  x : List α
  /-- The constraints. -/
  rows : List α
  /-- The gap between the objectives. -/
  tau : α
  /-- The gradient of the constraints alone. -/
  rayX : List α
  /-- The constraints without their bounds. -/
  rayRows : List α
  /-- The curvature times the point. -/
  curved : List α
  /-- The slope times the point. -/
  slope : α
  /-- The bounds times the multipliers. -/
  bound : α

/-- What is missing at a point. -/
def Program.residual (p : Program α) (v : Point α) : Residual α :=
  let rayX := (p.mulColumns v.dual).map (- ·)
  let rayRows := Vec.add v.slack (p.mulRows v.x)
  let curved := p.mulCurvature v.x
  let slope := Vec.dot p.slope v.x
  let bound := Vec.dot p.bounds v.dual
  { x := Vec.sub (Vec.sub rayX (p.slope.map (v.tau * ·))) curved
    rows := Vec.sub rayRows (p.bounds.map (v.tau * ·))
    tau := slope + bound + v.kappa + Vec.dot v.x curved / v.tau
    rayX, rayRows, curved, slope, bound }

/-- How far a point is from the goal, in the units of the program before it was scaled. -/
structure Measure (α : Type) where
  /-- The difference of the objectives. -/
  gap : α
  /-- The same as a fraction of the objectives. -/
  relativeGap : α
  /-- The violation of the constraints. -/
  primal : α
  /-- The size of the gradient. -/
  dual : α
  /-- `kappa` over `tau`. -/
  ratio : α
  /-- The bounds times the multipliers. -/
  bound : α
  /-- The size of the gradient of the constraints alone. -/
  primalRay : α
  /-- The slope times the point. -/
  slope : α
  /-- The size of the curvature and of the constraints without their bounds. -/
  dualRay : α

/-- The largest absolute value of products. -/
def normTimes (x w : List α) : α := Vec.normInf (List.zipWith (· * ·) x w)

/-- The largest absolute value of quotients. -/
def normOver (x w : List α) : α := Vec.normInf (List.zipWith (· / ·) x w)

/-- At least one. -/
def atLeastOne (x : α) : α := Scalar.laterIfLarger 1 x

/-- The measure of a point of a program that has been scaled. -/
def Program.measure (p : Program α) (s : Scaling α) (v : Point α) (r : Residual α) : Measure α :=
  let curved := Vec.dot v.x r.curved / v.tau / v.tau * Scalar.half
  let primalCost := (r.slope / v.tau + curved) / s.cost
  let dualCost := (-r.bound / v.tau - curved) / s.cost
  let gap := Scalar.abs (primalCost - dualCost)
  let least (a b : α) : α := if b < a then b else a
  let x := normTimes v.x s.unknowns
  let z := normTimes v.dual s.rows / s.cost
  let slack := normOver v.slack s.rows
  { gap
    relativeGap := gap / atLeastOne (least (Scalar.abs primalCost) (Scalar.abs dualCost))
    primal := normOver r.rows s.rows / v.tau /
      atLeastOne (normOver p.bounds s.rows + x / v.tau + slack / v.tau)
    dual := normOver r.x s.unknowns / v.tau / s.cost /
      atLeastOne (normOver p.slope s.unknowns / s.cost + x / v.tau + z / v.tau)
    ratio := v.kappa / v.tau
    bound := r.bound
    primalRay := normOver r.rayX s.unknowns / s.cost / atLeastOne z
    slope := r.slope
    dualRay := Scalar.laterIfLarger (normOver r.curved s.unknowns / atLeastOne x)
      (normOver r.rayRows s.rows / atLeastOne (x + slack)) }

/-! ### Verdicts -/

/-- What is small enough. -/
structure Tolerances (α : Type) where
  /-- For the gap. -/
  gap : α
  /-- For the violation of the constraints, and for the gradient. -/
  residual : α
  /-- For a ray to count as different from zero. -/
  rayLength : α
  /-- For the residuals of a ray, as a fraction of its length. -/
  ray : α
  /-- For `tau` over `kappa` where a ray is looked for. -/
  ratio : α

namespace Tolerances

/-- The tolerances of a solution. -/
def full : Tolerances α :=
  let t := Scalar.ratio 1 (Nat.pow 10 8)
  ⟨t, t, t, t, Scalar.ratio 1 (Nat.pow 10 6)⟩

/-- The tolerances of what is kept when the method cannot go on. -/
def reduced : Tolerances α :=
  ⟨Scalar.ratio 5 (Nat.pow 10 5), Scalar.ratio 1 (Nat.pow 10 4), Scalar.ratio 5 (Nat.pow 10 12),
    Scalar.ratio 5 (Nat.pow 10 5), Scalar.ratio 1 (Nat.pow 10 4)⟩

end Tolerances

/-- What a point shows. -/
inductive Verdict where
  /-- It is a minimiser. -/
  | minimiser
  /-- Its multipliers are a ray, so that the constraints contradict each other. -/
  | contradiction
  /-- Its unknowns are a ray along which the objective falls for ever. -/
  | unbounded
  deriving DecidableEq, Repr

namespace Measure

/-- Whether a point is a minimiser. -/
def Solved (m : Measure α) (t : Tolerances α) : Prop :=
  (m.gap < t.gap ∨ m.relativeGap < t.gap) ∧ m.primal < t.residual ∧ m.dual < t.residual

instance (m : Measure α) (t : Tolerances α) : Decidable (m.Solved t) :=
  inferInstanceAs (Decidable (_ ∧ _))

/-- What a point shows, if anything. -/
def verdict? (m : Measure α) (t : Tolerances α) : Option Verdict :=
  if m.ratio < 1 ∧ m.Solved t then some .minimiser
  else if ((1000 : Nat) : α) / t.ratio < m.ratio then
    if m.bound < -t.rayLength ∧ m.primalRay < -(t.ray * m.bound) then some .contradiction
    else if m.slope < -t.rayLength ∧ m.dualRay < -(t.ray * m.slope) then some .unbounded
    else none
  else none

/-- Whether a measure is worse than the one before by so much that the earlier point is kept. -/
def Regressed (m before : Measure α) : Prop :=
  let t : Tolerances α := .full
  (before.dual < m.dual ∨ before.primal < m.primal) ∧
    (m.ratio < Scalar.ratio 1 (Nat.pow 10 14) ∧ (before.gap < t.gap ∨ before.relativeGap < t.gap) ∨
      t.residual < m.dual ∧ before.dual * ((100 : Nat) : α) < m.dual ∨
      t.residual < m.primal ∧ before.primal * ((100 : Nat) : α) < m.primal)

instance (m before : Measure α) : Decidable (m.Regressed before) :=
  inferInstanceAs (Decidable (_ ∧ _))

end Measure

/-! ### Steps -/

namespace Point

/-- The point moved along a direction. -/
def along (v d : Point α) (t : α) : Point α where
  x := List.zipWith (fun a b => a + t * b) v.x d.x
  slack := List.zipWith (fun a b => a + t * b) v.slack d.slack
  dual := List.zipWith (fun a b => a + t * b) v.dual d.dual
  tau := v.tau + t * d.tau
  kappa := v.kappa + t * d.kappa

end Point

/-- The smaller of a bound and the distance at which a positive number becomes zero. -/
def within (bound value change : α) : α :=
  if change < 0 ∧ -value / change < bound then -value / change else bound

/-- How far one can go along a direction until some slack, multiplier or number is zero, at most
    one. -/
def Program.reach (p : Program α) (v d : Point α) : α :=
  let cone (bound : α) (u w : List α) : α :=
    (List.zip (u.drop p.equalities) (w.drop p.equalities)).foldl
      (fun t e => within t e.1 e.2) bound
  cone (cone (within (within 1 v.tau d.tau) v.kappa d.kappa) v.dual d.dual) v.slack d.slack

/-- Zeros for the equalities, then a value for each inequality. -/
def Program.onCone (p : Program α) (f : α → α → α) (u w : List α) : List α :=
  Vec.zeros p.equalities ++ List.zipWith f (u.drop p.equalities) (w.drop p.equalities)

/-- The solver of a step: the weights of the constraints, the saddle point solver, and its answer
    for the slope and the bounds. -/
structure Stepper (α : Type) where
  /-- Slack over multiplier, for each inequality. -/
  weights : List α
  /-- The solver for these weights. -/
  solve : List α → List α → Option (List α × List α)
  /-- The unknowns that balance slope and bounds. -/
  x : List α
  /-- The multipliers that belong to them. -/
  dual : List α

/-- The solver at a point. -/
def Program.stepper? (p : Program α) (v : Point α) : Option (Stepper α) := do
  let weights := p.onCone (· / ·) v.slack v.dual
  let solve ← p.saddleSolver? weights
  let (x, dual) ← solve (p.slope.map (- ·)) p.bounds
  return ⟨weights, solve, x, dual⟩

/-- The direction that takes away given residuals.  `shift` is what the slacks have to lose beyond
    what the multipliers ask for. -/
def Program.direction? (p : Program α) (v : Point α) (S : Stepper α) (x rows : List α)
    (tau kappa : α) (shift : List α) : Option (Point α) := do
  let (x1, z1) ← S.solve x (Vec.sub shift rows)
  let center := v.x.map (· / v.tau)
  let away := Vec.sub center S.x
  let form (a b : List α) : α := Vec.dot a (p.mulCurvature b)
  let numerator := tau - kappa / v.tau + Vec.dot p.slope x1 + Vec.dot p.bounds z1 +
    (1 + 1) * form center x1
  let denominator := v.kappa / v.tau - Vec.dot p.slope S.x - Vec.dot p.bounds S.dual +
    form away away - form S.x S.x
  let t := numerator / denominator
  let dual := List.zipWith (fun a b => a + t * b) z1 S.dual
  return {
    x := List.zipWith (fun a b => a + t * b) x1 S.x
    slack := List.zipWith (fun a b => -(a + b)) (List.zipWith (· * ·) S.weights dual) shift
    dual
    tau := t
    kappa := -(kappa + v.kappa * t) / v.tau }

/-- The mean product of slacks and multipliers. -/
def Program.mean (p : Program α) (v : Point α) : α :=
  (Vec.dot v.slack v.dual + v.tau * v.kappa) / ((p.inequalities + 1 : Nat) : α)

/-- The part of the way to the boundary that a step takes. -/
def boundaryShare : α := Scalar.ratio 99 100

/-- One step: a trial direction straight to the solution, then the step itself, which aims at
    smaller but equal products of slacks and multipliers.  The result comes with the length of the
    step. -/
def Program.next? (p : Program α) (v : Point α) (r : Residual α) (first : Bool) :
    Option (Point α × α) := do
  let S ← p.stepper? v
  let trial ← p.direction? v S r.x r.rows r.tau (v.tau * v.kappa) v.slack
  let length := p.reach v trial
  let centering := (1 - length) * (1 - length) * (1 - length)
  -- The correction counts for less at the first point, which may be badly centred.
  let weight := if first then length else 1
  let aim := centering * p.mean v
  let correction := List.zipWith (· + ·) (p.onCone (· * ·) v.slack v.dual)
    (p.onCone (fun a b => weight * b * a - aim) trial.slack trial.dual)
  let rest := 1 - centering
  let d ← p.direction? v S (r.x.map (rest * ·)) (r.rows.map (rest * ·)) (rest * r.tau)
    (-aim + weight * trial.tau * trial.kappa + v.tau * v.kappa)
    (p.onCone (· / ·) correction v.dual)
  let length := p.reach v d * boundaryShare
  return (v.along d length, length)

/-! ### The first point -/

/-- The values for the inequalities, moved into the interior. -/
def inward (values : List α) : List α :=
  let least := values.tail.foldl (fun a b => if b < a then b else a) (values.headD 0)
  let positive := (values.map fun a => Scalar.laterIfLarger 0 a).sum
  let target := atLeastOne (Scalar.ratio 1 10 * positive / (values.length : α))
  if least ≤ 0 then values.map fun a => a - least + target
  else if least < target then values.map fun a => a + (target - least)
  else values

/-- The first point: a solution without the signs, moved into the interior. -/
def Program.initial? (p : Program α) : Option (Point α) := do
  let solve ← p.saddleSolver? (p.onCone (fun _ _ => 1) p.bounds p.bounds)
  let downhill := p.slope.map (- ·)
  let (x, slack, dual) ←
    if p.curvature.all fun a => decide (Scalar.IsZero a) then do
      let (x, away) ← solve (Vec.zeros p.unknowns) p.bounds
      let (_, dual) ← solve downhill (Vec.zeros p.rows.length)
      pure (x, away.map (- ·), dual)
    else do
      let (x, dual) ← solve downhill p.bounds
      pure (x, dual.map (- ·), dual)
  return {
    x
    slack := Vec.zeros p.equalities ++ inward (slack.drop p.equalities)
    dual := dual.take p.equalities ++ inward (dual.drop p.equalities)
    tau := 1
    kappa := 1 }

/-! ### The method -/

/-- How the method ends. -/
inductive Ending (α : Type) where
  /-- With a minimiser, after a number of steps. -/
  | minimiser (x : List α) (steps : Nat)
  /-- With a minimiser of reduced accuracy. -/
  | roughly (x : List α) (steps : Nat)
  /-- With a point that is none, after too many steps. -/
  | capped (x : List α) (steps : Nat)
  /-- Without a minimiser, because there is none. -/
  | nothing
  /-- Without an answer. -/
  | stuck

/-- The number of steps that are allowed. -/
def mostSteps : Nat := 200

/-- A step that is shorter than this leads nowhere. -/
def shortest : α := Scalar.ratio 1 (Nat.pow 10 4)

namespace Program

/-- The point of the program before it was scaled. -/
def unscaled (s : Scaling α) (v : Point α) : List α :=
  (List.zipWith (· * ·) v.x s.unknowns).map (· / v.tau)

/-- The end where the method cannot go on: what the point shows with reduced tolerances. -/
def settle (s : Scaling α) (v : Point α) (m : Measure α) (steps : Nat) (otherwise : Ending α) :
    Ending α :=
  match m.verdict? .reduced with
  | some .minimiser => .roughly (unscaled s v) steps
  | some _ => .nothing
  | none => otherwise

/-- The method from a point on, given the point before it with its measure. -/
def search (p : Program α) (s : Scaling α) : (left : Nat) → Point α → Option (Point α × Measure α) →
    Ending α
  | left, v, before =>
    let r := p.residual v
    let m := p.measure s v r
    let steps := mostSteps - left
    match m.verdict? .full with
    | some .minimiser => .minimiser (unscaled s v) steps
    | some _ => .nothing
    | none =>
      match before.filter fun b => decide (1 < steps ∧ m.Regressed b.2) with
      | some b => settle s b.1 b.2 steps .stuck
      | none => match left with
        | 0 => settle s v m steps (.capped (unscaled s v) steps)
        | left + 1 => match p.next? v r (steps = 0) with
          | none => settle s v m steps .stuck
          | some (w, length) =>
            if length ≤ shortest then settle s v m steps .stuck
            else p.search s left w (some (v, m))

/-- A minimiser of a program. -/
def interiorPoint (p : Program α) : Ending α :=
  let (p, s) := p.withoutVoid.equilibrate
  match p.initial? with
  | none => .stuck
  | some v => p.search s mostSteps v none

end Program

end RegPath.Minimise
