import RegPath.Matrix.Assemble
import RegPath.Path.Walk
import RegPath.Timing

namespace RegPath.Path

/-!
# The path driver

A driver runs paths with one engine, one after the other, and keeps its phase and the result of
its last fit.

* `Driver` — the state of a driver, `Driver.new` a fresh one;
* `Driver.Begun` — a path that has begun, which can be resumed between its steps;
* `Driver.run` — a path on a problem;
* `Driver.fitLasso`, `Driver.fit` — a path on the lasso of a matrix and observations.
-/

variable {α : Type} [Scalar α] {σ : Type}

/-- What a driver keeps between its paths. -/
structure Driver (α : Type) (σ : Type) where
  /-- The state of its engine. -/
  engine : σ
  /-- Where it stands. -/
  phase : Phase
  /-- The result of the last fit that gave one. -/
  result : Option (Result α)

/-- What does not change between the paths of a driver. -/
structure Setup (α : Type) [Scalar α] (σ : Type) where
  /-- The configuration. -/
  config : Config α
  /-- The engine. -/
  engine : Engine α σ
  /-- The time that has passed since the start of a path when a step is done. -/
  elapsed : Nat → α

/-- The end of an operation of a driver. -/
structure Run (α : Type) [Scalar α] (σ : Type) where
  /-- A result, or the fault that stopped the operation. -/
  outcome : Except (Fault α) (Result α)
  /-- The driver afterwards. -/
  driver : Driver α σ
  /-- The events, in order. -/
  events : List (Event α)
  /-- The problem afterwards, if there was one. -/
  problem : Option (Problem α)

namespace Driver

/-- A driver that has not run. -/
def new (engine : σ) : Driver α σ := ⟨engine, .notStarted, none⟩

/-- The answer of a path without a positive penalty: the zero solution. -/
def degenerate (d : Driver α σ) (p : Problem α) (lamMax : α) : Run α σ :=
  let p := p.reset
  { outcome := .ok ⟨[], .degenerate, 0, [], p.x, p.y⟩
    driver := { d with phase := .degenerate }
    events := [.nothingToDo lamMax]
    problem := some p }

/-- The end of a path whose walk has ended. -/
def conclude (d : Driver α σ) (schedule : Schedule α) (opening : List (Event α))
    (w : Walk α σ) : Run α σ :=
  let events := opening ++ w.events
  match w.exit with
  | some (.fault f) =>
    { outcome := .error f
      driver := { d with engine := w.engine, phase := .stepping }
      events
      problem := some w.problem }
  | some (.phase phase) =>
    -- The phase is settled before the result is put together.
    { outcome := schedule.grid.map fun lambdas =>
        ⟨w.points, phase, schedule.top, lambdas, w.problem.x, w.problem.y⟩
      driver := { d with engine := w.engine, phase }
      events := events ++ [.ended phase w.points.length]
      problem := some w.problem }
  | none =>
    { outcome := .error .lengths
      driver := { d with engine := w.engine, phase := .stepping }
      events
      problem := some w.problem }

/-- A path that has a schedule, between two steps. -/
structure Journey (α : Type) [Scalar α] (σ : Type) where
  /-- The driver before the path. -/
  driver : Driver α σ
  /-- What does not change along the walk. -/
  plan : Plan α σ
  /-- The events before the walk. -/
  opening : List (Event α)
  /-- The walk so far. -/
  walk : Walk α σ

/-- A path that has begun: it is over before its first step, or it walks. -/
inductive Begun (α : Type) [Scalar α] (σ : Type) where
  /-- The path is over. -/
  | closed (r : Run α σ)
  /-- The path walks its schedule. -/
  | walking (j : Journey α σ)

namespace Begun

/-- One step of a path, or nothing if it has ended. -/
def advance : Begun α σ → Begun α σ
  | closed r => closed r
  | walking j => walking { j with walk := j.walk.advance j.plan }

/-- Whether the path has ended. -/
def ended : Begun α σ → Bool
  | closed _ => true
  | walking j => j.walk.exit.isSome

/-- The end of a path: all steps that are left, and the result. -/
def finish : Begun α σ → Run α σ
  | closed r => r
  | walking j => j.driver.conclude j.plan.schedule j.opening (j.walk.finish j.plan)

end Begun

/-- Begins a path from the given top of its schedule. -/
def start (s : Setup α σ) (d : Driver α σ) (p : Problem α) (lamMax : α) : Begun α σ :=
  if lamMax ≤ 0 then .closed (d.degenerate p lamMax)
  else match Schedule.make lamMax s.config.count s.config.ratio with
  | .error f => .closed ⟨.error f, d, [], some p⟩
  | .ok schedule =>
    -- The size and the last penalty are reported before the first step, so they have to exist.
    match schedule.ends with
    | .error f => .closed ⟨.error f, d, [], some p⟩
    | .ok (size, last) => .walking {
        driver := d
        plan := ⟨s.config, s.engine, s.elapsed, schedule⟩
        opening := [.scheduled lamMax size last]
        walk := .start d.engine p }

/-- A path on a problem, with a given way to finish what has begun.  The top of the schedule may be
    given; else it is the smallest penalty for which zero solves the lasso on the problem's matrix
    and observations. -/
def runBy (finish : Begun α σ → Run α σ) (s : Setup α σ) (d : Driver α σ) (p : Problem α)
    (lamMax : Option α) : Run α σ :=
  match lamMax with
  | some lamMax => finish (d.start s p lamMax)
  | none =>
    match lambdaMax p.design.matrix p.observations with
    | .error f => ⟨.error f, d, [], some p⟩
    | .ok lamMax => finish (d.start s p lamMax)

/-- A path on a problem. -/
def run (s : Setup α σ) (d : Driver α σ) (p : Problem α) (lamMax : Option α) : Run α σ :=
  runBy Begun.finish s d p lamMax

/-- A path on the lasso of a matrix object and observations.  The driver keeps its result. -/
def fitLassoBy (finish : Begun α σ → Run α σ) (s : Setup α σ) (d : Driver α σ)
    (design : Design α) (b : List α) : Run α σ :=
  match Problem.lasso design b with
  | .error f => ⟨.error f, d, [], none⟩
  | .ok p =>
    let r := d.runBy finish s p none
    { r with driver := { r.driver with result := r.outcome.toOption.or r.driver.result } }

/-- A path on the lasso of a matrix object and observations. -/
def fitLasso (s : Setup α σ) (d : Driver α σ) (design : Design α) (b : List α) : Run α σ :=
  fitLassoBy Begun.finish s d design b

/-- The name of a fit in its events. -/
def fitName : String := "LassoPath.fit"

/-- A path on the lasso of a matrix in any form and observations, as a timed function inside
    `depth` others.  The matrix becomes the object `key`. -/
def fitBy (finish : Begun α σ → Run α σ) (s : Setup α σ) (d : Driver α σ) (depth key : Nat)
    (form : MatrixForm α) (b : List α) : Run α σ :=
  let r : Run α σ := match form.read with
    | .error f => ⟨.error f, d, [], none⟩
    | .ok A => d.fitLassoBy finish s ⟨key, A⟩ b
  { r with events := timed depth fitName r.events }

/-- A path on the lasso of a matrix in any form and observations. -/
def fit (s : Setup α σ) (d : Driver α σ) (depth key : Nat) (form : MatrixForm α) (b : List α) :
    Run α σ :=
  fitBy Begun.finish s d depth key form b

end Driver

end RegPath.Path
