import RegPath.Convergence
import RegPath.Path.Config
import RegPath.Path.Result
import RegPath.Problem
import RegPath.Schedule

namespace RegPath.Path

/-!
# Walking a schedule

A path is walked step by step: install the next penalty, call the engine, keep its answer, and
test whether to go on.  The walk between two steps is a value, so that walks can be resumed and
interleaved at the calls of their engines.

* `Plan` — what does not change along a walk;
* `Walk` — what a walk holds between two steps, and `Walk.start`;
* `Walk.advance` — one step, with at most one call of the engine;
* `Walk.finish` — steps until the walk has ended.
-/

variable {α : Type} [Scalar α] {σ : Type}

/-- What does not change along a walk. -/
structure Plan (α : Type) [Scalar α] (σ : Type) where
  /-- The configuration. -/
  config : Config α
  /-- The engine. -/
  engine : Engine α σ
  /-- The time that has passed since the start when a step is done. -/
  elapsed : Nat → α
  /-- The penalties. -/
  schedule : Schedule α

/-- How a walk ended. -/
inductive Exit (α : Type) where
  /-- In order, in this phase. -/
  | phase (p : Phase)
  /-- By a fault. -/
  | fault (f : Fault α)

/-- What a walk holds between two steps. -/
structure Walk (α : Type) [Scalar α] (σ : Type) where
  /-- The state of the engine. -/
  engine : σ
  /-- The problem with its present vectors and scales. -/
  problem : Problem α
  /-- The iterate that the next one is compared with. -/
  previous : List α
  /-- The steps that are done. -/
  points : List (Point α)
  /-- The events so far. -/
  events : List (Event α)
  /-- How the walk ended, once it has. -/
  exit : Option (Exit α)

namespace Walk

/-- Before the first step the iterate to compare with is so large that nothing agrees with it. -/
def start (engine : σ) (problem : Problem α) : Walk α σ where
  engine := engine
  problem := problem
  previous := List.replicate problem.width Scalar.largest
  points := []
  events := []
  exit := none

/-- Ends the walk. -/
def halt (w : Walk α σ) (e : Exit α) : Walk α σ := { w with exit := some e }

/-- Whether a solution agrees with the one before it.  An all-zero solution never does: a plateau
    right below the top of the schedule is not a converged path. -/
def agrees? (config : Config α) (x previous : List α) : Option Bool :=
  if config.earlyStop = true ∧ 0 < Vec.norm1 x then converged? config.tol x previous
  else some false

/-- Whether the time limit is reached after a step. -/
def late (plan : Plan α σ) (step : Nat) : Option α :=
  plan.config.maxTime.filter fun limit => decide (limit ≤ plan.elapsed step)

/-- Keeps the solution of a step and decides whether to go on. -/
def keep (plan : Plan α σ) (w : Walk α σ) (step : Nat) (lam : α) (s : Solution α) : Walk α σ :=
  let unsolved : List (Event α) := if s.status.ok then [] else [.keptUnsolved step lam s.status]
  let w : Walk α σ := { w with
    problem := { w.problem with x := s.x, y := s.y }
    points := w.points ++ [⟨step, lam, s.x, s.status, s.iterations⟩]
    events := w.events ++ unsolved ++ [.stepped step lam (Vec.nonzeros s.x) s.iterations] }
  -- Agreement is judged before the clock, and the clock before the next penalty.
  match agrees? plan.config s.x w.previous with
  | none => w.halt (.fault .lengths)
  | some true => w.halt (.phase .converged)
  | some false =>
    match late plan step with
    | some limit =>
      let w : Walk α σ := { w with events := w.events ++ [.deadline limit step] }
      w.halt (.phase .timedOut)
    | none => { w with previous := s.x }

/-- Calls the engine for a step whose penalty is installed. -/
def call (plan : Plan α σ) (w : Walk α σ) (step : Nat) (lam : α) : Walk α σ :=
  let (reply, engine) := plan.engine.solve w.engine w.problem.request
  let w : Walk α σ := { w with engine, events := w.events ++ reply.events }
  match reply.outcome with
  | .error f => w.halt (.fault f)
  | .ok s =>
    if s.status.ok = false ∧ plan.config.policy = .stop then
      w.halt (.fault (.solverFailure step lam s.status))
    else
      w.keep plan step lam s

/-- Whether the limit on the number of steps is reached. -/
def capped (config : Config α) (step : Nat) : Bool := config.maxSteps.any fun k => k ≤ step

/-- The next step of a walk that has not ended. -/
def step (plan : Plan α σ) (w : Walk α σ) : Walk α σ :=
  let i := w.points.length
  -- The entry is computed before the limit on the number of steps is looked at.
  if plan.schedule.count ≤ i then w.halt (.phase .exhausted)
  else match plan.schedule.entry? i with
  | none => w.halt (.fault .overflow)
  | some lam =>
    if capped plan.config i then w.halt (.phase .exhausted)
    else match w.problem.withPenalty? lam with
    | .error f => w.halt (.fault f)
    | .ok problem =>
      -- The penalty is installed before the vectors are forgotten; both stay if the call fails.
      let problem := if plan.config.warmStart then problem else problem.reset
      let w : Walk α σ := { w with problem }
      w.call plan i lam

/-- One step, or nothing if the walk has ended. -/
def advance (plan : Plan α σ) (w : Walk α σ) : Walk α σ :=
  match w.exit with
  | some _ => w
  | none => w.step plan

/-- A walk that has ended stays as it is. -/
theorem advance_of_exit (plan : Plan α σ) {w : Walk α σ} {e : Exit α} (h : w.exit = some e) :
    w.advance plan = w := by
  rw [advance, h]

/-- A walk that has not ended makes a step. -/
theorem advance_of_none (plan : Plan α σ) {w : Walk α σ} (h : w.exit = none) :
    w.advance plan = w.step plan := by
  rw [advance, h]

/-- As many as `n` steps, fewer if the walk ends before. -/
def advanceBy (plan : Plan α σ) : Nat → Walk α σ → Walk α σ
  | 0, w => w
  | n + 1, w => match w.exit with
    | some _ => w
    | none => advanceBy plan n (w.step plan)

/-- A walk that has ended stays as it is for any number of steps. -/
theorem advanceBy_of_exit (plan : Plan α σ) (n : Nat) {w : Walk α σ} {e : Exit α}
    (h : w.exit = some e) : advanceBy plan n w = w := by
  cases n with
  | zero => rfl
  | succ n => simp only [advanceBy, h]

/-- Any number of steps begins with one. -/
theorem advanceBy_succ (plan : Plan α σ) (n : Nat) (w : Walk α σ) :
    advanceBy plan (n + 1) w = advanceBy plan n (w.advance plan) := by
  cases h : w.exit with
  | some e => rw [advanceBy_of_exit plan _ h, advance_of_exit plan h, advanceBy_of_exit plan _ h]
  | none => simp only [advanceBy, h, advance]

/-- Steps can be counted in two parts. -/
theorem advanceBy_add (plan : Plan α σ) (m n : Nat) (w : Walk α σ) :
    advanceBy plan (m + n) w = advanceBy plan n (advanceBy plan m w) := by
  induction m generalizing w with
  | zero => rw [Nat.zero_add, advanceBy]
  | succ m ih => rw [Nat.succ_add, advanceBy_succ, ih, advanceBy_succ]

/-- All steps: one for each penalty, and one to see that there is none left. -/
def finish (plan : Plan α σ) (w : Walk α σ) : Walk α σ :=
  w.advanceBy plan (plan.schedule.count + 1)

end Walk

end RegPath.Path
