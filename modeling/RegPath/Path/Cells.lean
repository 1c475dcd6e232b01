import RegPath.Path.Driver

namespace RegPath.Path

/-!
# Paths over shared vectors

A path whose vectors live in cells, so that two names can stand for one vector.  The problem and the
engine share the cells of `x` and `y`, and an engine may overwrite the cells that it is given and
hand them back.  The path keeps copies, in cells of its own, of all that it needs later.

* `Cells` — numbered vectors that can be read, overwritten and added to;
* `Handing` — whether an engine hands back new cells or the ones it was given;
* `CellWalk` — a walk over cells, with `CellWalk.advance` its step;
* `CellWalk.ofStart`, `CellWalk.startIn` — where it begins, alone or beside others;
* `CellWalk.view` — the walk that the cells hold at present;
* `Driver.Begun.finishInCells` — the end of a path that is walked over cells.
-/

variable {α : Type} {σ : Type}

/-! ### Cells -/

/-- Numbered vectors. -/
structure Cells (α : Type) where
  /-- The vectors, by their numbers. -/
  contents : List (List α)

namespace Cells

/-- The vector in a cell. -/
def read (c : Cells α) (i : Nat) : List α := c.contents[i]?.getD []

/-- Overwrites a cell. -/
def write (c : Cells α) (i : Nat) (v : List α) : Cells α := ⟨c.contents.set i v⟩

/-- A new cell with a vector: the cells afterwards, and its number. -/
def add (c : Cells α) (v : List α) : Cells α × Nat := (⟨c.contents ++ [v]⟩, c.contents.length)

/-- A new cell with a copy of what a cell holds. -/
def copy (c : Cells α) (i : Nat) : Cells α × Nat := c.add (c.read i)

/-- A new cell holds its vector. -/
theorem read_add (c : Cells α) (v : List α) : (c.add v).1.read (c.add v).2 = v := by
  simp [read, add]

/-- A new cell leaves the others. -/
theorem read_add_of_lt (c : Cells α) (v : List α) {i : Nat} (h : i < c.contents.length) :
    (c.add v).1.read i = c.read i := by
  simp [read, add, List.getElem?_append_left h]

/-- An overwritten cell holds what was written. -/
theorem read_write_self (c : Cells α) {i : Nat} (v : List α) (h : i < c.contents.length) :
    (c.write i v).read i = v := by
  simp [read, write, h]

/-- Overwriting a cell leaves the others. -/
theorem read_write_of_ne (c : Cells α) {i j : Nat} (v : List α) (h : i ≠ j) :
    (c.write i v).read j = c.read j := by
  simp [read, write, List.getElem?_set_ne h]

end Cells

/-- How an engine hands back its vectors. -/
inductive Handing where
  /-- In new cells. -/
  | fresh
  /-- In the cells of the guess, which are overwritten. -/
  | inPlace
  deriving DecidableEq, Repr

/-- The cells after an engine has handed back `x` and `y`, and where they are. -/
def Handing.place (h : Handing) (c : Cells α) (xCell yCell : Nat) (x y : List α) :
    Cells α × Nat × Nat :=
  match h with
  | .fresh =>
    let (c, i) := c.add x
    let (c, j) := c.add y
    (c, i, j)
  | .inPlace => ((c.write xCell x).write yCell y, xCell, yCell)

/-! ### Walks -/

variable [Scalar α]

/-- What is kept of one step, with the cell of the coefficients. -/
structure CellPoint (α : Type) where
  /-- Position in the schedule. -/
  step : Nat
  /-- The penalty. -/
  lam : α
  /-- Where the coefficients are. -/
  x : Nat
  /-- How the solve ended. -/
  status : Status
  /-- Number of iterations of the solve. -/
  iterations : Nat

/-- What a walk over cells holds between two steps. -/
structure CellWalk (α : Type) [Scalar α] (σ : Type) where
  /-- All vectors. -/
  cells : Cells α
  /-- The state of the engine. -/
  engine : σ
  /-- The problem, of which the vectors are those in the next two cells. -/
  problem : Problem α
  /-- Where the problem's `x` is. -/
  x : Nat
  /-- Where the problem's `y` is. -/
  y : Nat
  /-- Where the iterate is that the next one is compared with. -/
  previous : Nat
  /-- The steps that are done. -/
  points : List (CellPoint α)
  /-- The events so far. -/
  events : List (Event α)
  /-- How the walk ended, once it has. -/
  exit : Option (Exit α)

namespace CellWalk

/-- The problem with the vectors that the cells hold at present. -/
def present (w : CellWalk α σ) : Problem α :=
  { w.problem with x := w.cells.read w.x, y := w.cells.read w.y }

/-- The walk that the cells hold at present. -/
def view (w : CellWalk α σ) : Walk α σ where
  engine := w.engine
  problem := w.present
  previous := w.cells.read w.previous
  points := w.points.map fun p => ⟨p.step, p.lam, w.cells.read p.x, p.status, p.iterations⟩
  events := w.events
  exit := w.exit

/-- A walk that has not made a step, with each of its vectors in a cell of its own. -/
def ofStart (w : Walk α σ) : CellWalk α σ where
  cells := ⟨[w.problem.x, w.problem.y, w.previous]⟩
  engine := w.engine
  problem := w.problem
  x := 0
  y := 1
  previous := 2
  points := []
  events := w.events
  exit := w.exit

/-- A walk that has not made a step, with each of its vectors in a new cell beside others. -/
def startIn (cells : Cells α) (w : Walk α σ) : CellWalk α σ :=
  let (cells, x) := cells.add w.problem.x
  let (cells, y) := cells.add w.problem.y
  let (cells, previous) := cells.add w.previous
  { ofStart w with cells, x, y, previous }

/-- Ends the walk. -/
def halt (w : CellWalk α σ) (e : Exit α) : CellWalk α σ := { w with exit := some e }

/-- Forgets the present vectors: the problem gets new cells with zeros. -/
def reset (w : CellWalk α σ) : CellWalk α σ :=
  let (cells, x) := w.cells.add (Vec.zeros w.problem.width)
  let (cells, y) := cells.add (Vec.zeros w.problem.height)
  { w with cells, x, y }

/-- Keeps the solution in the problem's cells, and decides whether to go on. -/
def keep (plan : Plan α σ) (w : CellWalk α σ) (step : Nat) (lam : α) (status : Status)
    (iterations : Nat) : CellWalk α σ :=
  let unsolved : List (Event α) := if status.ok then [] else [.keptUnsolved step lam status]
  -- A copy, since a later call may overwrite the cell of the problem.
  let (cells, kept) := w.cells.copy w.x
  let w : CellWalk α σ := { w with
    cells
    points := w.points ++ [⟨step, lam, kept, status, iterations⟩]
    events := w.events ++ unsolved ++
      [.stepped step lam (Vec.nonzeros (cells.read w.x)) iterations] }
  match Walk.agrees? plan.config (w.cells.read w.x) (w.cells.read w.previous) with
  | none => w.halt (.fault .lengths)
  | some true => w.halt (.phase .converged)
  | some false =>
    match Walk.late plan step with
    | some limit =>
      let w : CellWalk α σ := { w with events := w.events ++ [.deadline limit step] }
      w.halt (.phase .timedOut)
    | none =>
      -- Another copy: the next iterate may be written into the cell that this one is in.
      let (cells, previous) := w.cells.copy w.x
      { w with cells, previous }

/-- Calls the engine on the problem's cells. -/
def call (handing : Handing) (plan : Plan α σ) (w : CellWalk α σ) (step : Nat) (lam : α) :
    CellWalk α σ :=
  let (reply, engine) := plan.engine.solve w.engine w.present.request
  let w : CellWalk α σ := { w with engine, events := w.events ++ reply.events }
  match reply.outcome with
  | .error f => w.halt (.fault f)
  | .ok s =>
    -- An engine that works in place has overwritten its guess even if its answer is refused.
    let (cells, x, y) := handing.place w.cells w.x w.y s.x s.y
    if s.status.ok = false ∧ plan.config.policy = .stop then
      let w : CellWalk α σ := { w with cells }
      w.halt (.fault (.solverFailure step lam s.status))
    else
      let w : CellWalk α σ := { w with cells, x, y }
      w.keep plan step lam s.status s.iterations

/-- The next step of a walk that has not ended. -/
def step (handing : Handing) (plan : Plan α σ) (w : CellWalk α σ) : CellWalk α σ :=
  let i := w.points.length
  if plan.schedule.count ≤ i then w.halt (.phase .exhausted)
  else match plan.schedule.entry? i with
  | none => w.halt (.fault .overflow)
  | some lam =>
    if Walk.capped plan.config i then w.halt (.phase .exhausted)
    else match w.problem.withPenalty? lam with
    | .error f => w.halt (.fault f)
    | .ok problem =>
      let w : CellWalk α σ := { w with problem }
      let w := if plan.config.warmStart then w else w.reset
      w.call handing plan i lam

/-- One step, or nothing if the walk has ended. -/
def advance (handing : Handing) (plan : Plan α σ) (w : CellWalk α σ) : CellWalk α σ :=
  match w.exit with
  | some _ => w
  | none => w.step handing plan

/-- As many as `n` steps, fewer if the walk ends before. -/
def advanceBy (handing : Handing) (plan : Plan α σ) : Nat → CellWalk α σ → CellWalk α σ
  | 0, w => w
  | n + 1, w => match w.exit with
    | some _ => w
    | none => advanceBy handing plan n (w.step handing plan)

/-- All steps. -/
def finish (handing : Handing) (plan : Plan α σ) (w : CellWalk α σ) : CellWalk α σ :=
  w.advanceBy handing plan (plan.schedule.count + 1)

end CellWalk

/-- The end of a path that has not made a step, walked over cells. -/
def Driver.Begun.finishInCells (handing : Handing) : Driver.Begun α σ → Run α σ
  | .closed r => r
  | .walking j => j.driver.conclude j.plan.schedule j.opening
      ((CellWalk.ofStart j.walk).finish handing j.plan).view

end RegPath.Path
