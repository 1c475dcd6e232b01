namespace RegPath.CrossValidation

/-!
# Tasks that share a memory

Tasks on a number of workers, all of which read and overwrite one memory.  A task is begun when a
worker is free, in the order in which the tasks are given; which of the begun ones takes the next
turn is not determined, nor is the order in which they are done.

* `Sharing` — what a task does to the memory;
* `Workshop` — the tasks at one moment: waiting, under way, or done in this order;
* `Turn`, `Workshop.turn?` — what can happen next, and what it makes of the workshop;
* `Workshop.play?` — a workshop after a sequence of turns;
* `Workshop.gather` — the results by the order of the tasks.
-/

/-- What a task does to the memory that it shares with others. -/
structure Sharing (κ μ τ ρ : Type) where
  /-- Begins the task at a position: what the worker keeps of it, and the memory afterwards. -/
  enter : Nat → κ → μ → τ × μ
  /-- One step. -/
  advance : τ → μ → τ × μ
  /-- Whether no step is left. -/
  ended : τ → Bool
  /-- The result of a task that has no step left. -/
  result : τ → μ → ρ

variable {κ μ τ ρ : Type}

/-- Tasks on workers, each with its position among all tasks. -/
structure Workshop (κ μ τ ρ : Type) where
  /-- What all tasks share. -/
  memory : μ
  /-- The tasks that no worker has begun. -/
  waiting : List (Nat × κ)
  /-- The tasks that the workers are at. -/
  under : List (Nat × τ)
  /-- The results of the tasks that are done, in the order in which they were done. -/
  done : List (Nat × ρ)

/-- What can happen next. -/
inductive Turn where
  /-- A free worker begins the first task that waits. -/
  | enter
  /-- A worker takes a step. -/
  | advance (worker : Nat)
  /-- A worker is done with its task, and is free again. -/
  | leave (worker : Nat)
  deriving DecidableEq, Repr

namespace Workshop

/-- Before the first turn all tasks wait. -/
def opening (jobs : List κ) (memory : μ) : Workshop κ μ τ ρ := ⟨memory, jobs.mapIdx Prod.mk, [], []⟩

/-- No task waits, and none is under way. -/
def Closed (w : Workshop κ μ τ ρ) : Prop := w.waiting = [] ∧ w.under = []

/-- The workshop after a turn, if the turn is possible. -/
def turn? (S : Sharing κ μ τ ρ) (workers : Nat) (w : Workshop κ μ τ ρ) :
    Turn → Option (Workshop κ μ τ ρ)
  | .enter => match w.waiting with
    | [] => none
    | (i, job) :: waiting =>
      if w.under.length < workers then
        let (t, memory) := S.enter i job w.memory
        some { w with memory, waiting, under := w.under ++ [(i, t)] }
      else none
  | .advance k => match w.under[k]? with
    | none => none
    | some (i, t) =>
      if S.ended t then none
      else
        let (t, memory) := S.advance t w.memory
        some { w with memory, under := w.under.set k (i, t) }
  | .leave k => match w.under[k]? with
    | none => none
    | some (i, t) =>
      if S.ended t then
        some { w with
          under := w.under.eraseIdx k
          done := w.done ++ [(i, S.result t w.memory)] }
      else none

/-- The workshop after a sequence of turns, if each of them is possible. -/
def play? (S : Sharing κ μ τ ρ) (workers : Nat) (w : Workshop κ μ τ ρ) :
    List Turn → Option (Workshop κ μ τ ρ)
  | [] => some w
  | turn :: rest => match w.turn? S workers turn with
    | none => none
    | some w => w.play? S workers rest

/-- The results of the first `n` tasks, by their positions. -/
def gather (w : Workshop κ μ τ ρ) (n : Nat) : List ρ :=
  (List.range n).filterMap fun i => List.lookup i w.done

end Workshop

end RegPath.CrossValidation
