import RegPath.Phase
import RegPath.Status

namespace RegPath

/-!
# Events

What the library reports while it works.  Operations return their events in order, also when they
end in a fault; the wording is in `RegPath.Event.Text`.

* `Level`, `Reporter` — how important an event is and which part of the library reports it;
* `Event` — the events with what they quote.
-/

/-- How important an event is. -/
inductive Level where
  /-- Progress of a single step. -/
  | debug
  /-- Progress of a whole operation. -/
  | info
  /-- Something that the caller may want to look at. -/
  | warning
  deriving DecidableEq, Repr

/-- Which part of the library reports an event. -/
inductive Reporter where
  /-- The path driver and the timed functions. -/
  | path
  /-- The engines. -/
  | engine
  /-- Cross-validation. -/
  | crossValidation
  deriving DecidableEq, Repr

/-- Something that happened, over the type of the numbers that it quotes. -/
inductive Event (α : Type) where
  /-- A timed function begins, inside `depth` others. -/
  | entered (depth : Nat) (name : String)
  /-- A timed function ends, inside `depth` others. -/
  | left (depth : Nat) (name : String)
  /-- A path has no positive penalty to start from. -/
  | nothingToDo (lamMax : α)
  /-- A path has a schedule of `count` penalties down to `last`. -/
  | scheduled (lamMax : α) (count : Nat) (last : α)
  /-- A step was not solved; its iterate is kept. -/
  | keptUnsolved (step : Nat) (lam : α) (status : Status)
  /-- A step is done. -/
  | stepped (step : Nat) (lam : α) (nonzeros iterations : Nat)
  /-- The time limit was reached. -/
  | deadline (limit : α) (step : Nat)
  /-- A path ended. -/
  | ended (phase : Phase) (steps : Nat)
  /-- An engine factored a system with `size` unknowns. -/
  | factored (size nonzeros : Nat)
  /-- The iteration of an engine ended. -/
  | iterated (status : Status) (iterations : Nat)
  /-- An engine set up a problem of this size. -/
  | modelled (rows cols : Nat)
  /-- An engine's solver is not available. -/
  | unavailable (solver : String)
  /-- An engine's solver could not go on. -/
  | abandoned (solver : String)
  /-- Cross-validation has no positive penalty to start from. -/
  | allZero (lamMax : α)
  /-- Cross-validation chose a penalty. -/
  | chosen (lam : α) (step : Nat) (error : α)

namespace Event

variable {α : Type}

/-- How important the event is. -/
def level : Event α → Level
  | entered .. | left .. | scheduled .. | ended .. | chosen .. => .info
  | nothingToDo .. | keptUnsolved .. | deadline .. | unavailable .. | abandoned .. | allZero .. =>
    .warning
  | stepped .. | factored .. | iterated .. | modelled .. => .debug

/-- Who reports the event. -/
def reporter : Event α → Reporter
  | factored .. | iterated .. | modelled .. | unavailable .. | abandoned .. => .engine
  | allZero .. | chosen .. => .crossValidation
  | _ => .path

end Event

/-- The rank of a level: an event passes a threshold of its own rank or below. -/
def Level.rank : Level → Nat
  | debug => 0
  | info => 1
  | warning => 2

/-- The events of at least the given level, in order. -/
def Event.atLeast {α : Type} (threshold : Level) (events : List (Event α)) : List (Event α) :=
  events.filter fun e => decide (threshold.rank ≤ e.level.rank)

end RegPath
