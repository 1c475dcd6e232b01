import RegPath.Event

namespace RegPath

/-!
# Timed functions

A timed function reports when it begins and when it ends, indented by how many timed functions
around it run in the same thread.

* `timed` — the events of a timed function around those of its body;
* `Timing.Action`, `Timing.Nestings` — beginnings and ends in any number of threads, and the depth
  that each thread is at;
* `Timing.play` — the events of any sequence of actions;
* `Timing.Call` — a tree of calls, with `Timing.Call.run` its actions and its outcome.
-/

/-- The events of a timed function. -/
def timed {α : Type} (depth : Nat) (name : String) (body : List (Event α)) : List (Event α) :=
  .entered depth name :: body ++ [.left depth name]

namespace Timing

/-! ### Threads -/

/-- A thread, by the position of the call that started it; the main thread is `[]`. -/
abbrev Thread := List Nat

/-- What a thread does that concerns its depth. -/
inductive Action where
  /-- A timed function begins. -/
  | enter (name : String)
  /-- The innermost timed function ends, by returning or by raising. -/
  | leave
  deriving DecidableEq, Repr

/-- The depth of a thread, with the names of its open functions and the depths to which their
    ends return. -/
structure Nesting where
  /-- The depth of the next function that begins. -/
  depth : Nat
  /-- The open functions, innermost first. -/
  running : List (String × Nat)
  deriving DecidableEq, Repr

/-- Before a thread has run a timed function. -/
def Nesting.outermost : Nesting := ⟨0, []⟩

/-- One action of a thread: the depth afterwards, and the event. -/
def Nesting.act {α : Type} (l : Nesting) : Action → Nesting × Option (Event α)
  | .enter name => (⟨l.depth + 1, (name, l.depth) :: l.running⟩, some (.entered l.depth name))
  | .leave => match l.running with
    | [] => (l, none)
    | (name, depth) :: rest => (⟨depth, rest⟩, some (.left depth name))

/-- The depths of all threads. -/
abbrev Nestings := Thread → Nesting

/-- The depths before anything has run. -/
def Nestings.start : Nestings := fun _ => .outermost

/-- One action of one thread; the others keep their depths. -/
def Nestings.act {α : Type} (ls : Nestings) (t : Thread) (a : Action) :
    Nestings × Option (Event α) :=
  let (l, e) := (ls t).act a
  (fun u => if u = t then l else ls u, e)

/-- The events of a sequence of actions, each with its thread. -/
def play {α : Type} (ls : Nestings) : List (Thread × Action) → List (Thread × Event α)
  | [] => []
  | (t, a) :: rest =>
    let (ls', e) := ls.act t a
    (e.toList.map fun e => (t, e)) ++ play ls' rest

/-- The depths after a sequence of actions. -/
def settle (ls : Nestings) : List (Thread × Action) → Nestings
  | [] => ls
  | (t, a) :: rest => settle (ls.act (α := Unit) t a).1 rest

/-! ### Trees of calls -/

/-- A call of a timed function: it calls its children in order, then raises or returns the sum of
    their values and its own. -/
inductive Call where
  /-- A call with its name, whether its children run in a thread of their own, each child with
      whether its faults are caught, what it raises, and its own value. -/
  | mk (name : String) (pooled : Bool) (children : List (Bool × Call)) (raises : Option String)
      (value : Int)

/-- How a call ends: with a value or with what it raised. -/
abbrev Outcome := Except String Int

/-- What a call that is caught counts for when it raises. -/
def Outcome.guarded (guard : Bool) (o : Outcome) : Outcome :=
  match guard, o with
  | true, .error _ => .ok (-1)
  | _, o => o

/-- The outcome of a call whose children summed up to `total`. -/
def Outcome.finish (raises : Option String) (value : Int) : Outcome → Outcome
  | .error text => .error text
  | .ok total => match raises with
    | some text => .error text
    | none => .ok (total + value)

mutual

/-- The actions and the outcome of the call at a position, on a thread. -/
def Call.run (thread : Thread) (position : List Nat) :
    Call → List (Thread × Action) × Outcome
  | .mk name pooled children raises value =>
    let (body, total) :=
      if pooled then Call.runPool position position 0 children
      else Call.runAll thread position 0 children
    ((thread, .enter name) :: body ++ [(thread, .leave)], total.finish raises value)

/-- The children of a call on its own thread, from the one at position `i` on.  The first fault
    that is not caught ends the sequence. -/
def Call.runAll (thread : Thread) (position : List Nat) (i : Nat) :
    List (Bool × Call) → List (Thread × Action) × Outcome
  | [] => ([], .ok 0)
  | (guard, c) :: rest =>
    let (actions, o) := c.run thread (i :: position)
    match o.guarded guard with
    -- The children after this one never begin.
    | .error text => (actions, .error text)
    | .ok v =>
      let (more, total) := Call.runAll thread position (i + 1) rest
      (actions ++ more, total.map (v + ·))

/-- The children of a call on a thread of their own, from the one at position `i` on.  All of them
    run; the first fault that is not caught is passed on afterwards. -/
def Call.runPool (thread : Thread) (position : List Nat) (i : Nat) :
    List (Bool × Call) → List (Thread × Action) × Outcome
  | [] => ([], .ok 0)
  | (guard, c) :: rest =>
    let (actions, o) := c.run thread (i :: position)
    -- The children after this one run whatever became of it.
    let (more, total) := Call.runPool thread position (i + 1) rest
    (actions ++ more, match o.guarded guard with
      | .error text => .error text
      | .ok v => total.map (v + ·))

end

/-- The outermost calls of a program, one after the other on the main thread. -/
def runProgram (calls : List Call) : List (Thread × Action) × List Outcome :=
  let runs := calls.zipIdx.map fun c => c.1.run [] [c.2]
  (runs.flatMap Prod.fst, runs.map Prod.snd)

end Timing

end RegPath
