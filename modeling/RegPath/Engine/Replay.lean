import RegPath.Engine

namespace RegPath

/-!
# Replaying engines

An engine that returns prepared iterates in turn, whatever it is asked, and records what it was
asked.  The last iterate and the last status are repeated for ever.

* `Replay.Script` — the prepared answers;
* `Replay.Call` — what is recorded of a call;
* `Replay.engine` — the engine, whose state is the list of its calls so far.
-/

namespace Replay

variable {α : Type} [Scalar α]

/-- Prepared answers. -/
structure Script (α : Type) where
  /-- The columns of each answer. -/
  iterates : List (List α)
  /-- The status of each answer. -/
  statuses : List Status

/-- The guess and the column scales of a call. -/
structure Call (α : Type) where
  /-- The guess at the columns. -/
  x : List α
  /-- The guess at the rows. -/
  y : List α
  /-- The scales of the column terms. -/
  scales : List α

/-- The element at a position, or the last one. -/
def nth? {β : Type} (l : List β) (k : Nat) : Option β := l[min k (l.length - 1)]?

/-- What a request leaves behind. -/
def Call.ofRequest (q : Request α) : Call α := ⟨q.x, q.y, q.colTerms.map Term.scale⟩

/-- The prepared answer to call number `k`, on the graph.  An iterate that has not one entry for
    each column is refused. -/
def answer (script : Script α) (q : Request α) (k : Nat) : Except (Fault α) (Solution α) :=
  match nth? script.iterates k with
  | none => .error .unprepared
  | some x =>
    if x.length ≠ q.width then .error .lengths
    else match nth? script.statuses k with
      | none => .error .unprepared
      | some status => .ok { x, y := q.design.matrix.mulVec x, status, iterations := k + 1 }

/-- The engine of a script. -/
def engine (script : Script α) : Engine α (List (Call α)) where
  solve calls q := (.quiet (answer script q calls.length), calls ++ [.ofRequest q])

end Replay

end RegPath
