import RegPath.Event
import RegPath.Objective

namespace RegPath

/-!
# Engines

An engine solves one problem in graph form,

    minimise  Σ fᵢ(yᵢ) + Σ gⱼ(xⱼ)   subject to  y = A x,

starting from a guess.  It may keep a state between its calls.

* `Request` — the problem and the guess;
* `Solution`, `Reply` — what an engine returns, with the events on the way;
* `Engine` — a reply and a next state for every state and request;
* `Engine.recorded` — the same engine with a transcript of its calls.
-/

/-- A problem in graph form with a guess at its solution. -/
structure Request (α : Type) [Scalar α] where
  /-- The matrix `A`. -/
  design : Design α
  /-- The terms of the rows. -/
  rowTerms : List (Term α)
  /-- The terms of the columns. -/
  colTerms : List (Term α)
  /-- The guess at `x`. -/
  x : List α
  /-- The guess at `y`. -/
  y : List α

/-- What an engine found. -/
structure Solution (α : Type) where
  /-- One entry for each column. -/
  x : List α
  /-- One entry for each row. -/
  y : List α
  /-- How the solve ended. -/
  status : Status
  /-- Number of iterations. -/
  iterations : Nat

/-- The end of a call of an engine. -/
structure Reply (α : Type) where
  /-- A solution, or the fault that stopped the call. -/
  outcome : Except (Fault α) (Solution α)
  /-- The events of the call, in order. -/
  events : List (Event α)

/-- A solver with a state of type `σ`. -/
structure Engine (α : Type) [Scalar α] (σ : Type) where
  /-- One call. -/
  solve : σ → Request α → Reply α × σ

/-- A reply without events. -/
def Reply.quiet {α : Type} (outcome : Except (Fault α) (Solution α)) : Reply α := ⟨outcome, []⟩

namespace Request

variable {α : Type} [Scalar α]

/-- Number of rows. -/
def height (q : Request α) : Nat := q.design.matrix.height

/-- Number of columns. -/
def width (q : Request α) : Nat := q.design.matrix.cols

/-- The problem without the guess. -/
def form (q : Request α) : GraphForm α := ⟨q.design.matrix, q.rowTerms, q.colTerms⟩

end Request

/-- The same engine, which also keeps what it was asked and what it replied. -/
def Engine.recorded {α : Type} [Scalar α] {σ : Type} (E : Engine α σ) :
    Engine α (σ × List (Request α × Reply α)) where
  solve s q :=
    let (reply, next) := E.solve s.1 q
    (reply, (next, s.2 ++ [(q, reply)]))

end RegPath
