import RegPath.Engine.Epigraph
import RegPath.Minimise.InteriorPoint

namespace RegPath

/-!
# The conic engine

An engine that states each problem as a program and leaves it to a solver.  It keeps the model of
its last problem, and builds a new one only if something other than the column scales has changed.

* `Conic.Solver` — the solvers that can be asked for, and whether they are installed;
* `Conic.Cache`, `Conic.prepare` — the model that is kept, and whether the solver has seen it;
* `Conic.Backend` — a way to minimise models;
* `Conic.engine` — the engine;
* `Conic.Backend.interior` — minimisers by an interior point method.
-/

namespace Conic

/-- A solver that can be asked for. -/
structure Solver where
  /-- Its name. -/
  name : String
  /-- Whether it can solve anything. -/
  installed : Bool
  deriving DecidableEq, Repr

/-- The solvers that have a name. -/
def solvers : List Solver :=
  [⟨"CLARABEL", true⟩, ⟨"MOSEK", false⟩, ⟨"GUROBI", false⟩, ⟨"CPLEX", false⟩, ⟨"XPRESS", false⟩]

/-- The solver that is used unless another one is asked for. -/
def defaultName : String := "CLARABEL"

/-- The solver of a name. -/
def Solver.ofName {α : Type} (name : String) : Except (Fault α) Solver :=
  match solvers.find? fun s => s.name = name with
  | some s => .ok s
  | none => .error (.unknownSolver name)

/-- What a backend finds out about a model. -/
inductive Finding (α : Type) where
  /-- A point with the status that it has earned, after a number of iterations. -/
  | point (x : List α) (status : Status) (iterations : Nat)
  /-- That there is no minimiser. -/
  | nothing
  /-- Nothing. -/
  | stuck

/-- A way to minimise models. -/
structure Backend (α : Type) [Scalar α] where
  /-- Whether two numbers are the same datum. -/
  same : α → α → Bool
  /-- What is found for given column scales, with a guess. -/
  minimise : Model α → List α → List α → Finding α

variable {α : Type} [Scalar α]

/-- What a model was built for. -/
structure Key (α : Type) where
  /-- The matrix object. -/
  design : Nat
  /-- Shapes of the rows. -/
  rowKinds : List Kind
  /-- Scales and offsets of the rows. -/
  rowNumbers : List α
  /-- Shapes of the columns. -/
  colKinds : List Kind
  /-- Offsets of the columns. -/
  colNumbers : List α

/-- The key of a request. -/
def Key.ofRequest (q : Request α) : Key α where
  design := q.design.key
  rowKinds := q.rowTerms.map Term.kind
  rowNumbers := q.rowTerms.map Term.scale ++ q.rowTerms.map Term.offset
  colKinds := q.colTerms.map Term.kind
  colNumbers := q.colTerms.map Term.offset

/-- Whether two lists hold the same data. -/
def sameNumbers (same : α → α → Bool) (x y : List α) : Bool :=
  x.length = y.length && (List.zipWith same x y).all id

/-- Whether two keys are those of one model. -/
def Key.same (same : α → α → Bool) (k l : Key α) : Bool :=
  k.design = l.design && k.rowKinds = l.rowKinds && k.colKinds = l.colKinds &&
    sameNumbers same k.rowNumbers l.rowNumbers && sameNumbers same k.colNumbers l.colNumbers

/-- A model that is kept. -/
structure Kept (α : Type) where
  /-- What it was built for. -/
  key : Key α
  /-- The model. -/
  model : Model α
  /-- Whether it has been handed to the backend. -/
  opened : Bool

/-- The last model. -/
abbrev Cache (α : Type) := Option (Kept α)

/-- The model of a request, from the cache or new. -/
def prepare (B : Backend α) (c : Cache α) (q : Request α) :
    Except (Fault α) (Kept α) × List (Event α) × Cache α :=
  let key := Key.ofRequest q
  match c.filter fun k => k.key.same B.same key with
  | some k => (.ok k, [], c)
  | none => match Model.build q.design.matrix q.rowTerms q.colTerms with
    -- A problem without a model leaves the last one in the cache.
    | .error f => (.error f, [], c)
    | .ok model =>
      let k : Kept α := ⟨key, model, false⟩
      (.ok k, [.modelled q.height q.width], some k)

/-- The answer of an engine that found nothing: the guess. -/
def giveUp (q : Request α) : Solution α := ⟨q.x, q.y, .failed, 0⟩

/-- Minimises a model, unless nothing can be computed from its data.  Where no point is found the
    guess is given back, with a warning if it is not known whether there is one. -/
def minimise (B : Backend α) (solver : Solver) (model : Model α) (q : Request α) : Reply α :=
  let scales := q.colTerms.map Term.scale
  if ¬ model.IsSound scales then .quiet (.error .modelNotFinite)
  else match B.minimise model scales q.x with
    | .point x status iterations =>
      .quiet (.ok ⟨x, q.design.matrix.mulVec x, status, iterations⟩)
    | .nothing => .quiet (.ok (giveUp q))
    | .stuck => ⟨.ok (giveUp q), [.abandoned solver.name]⟩

/-- The engine with a solver.  The model is made and the guess is judged even if the solver is not
    installed, which gives the guess back.  When a model is handed to the backend for the first
    time, its absolute values have to be numbers at the guess. -/
def engine (B : Backend α) (solver : Solver) : Engine α (Cache α) where
  solve c q :=
    match prepare B c q with
    | (.error f, events, c') => (⟨.error f, events⟩, c')
    | (.ok kept, events, c') =>
      if q.colTerms.length ≠ q.width ∨ q.x.length ≠ q.width then (⟨.error .lengths, events⟩, c')
      else if ¬ ∀ a ∈ q.x, Scalar.IsNumber a then (⟨.error .guessNotNumber, events⟩, c')
      else if ¬ solver.installed then
        (⟨.ok (giveUp q), events ++ [.unavailable solver.name]⟩, c')
      else if ¬ kept.opened ∧ ¬ kept.model.Starts q.x then
        (⟨.error .guessNotNumber, events⟩, c')
      else
        let r := minimise B solver kept.model q
        (⟨r.outcome, events ++ r.events⟩, some { kept with opened := true })

/-- Minimisation by an interior point method, given when two numbers are the same datum. -/
def Backend.interior (same : α → α → Bool) : Backend α where
  same := same
  minimise m colScales x :=
    -- Where nothing is asked for, the guess is as good as any point.
    if m.rowParts.isEmpty && m.colParts.isEmpty then .point x .success 0
    else match (m.program colScales).interiorPoint with
      | .minimiser y steps => .point (y.take m.matrix.cols) .success steps
      | .roughly y steps => .point (y.take m.matrix.cols) .inaccurate steps
      | .capped y steps => .point (y.take m.matrix.cols) .maxIter steps
      | .nothing => .nothing
      | .stuck => .stuck

end Conic

end RegPath
