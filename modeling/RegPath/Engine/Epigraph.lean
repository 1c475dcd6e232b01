import RegPath.Engine.Model
import RegPath.Minimise.Program

namespace RegPath

/-!
# Models as programs

A model as a quadratic program with further unknowns: each square gets one that equals its argument,
each absolute value one that is not below it on either side.  A half-line is a constraint.

* `Model.Summand`, `Model.summands` — the terms of a model with their linear forms;
* `Model.program` — the program.
-/

variable {α : Type} [Scalar α]

namespace Model

/-- A term of a linear form of the columns. -/
structure Summand (α : Type) where
  /-- The shape. -/
  kind : Kind
  /-- The linear form, as coefficients with their columns. -/
  form : List (Nat × α)
  /-- The factor. -/
  scale : α
  /-- Where the argument counts from. -/
  offset : α

/-- The terms of a part, given the linear form of each position. -/
def Part.summands (p : Part α) (form : Nat → List (Nat × α)) (scales : List α) :
    List (Summand α) :=
  List.zipWith (fun i o => ⟨p.kind, form i, scales[i]?.getD 0, o⟩) p.positions p.offsets

/-- The terms of a model, for given scales of the columns. -/
def summands (m : Model α) (colScales : List α) : List (Summand α) :=
  m.rowParts.flatMap (fun p => p.summands (fun i => m.matrix.rows[i]?.getD []) m.rowScales) ++
    m.colParts.flatMap fun p => p.summands (fun j => [(j, 1)]) colScales

/-- The coefficients of a linear form of `n` columns. -/
def coefficients (n : Nat) (form : List (Nat × α)) : List α :=
  (List.range n).map fun j => (RowMatrix.storedAt form j).sum

/-- A list of `n` zeros with minus one at a place. -/
def minusUnit (n place : Nat) : List α :=
  (List.range n).map fun i => if i = place then -1 else 0

/-- The program of a model, for given scales of the columns. -/
def program (m : Model α) (colScales : List α) : Minimise.Program α :=
  let n := m.matrix.cols
  let all := m.summands colScales
  let squares := all.filter fun t => t.kind = .square
  let absolutes := all.filter fun t => t.kind = .abs
  let walls := all.filter fun t => t.kind = .nonneg
  let further := squares.length + absolutes.length
  let form (t : Summand α) : List α := coefficients n t.form
  let opposite (t : Summand α) : List α := (form t).map (- ·)
  let equalities := squares.zipIdx.map fun t =>
    (form t.1 ++ minusUnit further t.2, t.1.offset)
  let inequalities := (absolutes.zipIdx.flatMap fun t =>
      let unknown := minusUnit further (squares.length + t.2)
      [(form t.1 ++ unknown, t.1.offset), (opposite t.1 ++ unknown, -t.1.offset)]) ++
    walls.map fun t => (opposite t ++ Vec.zeros further, -t.offset)
  let constraints := equalities ++ inequalities
  { curvature := Vec.zeros n ++ squares.map Summand.scale ++ Vec.zeros absolutes.length
    slope := Vec.zeros (n + squares.length) ++ absolutes.map Summand.scale
    rows := constraints.map Prod.fst
    bounds := constraints.map Prod.snd
    equalities := equalities.length }

end Model

end RegPath
