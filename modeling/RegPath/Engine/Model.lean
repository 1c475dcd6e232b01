import RegPath.Engine

namespace RegPath

/-!
# Models

A problem in graph form sorted by the shapes of its terms: for each shape the positions where it
occurs, with their offsets.  The scales of the columns are a parameter, so that one model serves
all penalties of a path.

* `Model.Part` — the terms of one shape, with their cost and their constraints;
* `Model.ofTerms` — the parts of a list of terms;
* `Model` — the matrix with the parts of both sides;
* `Model.IsSound`, `Model.Starts` — what is asked of a model before it is minimised;
* `Model.value?` — the objective at a point, infinite where a constraint fails.
-/

variable {α : Type} [Scalar α]

namespace Model

/-- The terms of one shape in a list: where they stand, and their offsets. -/
structure Part (α : Type) where
  /-- The shape. -/
  kind : Kind
  /-- The positions. -/
  positions : List Nat
  /-- The offset at each position. -/
  offsets : List α

namespace Part

/-- Positions with the shifted entries of a vector. -/
def shifted (p : Part α) (v : List α) : List (Nat × α) :=
  List.zipWith (fun i o => (i, v[i]?.getD 0 - o)) p.positions p.offsets

/-- The cost of the part: squares and absolute values are summed, constraints cost nothing. -/
def cost (p : Part α) (scales v : List α) : α :=
  let scale (i : Nat) := scales[i]?.getD 0
  match p.kind with
  | .square => Scalar.half * ((p.shifted v).map fun u => scale u.1 * (u.2 * u.2)).sum
  | .abs => ((p.shifted v).map fun u => scale u.1 * Scalar.abs u.2).sum
  | .zero | .nonneg => 0

/-- Whether something can be computed from the data of the part: offsets are numbers, and scales are
    finite where they matter. -/
def IsSound (p : Part α) (scales : List α) : Prop :=
  (∀ o ∈ p.offsets, Scalar.IsNumber o) ∧
    (p.kind.scaled = true → ∀ i ∈ p.positions, Scalar.IsFinite (scales[i]?.getD 0))

instance (p : Part α) (scales : List α) : Decidable (p.IsSound scales) :=
  inferInstanceAs (Decidable (_ ∧ _))

/-- Whether the absolute values of the part are numbers at a vector. -/
def Starts (p : Part α) (v : List α) : Prop :=
  p.kind = .abs → ∀ u ∈ p.shifted v, Scalar.IsNumber u.2

instance (p : Part α) (v : List α) : Decidable (p.Starts v) :=
  inferInstanceAs (Decidable (_ → _))

/-- Whether the constraints of the part hold. -/
def Holds (p : Part α) (v : List α) : Prop :=
  p.kind = .nonneg → ∀ u ∈ p.shifted v, 0 ≤ u.2

instance (p : Part α) (v : List α) : Decidable (p.Holds v) :=
  inferInstanceAs (Decidable (_ → _))

end Part

/-- The terms of one shape. -/
def part (terms : List (Term α)) (kind : Kind) : Part α :=
  let found := terms.zipIdx.filter fun t => t.1.kind = kind
  ⟨kind, found.map Prod.snd, found.map fun t => t.1.offset⟩

/-- The shapes that contribute to an objective. -/
def shapes : List Kind := [.square, .abs, .nonneg]

/-- The parts of a list of terms, without the shapes that do not occur. -/
def ofTerms (terms : List (Term α)) : List (Part α) :=
  (shapes.map (part terms)).filter fun p => !p.positions.isEmpty

end Model

/-- A problem sorted by shapes. -/
structure Model (α : Type) where
  /-- The matrix. -/
  matrix : RowMatrix α
  /-- The parts of the rows. -/
  rowParts : List (Model.Part α)
  /-- The scales of the rows. -/
  rowScales : List α
  /-- The parts of the columns. -/
  colParts : List (Model.Part α)

namespace Model

/-- The model of a problem.  A shape at a position that does not exist is refused. -/
def build (A : RowMatrix α) (rowTerms colTerms : List (Term α)) : Except (Fault α) (Model α) :=
  let rowParts := ofTerms rowTerms
  let colParts := ofTerms colTerms
  if rowParts.all (fun p => p.positions.all fun i => decide (i < A.height)) ∧
      colParts.all (fun p => p.positions.all fun j => decide (j < A.cols)) then
    .ok ⟨A, rowParts, rowTerms.map Term.scale, colParts⟩
  else .error .termCount

/-- Whether something can be computed from the data of the model, for given scales of the columns.
    A row without a part does not count. -/
def IsSound (m : Model α) (colScales : List α) : Prop :=
  (∀ p ∈ m.rowParts, p.IsSound m.rowScales ∧
    ∀ i ∈ p.positions, ∀ e ∈ m.matrix.rows[i]?.getD [], Scalar.IsFinite e.2) ∧
    ∀ p ∈ m.colParts, p.IsSound colScales

instance (m : Model α) (colScales : List α) : Decidable (m.IsSound colScales) :=
  inferInstanceAs (Decidable (_ ∧ _))

/-- Whether the absolute values of a model are numbers at a guess. -/
def Starts (m : Model α) (x : List α) : Prop :=
  (∀ p ∈ m.rowParts, p.Starts (m.matrix.mulVec x)) ∧ ∀ p ∈ m.colParts, p.Starts x

instance (m : Model α) (x : List α) : Decidable (m.Starts x) :=
  inferInstanceAs (Decidable (_ ∧ _))

/-- Whether all constraints hold. -/
def Feasible (m : Model α) (x : List α) : Prop :=
  (∀ p ∈ m.rowParts, p.Holds (m.matrix.mulVec x)) ∧ ∀ p ∈ m.colParts, p.Holds x

instance (m : Model α) (x : List α) : Decidable (m.Feasible x) :=
  inferInstanceAs (Decidable (_ ∧ _))

/-- The cost at a feasible point, for given scales of the columns. -/
def cost (m : Model α) (colScales x : List α) : α :=
  (m.rowParts.map fun p => p.cost m.rowScales (m.matrix.mulVec x)).sum +
    (m.colParts.map fun p => p.cost colScales x).sum

/-- The objective, `none` where it is infinite. -/
def value? (m : Model α) (colScales x : List α) : Option α :=
  if m.Feasible x then some (m.cost colScales x) else none

end Model

end RegPath
