import RegPath.CrossValidation.Fit
import RegPath.CrossValidation.Workshop
import RegPath.Path.Cells

namespace RegPath.CrossValidation

/-!
# Folds in a shared store

Folds whose vectors, engines and penalties are all in one store, which every step of every fold
overwrites.  What a worker keeps of its fold are the numbers of the places that it was given when
the fold was begun.

* `Desk`, `Store` — what the folds overwrite;
* `Seat` — a fold under way, by its places in the store;
* `Seat.present` — the fold that the store holds at present;
* `Fold.sharing` — folds as tasks that share a store.
-/

variable {α : Type} [Scalar α] {σ : Type}

open RegPath.Path (Cells CellWalk Handing)

/-- What a path overwrites beside its vectors. -/
structure Desk (α : Type) [Scalar α] (σ : Type) where
  /-- The state of its engine. -/
  engine : σ
  /-- The terms of its columns, of which every step changes the scales. -/
  colTerms : List (Term α)

/-- What the folds share. -/
structure Store (α : Type) [Scalar α] (σ : Type) where
  /-- The vectors. -/
  cells : Cells α
  /-- The engines and the terms. -/
  desks : List (Desk α σ)

namespace Store

/-- A store that holds nothing. -/
def empty : Store α σ := ⟨⟨[]⟩, []⟩

/-- A walk with what the store holds for it. -/
def load (m : Store α σ) (desk : Nat) (w : CellWalk α σ) : CellWalk α σ :=
  match m.desks[desk]? with
  | none => { w with cells := m.cells }
  | some d => { w with
    cells := m.cells
    engine := d.engine
    problem := { w.problem with colTerms := d.colTerms } }

/-- The store after a step of a walk. -/
def save (m : Store α σ) (desk : Nat) (w : CellWalk α σ) : Store α σ where
  cells := w.cells
  desks := m.desks.set desk ⟨w.engine, w.problem.colTerms⟩

/-- A walk gets new cells and a new desk: the number of the desk, the walk, and the store
    afterwards. -/
def receive (m : Store α σ) (v : Path.Walk α σ) : Nat × CellWalk α σ × Store α σ :=
  let w := CellWalk.startIn m.cells v
  (m.desks.length, w, ⟨w.cells, m.desks ++ [⟨w.engine, w.problem.colTerms⟩]⟩)

end Store

/-- A fold under way in a store. -/
inductive Seat (α : Type) [Scalar α] (σ : Type) where
  /-- A fold that has nothing to walk. -/
  | idle (t : Fold α σ)
  /-- A fold that walks: how it was begun, the number of its desk, and the walk, of which the
      vectors, the engine and the terms of the columns are those in the store. -/
  | walking (t : Fold α σ) (j : Path.Driver.Journey α σ) (desk : Nat) (w : CellWalk α σ)

namespace Seat

/-- Begins a fold. -/
def enter (t : Fold α σ) (m : Store α σ) : Seat α σ × Store α σ :=
  match t.path with
  | .ok (.walking j) =>
    let (desk, w, m) := m.receive j.walk
    (.walking t j desk w, m)
  | _ => (.idle t, m)

/-- The fold that the store holds at present. -/
def present (m : Store α σ) : Seat α σ → Fold α σ
  | .idle t => t
  | .walking t j desk w => { t with path := .ok (.walking { j with walk := (m.load desk w).view }) }

/-- One step: the worker reads what the store holds, and writes back what the step has left. -/
def advance (handing : Handing) : Seat α σ → Store α σ → Seat α σ × Store α σ
  | .idle t, m => (.idle t, m)
  | .walking t j desk w, m =>
    let w := (m.load desk w).advance handing j.plan
    (.walking t j desk w, m.save desk w)

/-- Whether a fold has nothing left to walk. -/
def ended : Seat α σ → Bool
  | .idle _ => true
  | .walking _ _ _ w => w.exit.isSome

/-- The end of a fold, from what the store holds. -/
def result (t : Seat α σ) (m : Store α σ) : FoldEnd α := (t.present m).finish

end Seat

/-- The folds of given splits as tasks that share a store; each has a source of its own for its
    engine. -/
def Fold.sharing (F : Nat → Factory α σ) (s : Settings α) (A : RowMatrix α) (b : List α)
    (lamMax : α) (handing : Handing) : Sharing Split (Store α σ) (Seat α σ) (FoldEnd α) where
  enter i split := Seat.enter (Fold.start (F i) s A b lamMax split)
  advance := Seat.advance handing
  ended := Seat.ended
  result := Seat.result

end RegPath.CrossValidation
