import RegPath.Phase
import RegPath.Status
import RegPath.Vec

namespace RegPath.Path

/-!
# Results of a path

* `Point` — what is kept of one step;
* `Result` — the points with the schedule and the last vectors;
* `Result.coefficients`, `Result.table`, `Result.chart` — the result as a matrix, a table and a
  drawing.
-/

variable {α : Type}

/-- What is kept of one step. -/
structure Point (α : Type) where
  /-- Position in the schedule. -/
  step : Nat
  /-- The penalty. -/
  lam : α
  /-- The coefficients. -/
  x : List α
  /-- How the solve ended. -/
  status : Status
  /-- Number of iterations of the solve. -/
  iterations : Nat

/-- The end of a path. -/
structure Result (α : Type) where
  /-- The steps that were done, in order. -/
  points : List (Point α)
  /-- How the path ended. -/
  phase : Phase
  /-- The top of the schedule. -/
  lamMax : α
  /-- The whole schedule. -/
  lambdas : List α
  /-- The last coefficients. -/
  x : List α
  /-- The last row values. -/
  y : List α

namespace Result

/-- The steps that were not solved. -/
def failedSteps (r : Result α) : List Nat :=
  (r.points.filter fun p => !p.status.ok).map Point.step

variable [Scalar α]

/-- The coefficients along the path, one row for each coefficient.  Without points there are as
    many rows as final coefficients, and they are empty. -/
def coefficients (r : Result α) : List (List α) :=
  let n := (r.points.head?.map fun p => p.x.length).getD r.x.length
  (List.range n).map fun j => r.points.map fun p => p.x[j]?.getD 0

/-- A path as a table, by columns. -/
structure Table (α : Type) where
  /-- Position in the schedule. -/
  step : List Nat
  /-- The penalty. -/
  lam : List α
  /-- How many coefficients are not zero. -/
  nonzeros : List Nat
  /-- The absolute sum of the coefficients. -/
  norm1 : List α
  /-- How the solve ended. -/
  status : List Status
  /-- Number of iterations of the solve. -/
  iterations : List Nat

/-- The heads of the columns of a table. -/
def Table.heads : List String := ["step", "lambda", "nnz", "l1_norm", "status", "iterations"]

/-- The points as a table. -/
def table (r : Result α) : Table α where
  step := r.points.map Point.step
  lam := r.points.map Point.lam
  nonzeros := r.points.map fun p => Vec.nonzeros p.x
  norm1 := r.points.map fun p => Vec.norm1 p.x
  status := r.points.map Point.status
  iterations := r.points.map Point.iterations

end Result

/-- A drawing: labelled axes and lines. -/
structure Chart (α : Type) where
  /-- Title. -/
  title : String
  /-- Label of the horizontal axis. -/
  xLabel : String
  /-- Label of the vertical axis. -/
  yLabel : String
  /-- Whether the horizontal axis runs from right to left. -/
  xInverted : Bool
  /-- Horizontal and vertical coordinates of each line. -/
  lines : List (List α × List α)
  /-- The texts of the legend. -/
  legend : List String

/-- The label of an axis of penalties. -/
def penaltyAxis : String := "log10(lambda)"

/-- One line for each coefficient against the logarithm of the penalty. -/
def Result.chart [Scalar α] (r : Result α) : Chart α where
  title := s!"Lasso path ({r.phase.name}, {r.points.length} steps)"
  xLabel := penaltyAxis
  yLabel := "Coefficients"
  xInverted := !r.points.isEmpty
  lines := if r.points.isEmpty then [] else
    r.coefficients.map fun c => (r.points.map fun p => Scalar.log10 p.lam, c)
  legend := []

end RegPath.Path
