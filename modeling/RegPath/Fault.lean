import RegPath.Status

namespace RegPath

/-!
# Faults

Everything that can stop an operation, by cause.  The wording is in `RegPath.Fault.Message`.

* `LayoutFlaw` — why arrays are no compressed row layout;
* `Fault` — all causes, over the type of the numbers that they quote;
* `Fault.required` — a value that has to be given.
-/

/-- Why given arrays are not a compressed row layout of their shape. -/
inductive LayoutFlaw where
  /-- The matrix is in another form, of which the name is given. -/
  | otherForm (form : String)
  /-- The row pointer has `got` entries in place of `expected`. -/
  | pointerLength (expected got : Nat)
  /-- The row pointer does not run from zero to the number of entries. -/
  | pointerEnds
  /-- The row pointer decreases somewhere. -/
  | pointerOrder
  /-- A column index is negative or not below the number of columns. -/
  | columnRange (cols : Nat)
  deriving DecidableEq, Repr

/-- The cause that ends an operation without a result. -/
inductive Fault (α : Type) where
  /-- A value that has to be given is left out. -/
  | absent
  /-- A term is asked for by a word that names no kind, or by none. -/
  | unknownKind (name : Option String)
  /-- The scale of a term is not positive. -/
  | scaleNotPositive (scale : α)
  /-- A penalty to install is not positive. -/
  | penaltyNotPositive (penalty : α)
  /-- A list of terms and a vector differ in length. -/
  | termCount
  /-- Two vectors, or a matrix and a vector, do not fit each other. -/
  | lengths
  /-- Arrays are no compressed row layout. -/
  | layout (flaw : LayoutFlaw)
  /-- Data denote no array of the shape asked for, or the array would be too long. -/
  | malformedArray
  /-- There are `got` observations for `rows` rows. -/
  | observationCount (got rows : Nat)
  /-- There are `got` row terms for `rows` rows. -/
  | rowTermCount (got rows : Nat)
  /-- There are `got` column terms for `cols` columns. -/
  | columnTermCount (got cols : Nat)
  /-- The starting vectors have other lengths than these. -/
  | startLengths (cols rows : Nat)
  /-- The top of a schedule is not positive. -/
  | degenerate (lamMax : α)
  /-- A schedule has no entry. -/
  | penaltyCount (count : Int)
  /-- The ratio of a schedule is not between zero and one. -/
  | scheduleRatio (ratio : α)
  /-- The ratio in a path configuration is not between zero and one. -/
  | configRatio (ratio : α)
  /-- The logarithm of a number that is not positive. -/
  | logarithm
  /-- A number is too large for its type. -/
  | overflow
  /-- A schedule of `count` entries is asked for the entry `index`. -/
  | stepRange (index : Int) (count : Nat)
  /-- The tolerance of the convergence test is negative. -/
  | tolerance (tol : α)
  /-- A word names no policy for failed solves, or there is none. -/
  | failurePolicy (name : Option String)
  /-- A time limit is negative. -/
  | timeLimit (limit : α)
  /-- A limit on the number of steps is below one. -/
  | stepLimit (limit : Int)
  /-- The penalty parameter of an engine is not positive. -/
  | penaltyParameter (rho : α)
  /-- A tolerance of an engine is negative. -/
  | engineTolerances
  /-- An iteration cap is below one. -/
  | iterationLimit (limit : Int)
  /-- A word names no solver. -/
  | unknownSolver (name : String)
  /-- A matrix that has to be factored has no usable pivot. -/
  | singular
  /-- A guess has an entry that is not a number. -/
  | guessNotNumber
  /-- A model that has to be minimised has data that are not finite. -/
  | modelNotFinite
  /-- An engine did not solve a step and the path is set to stop there. -/
  | solverFailure (step : Nat) (lam : α) (status : Status)
  /-- Cross-validation with fewer than two folds. -/
  | foldCount (count : Int)
  /-- The rows cannot be split into that many folds with that seed. -/
  | unsplittable
  /-- A prediction before any fit. -/
  | notFitted
  /-- A random matrix of a negative size. -/
  | negativeSize
  /-- A range of values that ends below its start. -/
  | valueRange (low high : α)
  /-- More positions than an integer draw can choose from. -/
  | drawRange
  /-- A negative seed. -/
  | negativeSeed
  /-- A prepared answer is asked for where none is prepared. -/
  | unprepared
  /-- A timed function raised this text. -/
  | raised (text : String)

/-- A number that is not refused for being below one is positive. -/
theorem Fault.toNat_pos {n : Int} (h : ¬ n < 1) : 0 < n.toNat := by omega

/-- A value that has to be given. -/
def Fault.required {α β : Type} : Option β → Except (Fault α) β
  | some b => .ok b
  | none => .error .absent

end RegPath
