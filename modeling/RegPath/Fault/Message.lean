import RegPath.Decimal.Shortest
import RegPath.Text.Quoted
import RegPath.Fault

namespace RegPath

/-!
# The wording of faults

One sentence per cause, for the causes that have one.  Numbers appear in their shortest form,
the penalty of a failed step with six places, and words between quotes.

* `LayoutFlaw.message`;
* `Fault.message?` — `none` for the causes without a wording of their own.
-/

/-- The sentence for a flaw of a layout. -/
def LayoutFlaw.message : LayoutFlaw → String
  | otherForm form => s!"Expected a CSR matrix, got {form}"
  | pointerLength expected got => s!"Row pointer must have length {expected}, got {got}"
  | pointerEnds => "Row pointer must start at 0 and end at nnz"
  | pointerOrder => "Row pointer must be non-decreasing"
  | columnRange cols => s!"Column indices must lie in [0, {cols})"

namespace Fault

open Decimal Text

/-- A word between quotes, or what stands for a missing one. -/
def word : Option String → String
  | some name => quoted name
  | none => "None"

/-- The sentence for a cause. -/
def message? : Fault Float → Option String
  | absent => none
  | unknownKind name => some (word name ++ " is not a valid FunctionKind")
  | scaleNotPositive scale => some ("scale must be positive, got " ++ text scale)
  | penaltyNotPositive penalty => some ("lambda must be positive, got " ++ text penalty)
  | termCount => none
  | lengths => none
  | layout flaw => some flaw.message
  | malformedArray => none
  | observationCount got rows => some s!"b has length {got}, expected {rows} rows"
  | rowTermCount got rows => some s!"{got} row descriptors for {rows} rows"
  | columnTermCount got cols => some s!"{got} column descriptors for {cols} columns"
  | startLengths cols rows => some s!"x / y must have shapes ({cols},) / ({rows},)"
  | degenerate lamMax =>
    some ("lambda_max must be positive to build a schedule, got " ++ text lamMax)
  | penaltyCount count => some s!"n_lambda must be >= 1, got {count}"
  | scheduleRatio ratio => some ("min_ratio must lie in (0, 1), got " ++ text ratio)
  | configRatio ratio => some ("lambda_min_ratio must lie in (0, 1), got " ++ text ratio)
  | logarithm => none
  | overflow => none
  | stepRange index count => some s!"step {index} out of range for a schedule of {count}"
  | tolerance tol => some ("tol must be non-negative, got " ++ text tol)
  | failurePolicy name =>
    some ("on_solver_failure must be one of ('continue', 'raise'), got " ++ word name)
  | timeLimit limit => some ("max_time must be non-negative, got " ++ text limit)
  | stepLimit limit => some s!"max_steps must be >= 1, got {limit}"
  | penaltyParameter rho => some ("rho must be positive, got " ++ text rho)
  | engineTolerances => some "Tolerances must be non-negative."
  | iterationLimit limit => some s!"max_iter must be >= 1, got {limit}"
  | unknownSolver name => some ("Unknown CVXPy solver: " ++ quoted name)
  | singular => none
  | guessNotNumber => none
  | modelNotFinite => none
  | solverFailure step lam status =>
    some (s!"Solver failed at step {step} (lambda = " ++ scientific 6 lam ++ ") with status "
      ++ quoted status.name)
  | foldCount count => some s!"n_k_fold must be >= 2, got {count}"
  | unsplittable => none
  | notFitted => some "LassoPathCV is not fitted yet; call fit first."
  | negativeSize => some "rows, cols and approx_nnz must be non-negative"
  | valueRange low high =>
    some ("Invalid value range (" ++ text low ++ ", " ++ text high ++ ")")
  | drawRange => none
  | negativeSeed => none
  | unprepared => none
  | raised text => some text

end Fault

end RegPath
