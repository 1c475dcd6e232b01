import RegPath.Decimal.Shortest
import RegPath.Event

namespace RegPath

/-!
# The wording of events

One line for each event.  Numbers have six places in scientific form, limits three in fixed form;
the top of a schedule that cannot be used is shown in its shortest form.  A line of a timed
function is indented by one tabulator for each function around it.
-/

namespace Event

open Decimal

/-- The line for an event, in which `elapsed` stands for a measured time. -/
def text (elapsed : String) : Event Float → String
  | entered depth name => String.ofList (List.replicate depth '\t') ++ s!"Executing <{name}>"
  | left depth name =>
    String.ofList (List.replicate depth '\t')
      ++ s!"Function <{name}> execution time : {elapsed} seconds"
  | nothingToDo lamMax =>
    "lambda_max is " ++ Decimal.text lamMax ++ ": returning the zero solution without solving"
  | scheduled lamMax count last =>
    "lambda_max = " ++ scientific 6 lamMax ++ s!", {count} lambdas down to "
      ++ scientific 6 last
  | keptUnsolved step lam status =>
    s!"Step {step} (lambda = " ++ scientific 6 lam ++ s!"): solver returned {status.name}, "
      ++ "keeping its iterate"
  | stepped step lam nonzeros iterations =>
    s!"Step {step}: lambda = " ++ scientific 6 lam
      ++ s!", nnz = {nonzeros}, iterations = {iterations}"
  | deadline limit step =>
    "Path deadline of " ++ fixed 3 limit ++ s!" seconds reached after step {step}"
  | ended phase steps => s!"Path {phase.name} after {steps} steps in {elapsed} seconds"
  | factored size nonzeros =>
    s!"ADMMEngine: factorized {size} x {size} system (nnz = {nonzeros})"
  | iterated status iterations => s!"ADMMEngine: {status.name} after {iterations} iterations"
  | modelled rows cols => s!"CvxpyEngine: built problem with {rows} rows and {cols} columns"
  | unavailable solver =>
    s!"CvxpyEngine: {solver} failed: The solver {solver} is not installed."
  | abandoned solver =>
    s!"CvxpyEngine: {solver} failed: Solver '{solver}' failed. Try another solver, or solve with "
      ++ "verbose=True for more information."
  | allZero lamMax =>
    "lambda_max is " ++ Decimal.text lamMax ++ ": every lambda gives the zero solution"
  | chosen lam step error =>
    "Best lambda = " ++ scientific 6 lam ++ s!" (step {step}, cv test mse = "
      ++ scientific 6 error ++ ")"

end Event

end RegPath
