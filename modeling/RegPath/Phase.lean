namespace RegPath

/-!
# Phases of a path

* `Phase` — where a path stands, or how it ended;
* `Phase.name` — the word that reports use.
-/

/-- Where a path driver stands. -/
inductive Phase where
  /-- No path has been begun. -/
  | notStarted
  /-- A path is being computed, or was broken off by a fault. -/
  | stepping
  /-- Two successive iterates agreed. -/
  | converged
  /-- The schedule, or the part of it that was asked for, is done. -/
  | exhausted
  /-- The time limit was reached. -/
  | timedOut
  /-- There was nothing to compute. -/
  | degenerate
  deriving DecidableEq, Repr

/-- The word for a phase in reports. -/
def Phase.name : Phase → String
  | notStarted => "not_started"
  | stepping => "stepping"
  | converged => "converged"
  | exhausted => "exhausted"
  | timedOut => "timed_out"
  | degenerate => "degenerate"

end RegPath
