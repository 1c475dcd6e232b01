namespace RegPath

/-!
# How a solve ended

* `Status` — the four ways in which an engine reports its answer;
* `Status.ok` — the only one that counts as solved;
* `Status.name` — the word that reports use.
-/

/-- The status of an engine's answer. -/
inductive Status where
  /-- The stopping test was met. -/
  | success
  /-- The iteration cap was reached first. -/
  | maxIter
  /-- An answer of reduced accuracy. -/
  | inaccurate
  /-- No usable answer. -/
  | failed
  deriving DecidableEq, Repr

namespace Status

/-- Only a success counts as solved. -/
def ok (s : Status) : Bool := s = .success

/-- The word for a status in reports. -/
def name : Status → String
  | success => "success"
  | maxIter => "max_iter"
  | inaccurate => "inaccurate"
  | failed => "failed"

/-- The status that a word stands for. -/
def ofName? (s : String) : Option Status :=
  [success, maxIter, inaccurate, failed].find? fun t => t.name = s

/-- Every status is found by its name. -/
theorem ofName?_name (s : Status) : ofName? s.name = some s := by
  cases s <;> decide

/-- Solved means success and nothing else. -/
@[simp] theorem ok_iff (s : Status) : s.ok = true ↔ s = .success := by simp [ok]

end Status

end RegPath
