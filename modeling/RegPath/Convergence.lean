import RegPath.Vec

namespace RegPath

/-!
# The test of convergence

Two successive iterates agree if their largest difference is at most a fraction of the absolute
sum of the newer one.

* `largestChange?` — the largest difference, `none` if the vectors cannot be paired;
* `converged?` — the test.  It is not strict, so that two equal zero vectors agree.
-/

variable {α : Type} [Scalar α]

/-- The largest difference `max |xⱼ - x'ⱼ|`, zero for an empty `x`. -/
def largestChange? (x previous : List α) : Option α :=
  if x.isEmpty then some 0
  else match Vec.pair? (· - ·) x previous with
    | none => none
    -- A largest entry of nothing, when a single entry meets an empty vector.
    | some [] => none
    | some d => some (Vec.normInf d)

/-- Vectors of one length differ by the largest entry of their difference. -/
theorem largestChange?_of_length {x previous : List α} (h : x.length = previous.length) :
    largestChange? x previous = some (Vec.normInf (Vec.sub x previous)) := by
  cases x with
  | nil => rfl
  | cons a x =>
    cases previous with
    | nil => cases h
    | cons b previous =>
      rw [largestChange?, if_neg (by simp), Vec.pair?_of_length_eq _ h]
      rfl

/-- Whether `max |xⱼ - x'ⱼ| ≤ tol · Σ |xⱼ|`. -/
def converged? (tol : α) (x previous : List α) : Option Bool :=
  (largestChange? x previous).map fun d => decide (d ≤ tol * Vec.norm1 x)

end RegPath
