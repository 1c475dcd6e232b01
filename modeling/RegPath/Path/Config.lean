import RegPath.Fault
import RegPath.Scalar

namespace RegPath.Path

/-!
# Path configurations

* `Policy` — what a driver does about a step that its engine did not solve;
* `Parameters` — a configuration as it is asked for, with the defaults;
* `Config`, `Parameters.accept` — the accepted configurations.
-/

/-- What to do about a step that was not solved. -/
inductive Policy where
  /-- Keep the iterate and record the status. -/
  | keep
  /-- Break off with a fault. -/
  | stop
  deriving DecidableEq, Repr

/-- The word for a policy. -/
def Policy.name : Policy → String
  | keep => "continue"
  | stop => "raise"

/-- The policy that a word stands for. -/
def Policy.ofName? (s : String) : Option Policy := [keep, stop].find? fun p => p.name = s

variable {α : Type} [Scalar α]

/-- A configuration as it is asked for.  Only the two limits may be missing. -/
structure Parameters (α : Type) [Scalar α] where
  /-- Length of the schedule. -/
  count : Option Int := some 100
  /-- Last penalty as a fraction of the first. -/
  ratio : Option α := some (Scalar.ratio 1 100)
  /-- Relative tolerance of the convergence test. -/
  tol : Option α := some (Scalar.ratio 1 1000)
  /-- Whether each step starts from the last one. -/
  warmStart : Bool := true
  /-- Whether the path may end when two iterates agree. -/
  earlyStop : Bool := true
  /-- The name of a policy. -/
  policy : Option String := some Policy.keep.name
  /-- Time limit for the whole path. -/
  maxTime : Option α := none
  /-- Limit on the number of steps. -/
  maxSteps : Option Int := none

/-- An accepted configuration. -/
structure Config (α : Type) [Scalar α] where
  /-- Length of the schedule. -/
  count : Nat
  /-- Last penalty as a fraction of the first. -/
  ratio : α
  /-- Relative tolerance of the convergence test. -/
  tol : α
  /-- Whether each step starts from the last one. -/
  warmStart : Bool
  /-- Whether the path may end when two iterates agree. -/
  earlyStop : Bool
  /-- What to do about a step that was not solved. -/
  policy : Policy
  /-- Time limit for the whole path. -/
  maxTime : Option α
  /-- Limit on the number of steps. -/
  maxSteps : Option Nat
  /-- The schedule has an entry. -/
  count_pos : 0 < count
  /-- The fraction is proper. -/
  ratio_mem : 0 < ratio ∧ ratio < 1
  /-- The tolerance is not negative. -/
  tol_nonneg : ¬ tol < 0
  /-- The time limit is not negative. -/
  maxTime_nonneg : ∀ t ∈ maxTime, ¬ t < 0
  /-- The limit on the steps allows one. -/
  maxSteps_pos : ∀ k ∈ maxSteps, 0 < k

/-- Accepts a configuration or names the first part of it that is missing or out of range. -/
def Parameters.accept (p : Parameters α) : Except (Fault α) (Config α) := do
  let count ← Fault.required p.count
  if hc : count < 1 then .error (.penaltyCount count) else
  let ratio ← Fault.required p.ratio
  if hr : ¬ (0 < ratio ∧ ratio < 1) then .error (.configRatio ratio) else
  let tol ← Fault.required p.tol
  if ht : tol < 0 then .error (.tolerance tol) else
  match p.policy.bind Policy.ofName? with
  | none => .error (.failurePolicy p.policy)
  | some policy =>
    match hl : p.maxTime.filter fun t => decide (t < 0) with
    | some t => .error (.timeLimit t)
    | none =>
      match hs : p.maxSteps.filter fun k => decide (k < 1) with
      | some k => .error (.stepLimit k)
      | none => .ok {
          count := count.toNat
          ratio
          tol
          warmStart := p.warmStart
          earlyStop := p.earlyStop
          policy
          maxTime := p.maxTime
          maxSteps := p.maxSteps.map Int.toNat
          count_pos := Fault.toNat_pos hc
          ratio_mem := Scalar.proper_of_not_not hr
          tol_nonneg := ht
          maxTime_nonneg := by
            intro t h hn
            rw [Option.mem_def.1 h] at hl
            simp [Option.filter, hn] at hl
          maxSteps_pos := by
            intro k h
            obtain ⟨k', hk', rfl⟩ := Option.map_eq_some_iff.1 (Option.mem_def.1 h)
            rw [hk'] at hs
            simp [Option.filter] at hs
            omega }

end RegPath.Path
