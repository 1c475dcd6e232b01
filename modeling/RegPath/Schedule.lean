import RegPath.Fault
import RegPath.Scalar

namespace RegPath

/-!
# Schedules

A geometric sequence of penalties, from its top down to a given fraction of it.  Each entry is
computed from its index alone, as the exponential of a weighted mean of two logarithms.

* `Schedule`, `Schedule.make` — the accepted schedules, and `Schedule.ofGiven` where a part may be
  left out;
* `Schedule.size` — the number of entries, as long as it can be reported;
* `Schedule.entry?` — an entry, `none` if it is too large for a number;
* `Schedule.get`, `Schedule.ends`, `Schedule.grid` — access by index, the size with the last entry,
  and all entries.
-/

/-- A geometric sequence of penalties. -/
structure Schedule (α : Type) [Scalar α] where
  /-- The first entry. -/
  top : α
  /-- Number of entries. -/
  count : Nat
  /-- The last entry as a fraction of the first. -/
  ratio : α
  /-- Logarithm of the first entry. -/
  logTop : α
  /-- Logarithm of the last entry. -/
  logBottom : α
  /-- The first entry is positive. -/
  top_pos : 0 < top
  /-- There is an entry. -/
  count_pos : 0 < count
  /-- The fraction is proper. -/
  ratio_mem : 0 < ratio ∧ ratio < 1
  /-- The first logarithm is what it says. -/
  logTop_eq : Scalar.log? top = some logTop
  /-- The second logarithm is what it says. -/
  logBottom_eq : Scalar.log? (ratio * top) = some logBottom

namespace Schedule

variable {α : Type} [Scalar α]

/-- The schedule with `count` entries from `top` down to `ratio * top`. -/
def make (top : α) (count : Int) (ratio : α) : Except (Fault α) (Schedule α) :=
  if ht : ¬ 0 < top then .error (.degenerate top)
  else if hc : count < 1 then .error (.penaltyCount count)
  else if hr : ¬ (0 < ratio ∧ ratio < 1) then .error (.scheduleRatio ratio)
  -- The product may be too small to be told from zero although both factors are positive.
  else match hl : Scalar.log? top, hb : Scalar.log? (ratio * top) with
    | some logTop, some logBottom => .ok {
        top, ratio, logTop, logBottom
        count := count.toNat
        top_pos := Decidable.of_not_not ht
        count_pos := Fault.toNat_pos hc
        ratio_mem := Scalar.proper_of_not_not hr
        logTop_eq := hl
        logBottom_eq := hb }
    | _, _ => .error .logarithm

/-- The schedule of a top, with a number of entries and a ratio that may be left out.  Each part is
    missed when its turn to be judged comes. -/
def ofGiven (top : α) (count : Option Int) (ratio : Option α) : Except (Fault α) (Schedule α) :=
  if ¬ 0 < top then .error (.degenerate top)
  else match count with
    | none => .error .absent
    | some count =>
      if count < 1 then .error (.penaltyCount count)
      else match ratio with
        | none => .error .absent
        | some ratio => make top count ratio

/-- Nothing is left out of a schedule that is made from all of its parts. -/
theorem ofGiven_some (top : α) (count : Int) (ratio : α) :
    ofGiven top (some count) (some ratio) = make top count ratio := by
  unfold ofGiven make
  split
  · rfl
  · simp only
    split <;> rfl

/-- The largest size that is reported: that of a signed word of 64 bits. -/
def largestSize : Nat := Nat.pow 2 63 - 1

/-- The number of entries, unless it is too large to be reported. -/
def size (s : Schedule α) : Except (Fault α) Nat :=
  if s.count ≤ largestSize then .ok s.count else .error .overflow

/-- The logarithm of entry `i` of a schedule with at least two entries. -/
def logEntry (s : Schedule α) (i : Nat) : α :=
  (s.logTop * ((s.count - 1 - i : Nat) : α) + s.logBottom * (i : α)) / ((s.count - 1 : Nat) : α)

/-- Entry `i`; the only entry of a schedule of one is its top. -/
def entry? (s : Schedule α) (i : Nat) : Option α :=
  if s.count = 1 then some s.top else Scalar.exp? (s.logEntry i)

/-- Entry `i`, or why there is none. -/
def get (s : Schedule α) (i : Int) : Except (Fault α) α :=
  if 0 ≤ i ∧ i < s.count then (s.entry? i.toNat).elim (.error .overflow) .ok
  else .error (.stepRange i s.count)

/-- An index in range gives the entry unless that is too large. -/
theorem get_of_lt (s : Schedule α) {i : Nat} (h : i < s.count) :
    s.get i = (s.entry? i).elim (.error .overflow) .ok := by
  rw [get, if_pos ⟨Int.natCast_nonneg i, Int.ofNat_lt.mpr h⟩, Int.toNat_natCast]

/-- The number of entries and the last of them. -/
def ends (s : Schedule α) : Except (Fault α) (Nat × α) :=
  match s.size with
  | .error f => .error f
  | .ok n => match s.get (n - 1 : Nat) with
    | .error f => .error f
    | .ok last => .ok (n, last)

/-- All entries with their indices, or `none` if one of them is too large. -/
def indexed? (s : Schedule α) : Option (List (Nat × α)) :=
  (List.range s.count).mapM fun i => (s.entry? i).map fun lam => (i, lam)

/-- All entries. -/
def grid (s : Schedule α) : Except (Fault α) (List α) :=
  match s.indexed? with
  | some entries => .ok (entries.map Prod.snd)
  | none => .error .overflow

end Schedule

end RegPath
