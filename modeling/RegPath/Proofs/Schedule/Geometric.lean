import RegPath.Proofs.Schedule
import RegPath.Term

namespace RegPath.Schedule

/-!
# Geometric schedules

In exact arithmetic a schedule is a geometric sequence: its entries fall by one factor from its top
to the given fraction of it, and each of them can be set as a penalty.

* `factor`, `level_succ` — the factor from an entry to the next;
* `level_last`, `level_sq`, `level_mem` — the last entry, three neighbours, and the range of all;
* `IsGeometric`, `isGeometric_make` — what is read off a schedule by index, in turn and as a whole.
-/

/-- The factor from each entry to the next. -/
noncomputable def factor (ratio : ℝ) (count : ℕ) : ℝ :=
  ratio ^ (1 / ((count - 1 : ℕ) : ℝ))

section Levels

variable {top ratio : ℝ} {count i : ℕ}

/-- An entry is the one before it times the factor. -/
theorem level_succ (hratio : 0 < ratio) (top : ℝ) (count i : ℕ) :
    level top ratio count (i + 1) = level top ratio count i * factor ratio count := by
  rw [level, level, factor, Nat.cast_succ, add_div, Real.rpow_add hratio, mul_assoc]

/-- The last entry of several is the given fraction of the top. -/
theorem level_last (hcount : 1 < count) (top ratio : ℝ) :
    level top ratio count (count - 1) = ratio * top := by
  have hne : ((count - 1 : ℕ) : ℝ) ≠ 0 := Nat.cast_ne_zero.2 (by omega)
  rw [level, div_self hne, Real.rpow_one, mul_comm]

/-- Of three neighbours the middle one is the geometric mean. -/
theorem level_sq (hratio : 0 < ratio) (top : ℝ) (count i : ℕ) :
    level top ratio count (i + 1) ^ 2 =
      level top ratio count i * level top ratio count (i + 2) := by
  rw [level_succ hratio top count (i + 1), level_succ hratio top count i]
  ring

/-- No entry is above the top or below the given fraction of it. -/
theorem level_mem (htop : 0 < top) (hratio : 0 < ratio ∧ ratio < 1) (hi : i < count) :
    level top ratio count i ∈ Set.Icc (ratio * top) top := by
  -- A power of a proper fraction falls with its exponent, and the exponents go from zero to one.
  have hexponent : (i : ℝ) / ((count - 1 : ℕ) : ℝ) ≤ 1 :=
    div_le_one_of_le₀ (Nat.cast_le.2 (by omega)) (Nat.cast_nonneg _)
  have hlow : ratio ≤ ratio ^ ((i : ℝ) / ((count - 1 : ℕ) : ℝ)) := by
    have hle := Real.rpow_le_rpow_of_exponent_ge hratio.1 hratio.2.le hexponent
    rwa [Real.rpow_one] at hle
  have hhigh : ratio ^ ((i : ℝ) / ((count - 1 : ℕ) : ℝ)) ≤ 1 :=
    Real.rpow_le_one hratio.1.le hratio.2.le (div_nonneg (Nat.cast_nonneg _) (Nat.cast_nonneg _))
  constructor
  · rw [level, mul_comm ratio top]
    exact mul_le_mul_of_nonneg_left hlow htop.le
  · exact mul_le_of_le_one_right htop.le hhigh

end Levels

/-- The schedule gives the entries `lam` of a geometric sequence of `count` entries that falls from
    `top` to `ratio * top`, and each of them can be set as a penalty. -/
structure IsGeometric (s : Schedule ℝ) (top ratio : ℝ) (count : ℕ) (lam : ℕ → ℝ) : Prop where
  /-- Every index below the size gives its entry. -/
  get : ∀ i < count, s.get i = .ok (lam i)
  /-- The first entry is the top. -/
  first : lam 0 = top
  /-- The last entry of several is the given fraction of the top. -/
  last : 2 ≤ count → lam (count - 1) = ratio * top
  /-- Later entries are smaller. -/
  falls : ∀ i j, i < j → j < count → lam j < lam i
  /-- The factor from an entry to the next is everywhere the same. -/
  common : ∀ i, i + 1 < count → lam (i + 1) = lam i * factor ratio count
  /-- The square of an entry is the product of its neighbours. -/
  proportion : ∀ i, i + 2 < count → lam (i + 1) ^ 2 = lam i * lam (i + 2)
  /-- All entries lie between the last and the first. -/
  range : ∀ i < count, lam i ∈ Set.Icc (ratio * top) top
  /-- Every entry is positive, and becomes the scale of all terms when it is set as a penalty. -/
  penalty : ∀ i < count, ∃ h : 0 < lam i, ∀ ts : List (Term ℝ),
    Term.withPenalty? ts (lam i) = .ok (ts.map fun t => t.withScale (lam i) h)
  /-- The entries come in turn with their indices. -/
  turn : s.indexed? = some ((List.range count).map fun i => (i, lam i))
  /-- The list of all entries holds the same numbers. -/
  whole : s.grid = .ok ((List.range count).map lam)

/-- Every top, size and ratio in range make a schedule, and it is a geometric sequence. -/
theorem isGeometric_make {top ratio : ℝ} {count : ℕ} (htop : 0 < top) (hcount : 1 ≤ count)
    (hratio : 0 < ratio ∧ ratio < 1) :
    ∃ s, make top (count : ℤ) ratio = .ok s ∧
      s.IsGeometric top ratio count (level top ratio count) := by
  obtain ⟨s, hs⟩ := exists_make htop hcount hratio
  obtain ⟨rfl, hcast, rfl⟩ := make_ok hs
  obtain rfl : s.count = count := Nat.cast_injective hcast
  have hentry : ∀ i < s.count, s.entry? i = some (level s.top s.ratio s.count i) :=
    fun i hi => s.entry?_eq_level hi
  refine ⟨s, hs, ?_⟩
  constructor
  case get =>
    intro i hi
    rw [get_of_lt s hi, hentry i hi]
    rfl
  case first => exact level_zero s.top s.ratio s.count
  case last => exact fun h => level_last h s.top s.ratio
  case falls => exact fun i j hij hj => level_lt_level htop hratio hij hj
  case common => exact fun i _ => level_succ hratio.1 s.top s.count i
  case proportion => exact fun i _ => level_sq hratio.1 s.top s.count i
  case range => exact fun i hi => level_mem htop hratio hi
  case penalty =>
    intro i _
    have hpos := level_pos htop hratio.1 s.count i
    exact ⟨hpos, fun ts => Term.withPenalty?_of_pos ts hpos⟩
  case turn => exact indexed?_eq hentry
  case whole => exact grid_eq hentry

/-- Four entries from three down to a half of it. -/
theorem isGeometric_make_four :
    (0 : ℝ) < 3 ∧ (1 / 2 : ℝ) < 1 ∧
      ∃ s, make (3 : ℝ) (4 : ℕ) (1 / 2) = .ok s ∧
        s.IsGeometric 3 (1 / 2) 4 (level 3 (1 / 2) 4) := by
  have htop : (0 : ℝ) < 3 := by norm_num
  have hratio : (0 : ℝ) < 1 / 2 ∧ (1 / 2 : ℝ) < 1 := by norm_num
  exact ⟨htop, hratio.2, isGeometric_make htop (by decide) hratio⟩

end RegPath.Schedule
