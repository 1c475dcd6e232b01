import Mathlib.Analysis.SpecialFunctions.Pow.Real
import RegPath.Proofs.Exact
import RegPath.Schedule

namespace RegPath.Schedule

/-!
# Accepted schedules

* `make_ok` — the parts of an accepted schedule are the given ones;
* `entry?_eq_of_grid` — the list of all entries holds each of them;
* `exists_make_of_logs`, `exists_grid_of_entries` — what it takes to accept and to list a schedule;
* `level`, `entry?_eq_level` — in exact arithmetic the entries are those of a geometric sequence;
* `exists_make`, `exists_entry?`, `entry?_zero`, `entry?_lt` — every schedule is accepted there, and
  its entries are positive numbers that fall from its top on.
-/

variable {α : Type} [Scalar α]

/-- The parts of an accepted schedule are the given ones. -/
theorem make_ok {top : α} {count : Int} {ratio : α} {s : Schedule α}
    (h : make top count ratio = .ok s) :
    s.top = top ∧ (s.count : Int) = count ∧ s.ratio = ratio := by
  unfold make at h
  split at h
  · cases h
  · split at h
    · cases h
    · rename_i hcount
      split at h
      · cases h
      · split at h
        · cases h
          exact ⟨rfl, Int.toNat_of_nonneg (by omega), rfl⟩
        · cases h

/-- What is computed for all elements of a list is computed for each. -/
theorem map_eq_of_mapM {β γ : Type} {f : β → Option γ} {l : List β} {r : List γ}
    (h : l.mapM f = some r) : l.map f = r.map some := by
  induction l generalizing r with
  | nil =>
    rw [List.mapM_nil] at h
    obtain rfl := Option.some.inj h
    rfl
  | cons a l ih =>
    rw [List.mapM_cons] at h
    obtain ⟨b, hb, h⟩ := Option.bind_eq_some_iff.1 h
    obtain ⟨bs, hbs, h⟩ := Option.bind_eq_some_iff.1 h
    obtain rfl := Option.some.inj h
    rw [List.map_cons, List.map_cons, hb, ih hbs]

/-- What can be computed for each element of a list is computed for all of them. -/
theorem mapM_eq_some_map {β γ : Type} {f : β → Option γ} {g : β → γ} {l : List β}
    (h : ∀ a ∈ l, f a = some (g a)) : l.mapM f = some (l.map g) := by
  induction l with
  | nil => rfl
  | cons a l ih =>
    rw [List.mapM_cons, h a List.mem_cons_self, ih fun b hb => h b (List.mem_cons_of_mem _ hb)]
    rfl

/-- All entries, in order. -/
theorem map_entry?_eq_of_grid {s : Schedule α} {lambdas : List α} (h : s.grid = .ok lambdas) :
    (List.range s.count).map s.entry? = lambdas.map some := by
  unfold grid at h
  cases hindexed : s.indexed? with
  | none =>
    rw [hindexed] at h
    cases h
  | some entries =>
    rw [hindexed] at h
    obtain rfl := Except.ok.inj h
    have hmap := congrArg (List.map (Option.map Prod.snd)) (map_eq_of_mapM hindexed)
    simpa [List.map_map, Function.comp_def] using hmap

/-- The list of all entries has one for each index. -/
theorem length_of_grid {s : Schedule α} {lambdas : List α} (h : s.grid = .ok lambdas) :
    lambdas.length = s.count := by
  have hlen := congrArg List.length (map_entry?_eq_of_grid h)
  rw [List.length_map, List.length_map, List.length_range] at hlen
  exact hlen.symm

/-- The list of all entries holds each of them. -/
theorem entry?_eq_of_grid {s : Schedule α} {lambdas : List α} (h : s.grid = .ok lambdas) {i : Nat}
    (hi : i < s.count) : s.entry? i = lambdas[i]? := by
  have hget := congrArg (·[i]?) (map_entry?_eq_of_grid h)
  have hlen : i < lambdas.length := by rw [length_of_grid h]; exact hi
  simp only [List.getElem?_map, List.getElem?_range hi, Option.map_some,
    List.getElem?_eq_getElem hlen] at hget ⊢
  exact Option.some.inj hget

/-- A size that can be reported is reported with the last entry, if all entries can be listed. -/
theorem ends_of_grid {s : Schedule α} {lambdas : List α} (hsize : s.count ≤ largestSize)
    (h : s.grid = .ok lambdas) : ∃ e, s.ends = .ok e := by
  have hpos := s.count_pos
  have hlast : s.count - 1 < lambdas.length := by
    rw [length_of_grid h]
    omega
  have hget : s.get (s.count - 1 : Nat) = .ok lambdas[s.count - 1] := by
    rw [get_of_lt s (by omega), entry?_eq_of_grid h (by omega), List.getElem?_eq_getElem hlast]
    rfl
  exact ⟨(s.count, lambdas[s.count - 1]), by simp only [ends, size, if_pos hsize, hget]⟩

/-- A top, a size and a ratio in range make a schedule, if both ends have a logarithm. -/
theorem exists_make_of_logs {top ratio a b : α} {count : Nat} (htop : 0 < top) (hcount : 0 < count)
    (hratio : 0 < ratio ∧ ratio < 1) (ha : Scalar.log? top = some a)
    (hb : Scalar.log? (ratio * top) = some b) : ∃ s, make top (count : Int) ratio = .ok s := by
  unfold make
  rw [dif_neg (not_not.2 htop), dif_neg (by omega), dif_neg (not_not.2 hratio)]
  split
  · exact ⟨_, rfl⟩
  · rename_i hnone
    exact absurd hb (hnone _ _ ha)

/-- All entries with their indices. -/
theorem indexed?_eq {s : Schedule α} {lam : Nat → α} (h : ∀ i < s.count, s.entry? i = some (lam i)) :
    s.indexed? = some ((List.range s.count).map fun i => (i, lam i)) := by
  refine mapM_eq_some_map fun i hi => ?_
  rw [h i (List.mem_range.1 hi)]
  rfl

/-- All entries. -/
theorem grid_eq {s : Schedule α} {lam : Nat → α} (h : ∀ i < s.count, s.entry? i = some (lam i)) :
    s.grid = .ok ((List.range s.count).map lam) := by
  simp only [grid, indexed?_eq h, List.map_map, Function.comp_def]

/-- All entries can be listed, if there is one for each index. -/
theorem exists_grid_of_entries {s : Schedule α} (h : ∀ i, ∃ lam, s.entry? i = some lam) :
    ∃ lambdas, s.grid = .ok lambdas := by
  choose lam hlam using h
  exact ⟨_, grid_eq fun i _ => hlam i⟩

/-! ### Exact arithmetic -/

/-- A top, a size and a ratio in range make a schedule. -/
theorem exists_make {top : ℝ} {count : ℕ} {ratio : ℝ} (htop : 0 < top) (hcount : 0 < count)
    (hratio : 0 < ratio ∧ ratio < 1) : ∃ s, make top (count : ℤ) ratio = .ok s :=
  exists_make_of_logs htop hcount hratio (Scalar.log?_of_pos htop)
    (Scalar.log?_of_pos (mul_pos hratio.1 htop))

/-- Every entry is a positive number. -/
theorem exists_entry? (s : Schedule ℝ) (i : ℕ) : ∃ lam, s.entry? i = some lam ∧ 0 < lam := by
  unfold entry?
  split
  · exact ⟨s.top, rfl, s.top_pos⟩
  · exact ⟨Real.exp (s.logEntry i), rfl, Real.exp_pos _⟩

/-- Entry `i` of the geometric sequence with `count` entries from `top` to `ratio * top`.  The only
    entry of a sequence of one is its top. -/
noncomputable def level (top ratio : ℝ) (count i : ℕ) : ℝ :=
  top * ratio ^ ((i : ℝ) / ((count - 1 : ℕ) : ℝ))

section Levels

variable {top ratio : ℝ} {count i j : ℕ}

/-- The sequence starts at its top. -/
@[simp] theorem level_zero (top ratio : ℝ) (count : ℕ) : level top ratio count 0 = top := by
  rw [level, Nat.cast_zero, zero_div, Real.rpow_zero, mul_one]

/-- Every entry is positive. -/
theorem level_pos (htop : 0 < top) (hratio : 0 < ratio) (count i : ℕ) :
    0 < level top ratio count i :=
  mul_pos htop (Real.rpow_pos_of_pos hratio _)

/-- Of two entries the later one is smaller. -/
theorem level_lt_level (htop : 0 < top) (hratio : 0 < ratio ∧ ratio < 1) (hij : i < j)
    (hj : j < count) : level top ratio count j < level top ratio count i := by
  have hcount : (0 : ℝ) < ((count - 1 : ℕ) : ℝ) := Nat.cast_pos.2 (by omega)
  have hexponent : (i : ℝ) / ((count - 1 : ℕ) : ℝ) < (j : ℝ) / ((count - 1 : ℕ) : ℝ) :=
    div_lt_div_of_pos_right (Nat.cast_lt.2 hij) hcount
  exact mul_lt_mul_of_pos_left
    (Real.rpow_lt_rpow_of_exponent_gt hratio.1 hratio.2 hexponent) htop

end Levels

/-- The logarithm of the first entry. -/
theorem logTop_real (s : Schedule ℝ) : s.logTop = Real.log s.top :=
  Option.some.inj (s.logTop_eq.symm.trans (Scalar.log?_of_pos s.top_pos))

/-- The logarithm of the last entry. -/
theorem logBottom_real (s : Schedule ℝ) : s.logBottom = Real.log s.ratio + Real.log s.top := by
  have hpos := mul_pos s.ratio_mem.1 s.top_pos
  rw [Option.some.inj (s.logBottom_eq.symm.trans (Scalar.log?_of_pos hpos)),
    Real.log_mul (ne_of_gt s.ratio_mem.1) (ne_of_gt s.top_pos)]

/-- The mean of the two logarithms is the logarithm of the geometric sequence. -/
theorem logEntry_real (s : Schedule ℝ) {i : ℕ} (hi : i < s.count) (hcount : s.count ≠ 1) :
    s.logEntry i =
      Real.log s.top + Real.log s.ratio * ((i : ℝ) / ((s.count - 1 : ℕ) : ℝ)) := by
  have hne : ((s.count - 1 : ℕ) : ℝ) ≠ 0 := Nat.cast_ne_zero.2 (by omega)
  have hcast : ((s.count - 1 - i : ℕ) : ℝ) = ((s.count - 1 : ℕ) : ℝ) - (i : ℝ) :=
    Nat.cast_sub (by omega)
  rw [logEntry, logTop_real, logBottom_real, hcast]
  field_simp
  ring

/-- The entries are those of the geometric sequence. -/
theorem entry?_eq_level (s : Schedule ℝ) {i : ℕ} (hi : i < s.count) :
    s.entry? i = some (level s.top s.ratio s.count i) := by
  unfold entry?
  split
  · rename_i hcount
    obtain rfl : i = 0 := by omega
    rw [level_zero]
  · rename_i hcount
    rw [Scalar.exp?_real, s.logEntry_real hi hcount, Real.exp_add, Real.exp_log s.top_pos, level,
      Real.rpow_def_of_pos s.ratio_mem.1]

/-- The first entry is the top. -/
theorem entry?_zero (s : Schedule ℝ) : s.entry? 0 = some s.top := by
  rw [s.entry?_eq_level s.count_pos, level_zero]

/-- Of two entries the later one is smaller. -/
theorem entry?_lt {s : Schedule ℝ} {i j : ℕ} {lam lam' : ℝ} (hij : i < j) (hj : j < s.count)
    (h : s.entry? i = some lam) (h' : s.entry? j = some lam') : lam' < lam := by
  rw [s.entry?_eq_level (lt_trans hij hj)] at h
  rw [s.entry?_eq_level hj] at h'
  obtain rfl := Option.some.inj h
  obtain rfl := Option.some.inj h'
  exact level_lt_level s.top_pos s.ratio_mem hij hj

/-- All entries can be listed. -/
theorem exists_grid (s : Schedule ℝ) : ∃ lambdas, s.grid = .ok lambdas :=
  exists_grid_of_entries fun i => (s.exists_entry? i).imp fun _ h => h.1

/-- All entries are positive. -/
theorem pos_of_grid {s : Schedule ℝ} {lambdas : List ℝ} (h : s.grid = .ok lambdas) :
    ∀ lam ∈ lambdas, 0 < lam := by
  intro lam hlam
  obtain ⟨i, hi, rfl⟩ := List.getElem_of_mem hlam
  obtain ⟨lam, hentry, hpos⟩ := s.exists_entry? i
  have hlt : i < s.count := by rw [← length_of_grid h]; exact hi
  rw [entry?_eq_of_grid h hlt, List.getElem?_eq_getElem hi] at hentry
  rw [Option.some.inj hentry]
  exact hpos

/-- A size that can be reported is reported with the last entry. -/
theorem exists_ends {s : Schedule ℝ} (h : s.count ≤ largestSize) : ∃ e, s.ends = .ok e := by
  obtain ⟨lambdas, hgrid⟩ := s.exists_grid
  exact ends_of_grid h hgrid

end RegPath.Schedule
