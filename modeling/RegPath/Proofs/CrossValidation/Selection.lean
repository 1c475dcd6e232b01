import RegPath.Proofs.Exact
import RegPath.Proofs.Path.Trail
import RegPath.CrossValidation.Fit

namespace RegPath.CrossValidation

/-!
# The chosen step

The mean errors of the folds are compared one after the other, and the first of the smallest ones is
chosen.  That needs two laws of the order, which hold for doubles as well: it is transitive, and any
two numbers can be compared.  An error that is not a number ends the search, and is chosen itself.

* `FirstMinimum` — the first of the smallest entries of a list;
* `FirstNotNumber`, `Chosen` — the first that is not a number, and what the search ends with;
* `argmin_chosen`, `Chosen.firstMinimum` — what is found in general, and if all entries are numbers;
* `getElem?_foldMeans` — the mean of the folds at a penalty.
-/

variable {α : Type} [Scalar α]

/-- The first of the smallest entries of a list stands at `k`. -/
structure FirstMinimum (l : List α) (k : Nat) (a : α) : Prop where
  /-- The entry. -/
  entry : l[k]? = some a
  /-- No entry is smaller. -/
  le : ∀ v ∈ l, a ≤ v
  /-- All entries before are larger. -/
  first : ∀ i v, i < k → l[i]? = some v → ¬ v ≤ a

namespace FirstMinimum

variable {l : List α} {k : Nat} {a v : α}

/-- An entry that is no smaller does not change the first minimum. -/
theorem concat_of_le (h : FirstMinimum l k a) (hle : a ≤ v) : FirstMinimum (l ++ [v]) k a := by
  have hk := (List.getElem?_eq_some_iff.1 h.entry).1
  constructor
  case entry => rw [List.getElem?_append_left hk, h.entry]
  case le =>
    intro u hu
    rcases List.mem_append.1 hu with hu | hu
    · exact h.le u hu
    · rw [List.mem_singleton.1 hu]
      exact hle
  case first =>
    intro i u hi hu
    rw [List.getElem?_append_left (by omega)] at hu
    exact h.first i u hi hu

/-- An entry that is smaller is the first minimum. -/
theorem concat_of_not_le (hord : Scalar.Ordered α) (h : FirstMinimum l k a)
    (ha : Scalar.IsNumber a) (hv : Scalar.IsNumber v) (hnot : ¬ a ≤ v) :
    FirstMinimum (l ++ [v]) l.length v := by
  have hva : v ≤ a := (hord.total a v ha hv).resolve_left hnot
  constructor
  case entry => exact List.getElem?_concat_length
  case le =>
    intro u hu
    rcases List.mem_append.1 hu with hu | hu
    · exact hord.trans v a u hva (h.le u hu)
    · rw [List.mem_singleton.1 hu]
      exact hv
  case first =>
    intro i u hi hu huv
    rw [List.getElem?_append_left hi] at hu
    exact hnot (hord.trans a u v (h.le u (List.mem_of_getElem? hu)) huv)

end FirstMinimum

/-- The first entry of a list that is not a number stands at `k`. -/
structure FirstNotNumber (l : List α) (k : Nat) (a : α) : Prop where
  /-- The entry. -/
  entry : l[k]? = some a
  /-- It is not a number. -/
  not_number : ¬ Scalar.IsNumber a
  /-- All entries before are numbers. -/
  before : ∀ i v, i < k → l[i]? = some v → Scalar.IsNumber v

/-- The entry that the search ends with. -/
inductive Chosen (l : List α) (k : Nat) (a : α) : Prop where
  /-- All entries are numbers, and it is the first of the smallest ones. -/
  | lowest (numbers : ∀ v ∈ l, Scalar.IsNumber v) (h : FirstMinimum l k a)
  /-- It is the first that is not a number. -/
  | notNumber (h : FirstNotNumber l k a)

/-- The entry is one of the list. -/
theorem Chosen.entry {l : List α} {k : Nat} {a : α} (h : Chosen l k a) : l[k]? = some a := by
  cases h with
  | lowest _ h => exact h.entry
  | notNumber h => exact h.entry

/-- It is a number only if all entries are. -/
theorem Chosen.isNumber_iff {l : List α} {k : Nat} {a : α} (h : Chosen l k a) :
    Scalar.IsNumber a ↔ ∀ v ∈ l, Scalar.IsNumber v := by
  constructor
  · intro ha
    cases h with
    | lowest numbers _ => exact numbers
    | notNumber h => exact absurd ha h.not_number
  · exact fun hnumbers => hnumbers a (List.mem_of_getElem? h.entry)

/-- A best entry that is not a number stays the best. -/
theorem argminFrom_of_not_number {a : α} (ha : ¬ Scalar.IsNumber a) (k : Nat)
    (rest : List (α × Nat)) : argminFrom a k rest = k := by
  cases rest with
  | nil => rfl
  | cons e rest => exact if_pos ha

/-- The search goes on from the first minimum of the entries before. -/
theorem argminFrom_chosen (hord : Scalar.Ordered α) (rest : List α) {l : List α} {k : Nat} {a : α}
    (h : FirstMinimum l k a) (hnumbers : ∀ v ∈ l, Scalar.IsNumber v)
    (hbounds : ∀ u, ∀ v ∈ rest, u ≤ v → Scalar.IsNumber v) :
    ∃ m, Chosen (l ++ rest) (argminFrom a k (rest.zipIdx l.length)) m := by
  induction rest generalizing l k a with
  | nil =>
    rw [List.append_nil]
    exact ⟨a, .lowest hnumbers h⟩
  | cons v rest ih =>
    have ha : Scalar.IsNumber a := hnumbers a (List.mem_of_getElem? h.entry)
    rw [List.zipIdx_cons, argminFrom, if_neg (not_not.2 ha)]
    by_cases hv : Scalar.IsNumber v
    · have hsplit : l ++ v :: rest = (l ++ [v]) ++ rest := by simp
      have hlen : l.length + 1 = (l ++ [v]).length := by simp
      have hnumbers' : ∀ u ∈ l ++ [v], Scalar.IsNumber u := by
        intro u hu
        rcases List.mem_append.1 hu with hu | hu
        · exact hnumbers u hu
        · rw [List.mem_singleton.1 hu]
          exact hv
      have hbounds' : ∀ u, ∀ w ∈ rest, u ≤ w → Scalar.IsNumber w :=
        fun u w hw => hbounds u w (List.mem_cons_of_mem v hw)
      rw [hsplit, hlen]
      -- The entry joins those before, and is the new minimum only if it is smaller.
      by_cases hle : a ≤ v
      · rw [if_pos hle]
        exact ih (h.concat_of_le hle) hnumbers' hbounds'
      · rw [if_neg hle]
        exact ih (h.concat_of_not_le hord ha hv hle) hnumbers' hbounds'
    · -- Nothing is smaller than what is not a number, and nothing replaces it.
      have hle : ¬ a ≤ v := fun hle => hv (hbounds a v List.mem_cons_self hle)
      rw [if_neg hle, argminFrom_of_not_number hv]
      refine ⟨v, .notNumber ⟨?_, hv, fun i u hi hu => ?_⟩⟩
      · rw [List.getElem?_append_right (Nat.le_refl _), Nat.sub_self, List.getElem?_cons_zero]
      · rw [List.getElem?_append_left hi] at hu
        exact hnumbers u (List.mem_of_getElem? hu)

/-- The first entry that is not a number is found, or else the first of the smallest ones. -/
theorem argmin_chosen (hord : Scalar.Ordered α) {l : List α} (hl : l ≠ [])
    (hbounds : ∀ u, ∀ v ∈ l, u ≤ v → Scalar.IsNumber v) :
    ∃ k m, argmin l = some k ∧ Chosen l k m := by
  cases l with
  | nil => exact absurd rfl hl
  | cons a rest =>
    by_cases ha : Scalar.IsNumber a
    · have hnumbers : ∀ v ∈ [a], Scalar.IsNumber v := by
        intro v hv
        rw [List.mem_singleton.1 hv]
        exact ha
      have hfirst : FirstMinimum [a] 0 a := by
        refine ⟨rfl, fun v hv => ?_, fun i v hi _ => absurd hi (Nat.not_lt_zero i)⟩
        rw [List.mem_singleton.1 hv]
        exact ha
      obtain ⟨m, hm⟩ := argminFrom_chosen hord rest hfirst hnumbers
        fun u v hv => hbounds u v (List.mem_cons_of_mem a hv)
      exact ⟨_, m, rfl, hm⟩
    · refine ⟨0, a, congrArg some (argminFrom_of_not_number ha 0 _), .notNumber ?_⟩
      exact ⟨rfl, ha, fun i v hi _ => absurd hi (Nat.not_lt_zero i)⟩

/-! ### Means over the folds -/

/-- There is a mean for each penalty. -/
@[simp] theorem length_foldMeans (n : Nat) (errors : List (List α)) :
    (foldMeans n errors).length = n := by
  rw [foldMeans, List.length_map, List.length_range]

/-- The mean of the folds at a penalty, if all of them have an error there. -/
theorem getElem?_foldMeans {n i : Nat} {errors : List (List α)} (hi : i < n) :
    (foldMeans n errors)[i]? = some (Vec.mean (errors.map fun e => e[i]?.getD 0)) := by
  rw [foldMeans, List.getElem?_map, List.getElem?_range hi, Option.map_some]

end RegPath.CrossValidation
