import RegPath.Proofs.CrossValidation.Folds
import RegPath.Proofs.CrossValidation.Pool

namespace RegPath.CrossValidation

/-!
# Fits that succeed

A fit succeeds in one of two ways.  Without a positive penalty it learns the zero solution and
leaves the path as it was; else all folds and the path on the full data return, and it learns
everything anew.  Which of them it is, and what is learnt, depends on the data alone.

* `Selector.Learns` — what a fit of data can make of what was fitted before;
* `Selector.fitFolds_congr`, `fitSplits_congr`, `fitRows_congr` — what a fit depends on;
* `Selector.fitBy_of_learns`, `Selector.learns_of_fitBy` — a fit succeeds exactly if it learns;
* `Selector.Overfull`, `Selector.fitBy_of_overfull` — the fit that breaks off between assignments;
* `Fold.exists_of_outcomes`, `Fold.exists_outcomes` — the errors of all folds, fold by fold.
-/

variable {α : Type} [Scalar α] {σ : Type}

/-! ### All folds -/

namespace Fold

/-- The errors of all folds, or the fault of the first that has one. -/
def outcomes (F : Nat → Factory α σ) (s : Settings α) (A : RowMatrix α) (b : List α) (top : α)
    (splits : List Split) : Except (Fault α) (List (FoldErrors α)) :=
  (startAll F s A b top splits).mapM fun t => t.finish.outcome

variable {F : Nat → Factory α σ} {s : Settings α} {A : RowMatrix α} {b : List α} {top : α}
  {splits : List Split}

/-- Every fold is on its own, and what they return is gathered in the order of the splits. -/
theorem outcomes_eq_mapM : outcomes F s A b top splits =
    (splits.mapIdx fun i split => (start (F i) s A b top split).finish.outcome).mapM id := by
  have hreturns : (startAll F s A b top splits).map (fun t => t.finish.outcome) =
      splits.mapIdx fun i split => (start (F i) s A b top split).finish.outcome := by
    refine List.ext_getElem? fun i => ?_
    simp only [startAll, List.getElem?_map, List.getElem?_mapIdx, Option.map_map]
    rfl
  rw [← hreturns, List.mapM_map]
  rfl

/-- Folds that return the same, each on its own, return the same together. -/
theorem outcomes_congr {τ : Type} {F' : Nat → Factory α τ} {s' : Settings α} {A' : RowMatrix α}
    {b' : List α} {top' : α}
    (h : ∀ i split, (start (F' i) s' A' b' top' split).finish.outcome =
      (start (F i) s A b top split).finish.outcome) :
    outcomes F' s' A' b' top' splits = outcomes F s A b top splits := by
  rw [outcomes_eq_mapM, outcomes_eq_mapM]
  exact congrArg (fun f => (splits.mapIdx f).mapM id) (funext fun i => funext (h i))

/-- The errors of all folds are those of each. -/
theorem exists_of_outcomes {errors : List (FoldErrors α)}
    (h : outcomes F s A b top splits = .ok errors) {i : Nat} {e : FoldErrors α}
    (he : errors[i]? = some e) :
    ∃ split, splits[i]? = some split ∧ (start (F i) s A b top split).finish.outcome = .ok e := by
  have hi := congrArg (fun l => l[i]?) ((mapM_eq_ok_iff _ _ _).1 h)
  simp only [startAll, List.getElem?_map, List.getElem?_mapIdx, he, Option.map_some,
    Option.map_map] at hi
  obtain ⟨split, hsplit, hok⟩ := Option.map_eq_some_iff.1 hi
  exact ⟨split, hsplit, hok⟩

/-- There are errors for each fold. -/
theorem length_of_outcomes {errors : List (FoldErrors α)}
    (h : outcomes F s A b top splits = .ok errors) : errors.length = splits.length := by
  have hlen := congrArg List.length ((mapM_eq_ok_iff _ _ _).1 h)
  simp only [startAll, List.length_map, List.length_mapIdx] at hlen
  exact hlen.symm

/-- If each fold has its errors, then all of them have. -/
theorem exists_outcomes (h : ∀ (i : Nat) (split : Split), splits[i]? = some split →
    ∃ e, (start (F i) s A b top split).finish.outcome = .ok e) :
    ∃ errors, outcomes F s A b top splits = .ok errors := by
  have hall : ∀ folds : List (Fold α σ), (∀ t ∈ folds, ∃ e, t.finish.outcome = .ok e) →
      ∃ errors, (folds.mapM fun t => t.finish.outcome) = .ok errors := by
    intro folds hfolds
    induction folds with
    | nil => exact ⟨[], rfl⟩
    | cons t folds ih =>
      obtain ⟨e, he⟩ := hfolds t List.mem_cons_self
      obtain ⟨errors, herrors⟩ := ih fun u hu => hfolds u (List.mem_cons_of_mem t hu)
      refine ⟨e :: errors, ?_⟩
      rw [List.mapM_cons, he, herrors]
      rfl
  refine hall _ fun t ht => ?_
  obtain ⟨i, hi⟩ := List.getElem?_of_mem ht
  rw [startAll, List.getElem?_mapIdx] at hi
  obtain ⟨split, hsplit, rfl⟩ := Option.map_eq_some_iff.1 hi
  exact h i split hsplit

end Fold

/-! ### Two ways to succeed -/

namespace Selector

variable {split : Nat → Except (Fault α) (List Split)} {F : Nat → Factory α σ} {s : Settings α}
  {form : MatrixForm α} {b : List α}

/-- What a successful fit of the data makes of what was fitted before. -/
inductive Learns (split : Nat → Except (Fault α) (List Split)) (F : Nat → Factory α σ)
    (s : Settings α) (form : MatrixForm α) (b : List α) (t : Selector α) : Selector α → Prop where
  /-- No penalty is positive, and the path is left as it was. -/
  | degenerate {A : RowMatrix α} {top : α} (hA : form.read = .ok A)
      (htop : lambdaMax A b = .ok top) (hle : top ≤ 0) (hroom : Scalar.HasRoom α A.cols) :
      Learns split F s form b t (t.allZero A.cols top).selector
  /-- All folds and the path on the full data return. -/
  | regular {A : RowMatrix α} {top : α} {lambdas : List α} {splits : List Split}
      {errors : List (FoldErrors α)} {path : Path.Result α} (hA : form.read = .ok A)
      (htop : lambdaMax A b = .ok top) (hpos : ¬ top ≤ 0)
      (hlayOut : layOut split s A.height top = .ok (lambdas, splits))
      (herrors : Fold.outcomes F s A b top splits = .ok errors)
      (hpath : (fullPath (F splits.length) s A b).1 = .ok path) :
      Learns split F s form b t (conclude lambdas errors path []).selector

/-- No penalty is positive, and there is no room for zeros as coefficients. -/
def Overfull (A : RowMatrix α) (b : List α) : Prop :=
  ∃ top, lambdaMax A b = .ok top ∧ top ≤ 0 ∧ ¬ Scalar.HasRoom α A.cols

/-- A fit is laid out if its schedule can be made and listed and its rows can be split. -/
theorem layOut_ok {height : Nat} {top : α} {lambdas : List α} {splits : List Split} :
    layOut split s height top = .ok (lambdas, splits) ↔ ∃ schedule,
      Schedule.make top s.count s.ratio = .ok schedule ∧ schedule.grid = .ok lambdas ∧
        split height = .ok splits := by
  unfold layOut
  cases Schedule.make top s.count s.ratio with
  | error f => simp
  | ok schedule =>
    cases hgrid : schedule.grid with
    | error f => simp [hgrid]
    | ok grid =>
      cases split height with
      | error f => simp [hgrid]
      | ok splits' => simp [hgrid]

/-- On any number of workers the folds give their errors. -/
theorem outcome_runFolds (workers : Int) (choices : List Nat) (A : RowMatrix α) (b : List α)
    (top : α) (splits : List Split) :
    (runFolds workers choices (Fold.startAll F s A b top splits)).1 =
      Fold.outcomes F s A b top splits :=
  runFolds_outcome workers choices _

section FitSplits

variable {A : RowMatrix α} {top : α} {splits : List Split}

/-- If the folds and the path return, the fit on the folds concludes from them. -/
theorem fitSplits_of_ok (choices : List Nat) (t : Selector α) (lambdas : List α)
    {errors : List (FoldErrors α)} {path : Path.Result α}
    (herrors : Fold.outcomes F s A b top splits = .ok errors)
    (hpath : (fullPath (F splits.length) s A b).1 = .ok path) :
    ∃ events, fitSplits F s choices t A b top lambdas splits =
      conclude lambdas errors path events := by
  have hfolds := outcome_runFolds (F := F) (s := s) s.workers choices A b top splits
  rw [herrors] at hfolds
  unfold fitSplits
  cases hrun : runFolds s.workers choices (Fold.startAll F s A b top splits) with
  | mk outcome events =>
    obtain rfl : outcome = .ok errors := by rw [← hfolds, hrun]
    cases hfull : fullPath (F splits.length) s A b with
    | mk full more =>
      obtain rfl : full = .ok path := by rw [← hpath, hfull]
      exact ⟨events ++ more, rfl⟩

/-- If the fit on the folds succeeds, the folds and the path return. -/
theorem exists_of_fitSplits {choices : List Nat} {t : Selector α} {lambdas : List α}
    (h : (fitSplits F s choices t A b top lambdas splits).outcome = .ok ()) :
    ∃ errors path, Fold.outcomes F s A b top splits = .ok errors ∧
      (fullPath (F splits.length) s A b).1 = .ok path := by
  have hfolds := outcome_runFolds (F := F) (s := s) s.workers choices A b top splits
  unfold fitSplits at h
  cases hrun : runFolds s.workers choices (Fold.startAll F s A b top splits) with
  | mk outcome events =>
    rw [hrun] at h hfolds
    cases outcome with
    | error f => cases h
    | ok errors =>
      cases hfull : fullPath (F splits.length) s A b with
      | mk full more =>
        rw [hfull] at h
        cases full with
        | error f => cases h
        | ok path => exact ⟨errors, path, hfolds.symm, rfl⟩

/-- The fit from what the folds have returned depends on that and on what the path returns, and on
    nothing else. -/
theorem fitFolds_congr {τ : Type} {F : Factory α σ} {F' : Factory α τ} {s' : Settings α}
    {A' : RowMatrix α} {b' : List α} (t : Selector α) (lambdas : List α)
    {folds folds' : Except (Fault α) (List (FoldErrors α)) × List (Event α)}
    (hfolds : folds'.1 = folds.1) (hpath : (fullPath F' s' A' b').1 = (fullPath F s A b).1) :
    (t.fitFolds F' s' A' b' lambdas folds').outcome =
        (t.fitFolds F s A b lambdas folds).outcome ∧
      (t.fitFolds F' s' A' b' lambdas folds').selector =
        (t.fitFolds F s A b lambdas folds).selector := by
  unfold fitFolds
  generalize fullPath F s A b = full at hpath ⊢
  generalize fullPath F' s' A' b' = full' at hpath ⊢
  obtain ⟨outcome, events⟩ := folds
  obtain ⟨path, more⟩ := full
  obtain ⟨outcome', events'⟩ := folds'
  obtain ⟨path', more'⟩ := full'
  obtain rfl : outcome' = outcome := hfolds
  obtain rfl : path' = path := hpath
  cases outcome' with
  | error f => exact ⟨rfl, rfl⟩
  | ok errors =>
    cases path' with
    | error f => exact ⟨rfl, rfl⟩
    | ok path => exact ⟨rfl, rfl⟩

/-- So does the fit on given folds.  Workers and choices do not matter, nor where the engines come
    from. -/
theorem fitSplits_congr {τ : Type} {F' : Nat → Factory α τ} {s' : Settings α} {A' : RowMatrix α}
    {b' : List α} (choices choices' : List Nat) (t : Selector α) (lambdas : List α)
    (hfolds : Fold.outcomes F' s' A' b' top splits = Fold.outcomes F s A b top splits)
    (hpath : (fullPath (F' splits.length) s' A' b').1 = (fullPath (F splits.length) s A b).1) :
    (fitSplits F' s' choices' t A' b' top lambdas splits).outcome =
        (fitSplits F s choices t A b top lambdas splits).outcome ∧
      (fitSplits F' s' choices' t A' b' top lambdas splits).selector =
        (fitSplits F s choices t A b top lambdas splits).selector := by
  rw [← outcome_runFolds s'.workers choices', ← outcome_runFolds s.workers choices] at hfolds
  rw [fitSplits_eq, fitSplits_eq]
  exact fitFolds_congr t lambdas hfolds hpath

end FitSplits

/-- The fit of rows depends on the threshold, on what is laid out for it, and on what the folds and
    the path return. -/
theorem fitRows_congr {τ : Type} {split' : Nat → Except (Fault α) (List Split)}
    {F' : Nat → Factory α τ} {s' : Settings α} {A A' : RowMatrix α} {b' : List α}
    (choices choices' : List Nat) (t : Selector α) (hcols : A'.cols = A.cols)
    (htop : lambdaMax A' b' = lambdaMax A b)
    (hlayOut : ∀ top, layOut split' s' A'.height top = layOut split s A.height top)
    (hfolds : ∀ top splits,
      Fold.outcomes F' s' A' b' top splits = Fold.outcomes F s A b top splits)
    (hpath : ∀ n, (fullPath (F' n) s' A' b').1 = (fullPath (F n) s A b).1) :
    (t.fitRows split' F' s' choices' A' b').outcome =
        (t.fitRows split F s choices A b).outcome ∧
      (t.fitRows split' F' s' choices' A' b').selector =
        (t.fitRows split F s choices A b).selector := by
  unfold fitRows
  rw [htop, hcols]
  cases lambdaMax A b with
  | error f => exact ⟨rfl, rfl⟩
  | ok top =>
    by_cases hle : top ≤ 0
    · simp only [if_pos hle, and_self]
    · simp only [if_neg hle, hlayOut]
      cases layOut split s A.height top with
      | error f => exact ⟨rfl, rfl⟩
      | ok laid =>
        exact fitSplits_congr choices choices' t laid.1 (hfolds top laid.2)
          (hpath laid.2.length)

/-- A fit that learns succeeds. -/
theorem fitBy_of_learns {t u : Selector α} (h : Learns split F s form b t u)
    (choices : List Nat) :
    (t.fitBy split F s choices form b).outcome = .ok () ∧
      (t.fitBy split F s choices form b).selector = u := by
  cases h with
  | degenerate hA htop hle hroom =>
    simp only [fitBy, hA, fitRows, htop, if_pos hle, fitZero, if_pos hroom]
    exact ⟨rfl, trivial⟩
  | @regular A top lambdas splits errors path hA htop hpos hlayOut herrors hpath =>
    obtain ⟨events, hfit⟩ := fitSplits_of_ok choices t lambdas herrors hpath
    simp only [fitBy, hA, fitRows, htop, if_neg hpos, hlayOut, hfit]
    exact ⟨rfl, rfl⟩

/-- A fit that has no room for its coefficients has assigned the penalty when it breaks off. -/
theorem fitBy_of_overfull {A : RowMatrix α} (hA : form.read = .ok A) (h : Overfull A b)
    (choices : List Nat) (t : Selector α) :
    (t.fitBy split F s choices form b).outcome = .error .malformedArray ∧
      (t.fitBy split F s choices form b).selector = { t with best := some 0 } := by
  obtain ⟨top, htop, hle, hroom⟩ := h
  simp only [fitBy, hA, fitRows, htop, if_pos hle, fitZero, if_neg hroom]
  exact ⟨rfl, rfl⟩

/-- A fit that succeeds learns. -/
theorem learns_of_fitBy {t : Selector α} {choices : List Nat}
    (h : (t.fitBy split F s choices form b).outcome = .ok ()) :
    Learns split F s form b t (t.fitBy split F s choices form b).selector := by
  -- The guards of a fit in its order; each that fails ends it with a fault, against `h`.
  cases hA : form.read with
  | error f =>
    simp only [fitBy, hA] at h
    cases h
  | ok A =>
    simp only [fitBy, hA, fitRows] at h ⊢
    cases htop : lambdaMax A b with
    | error f =>
      simp only [htop] at h
      cases h
    | ok top =>
      simp only [htop] at h ⊢
      by_cases hle : top ≤ 0
      · simp only [if_pos hle, fitZero] at h ⊢
        by_cases hroom : Scalar.HasRoom α A.cols
        · simp only [if_pos hroom] at h ⊢
          exact .degenerate hA htop hle hroom
        · simp only [if_neg hroom, noRoom] at h
          cases h
      · simp only [if_neg hle] at h ⊢
        cases hlayOut : layOut split s A.height top with
        | error f =>
          simp only [hlayOut] at h
          cases h
        | ok laid =>
          obtain ⟨lambdas, splits⟩ := laid
          simp only [hlayOut] at h ⊢
          obtain ⟨errors, path, herrors, hpath⟩ := exists_of_fitSplits h
          obtain ⟨events, hfit⟩ := fitSplits_of_ok choices t lambdas herrors hpath
          rw [hfit]
          exact .regular hA htop hle hlayOut herrors hpath

end Selector

end RegPath.CrossValidation
