import RegPath.Proofs.CrossValidation.Alignment
import RegPath.Proofs.CrossValidation.Refit
import RegPath.Proofs.CrossValidation.Store

namespace RegPath.CrossValidation

/-!
# Workers do not change a fit

Folds on workers share one store, and their turns may fall in any order.  Still their errors are
gathered by position and not by the order in which they are done, and each is what the fold returns
alone.  So whatever is fitted, and the fault if there is one, are those of the folds one after the
other.

* `mapM_eq_error` — of several faults the first counts;
* `Fold.collect_gather` — what a closed workshop returns;
* `Selector.ending_workers`, `Selector.ending_of_outcomes` — what a fit makes of it;
* `Selector.TurnFree`, `Selector.turnFree` — the turns of the workers do not matter.
-/

variable {α : Type} [Scalar α] {σ : Type}

open RegPath.Path (Handing)

/-! ### Folds -/

/-- What is computed for all elements of a list fails with the fault of the first that has one. -/
theorem mapM_eq_error {β γ ε : Type} {f : β → Except ε γ} {l : List β} {i : Nat} {a : β} {e : ε}
    (ha : l[i]? = some a) (he : f a = .error e)
    (hbefore : ∀ j < i, ∀ a, l[j]? = some a → ∃ v, f a = .ok v) : l.mapM f = .error e := by
  induction l generalizing i with
  | nil => cases ha
  | cons c l ih =>
    rw [List.mapM_cons]
    cases i with
    | zero =>
      obtain rfl : c = a := Option.some.inj ha
      rw [he]
      rfl
    | succ i =>
      obtain ⟨v, hv⟩ := hbefore 0 (Nat.succ_pos i) c rfl
      rw [hv, ih ha fun j hj => hbefore (j + 1) (Nat.succ_lt_succ hj)]
      rfl

namespace Fold

variable {F : Nat → Factory α σ} {s : Settings α} {A : RowMatrix α} {b : List α} {top : α}
  {splits : List Split} {handing : Handing}

/-- Of several folds that fail the first counts. -/
theorem outcomes_eq_error {i : Nat} {split : Split} {f : Fault α} (hi : splits[i]? = some split)
    (hf : (start (F i) s A b top split).finish.outcome = .error f)
    (hbefore : ∀ j < i, ∀ split, splits[j]? = some split →
      ∃ e, (start (F j) s A b top split).finish.outcome = .ok e) :
    outcomes F s A b top splits = .error f := by
  refine mapM_eq_error (i := i) (a := start (F i) s A b top split) ?_ hf fun j hj t ht => ?_
  · rw [startAll, List.getElem?_mapIdx, hi]
    rfl
  · rw [startAll, List.getElem?_mapIdx] at ht
    obtain ⟨split', hsplit', rfl⟩ := Option.map_eq_some_iff.1 ht
    exact hbefore j hj split' hsplit'

/-- A workshop whose folds are all done returns what each of them returns alone, in the order of the
    splits. -/
theorem collect_gather {w : Workshop Split (Store α σ) (Seat α σ) (FoldEnd α)}
    (h : Workshop.Sound (separation F s A b top handing) splits w) (hclosed : w.Closed) :
    (collect (w.gather splits.length)).1 = outcomes F s A b top splits := by
  rw [h.gather_eq hclosed, collect_outcome, outcomes, startAll]
  have hends : (splits.mapIdx fun i split => (start (F i) s A b top split).finish) =
      (splits.mapIdx fun i split => start (F i) s A b top split).map finish :=
    List.ext_getElem? fun i => by
      simp only [List.getElem?_map, List.getElem?_mapIdx, Option.map_map]
      rfl
  rw [hends, List.mapM_map]
  rfl

end Fold

/-! ### Fits -/

/-- What a fit leaves, apart from its events: nothing or a fault, and what has been fitted. -/
def Fit.ending (r : Fit α) : Except (Fault α) Unit × Selector α := (r.outcome, r.selector)

namespace Selector

variable {split : Nat → Except (Fault α) (List Split)} {F : Nat → Factory α σ} {s : Settings α}
  {form : MatrixForm α} {A : RowMatrix α} {b : List α} {top : α} {lambdas : List α}
  {splits : List Split}

/-- The number of workers and their choices do not change a fit. -/
theorem ending_workers (workers : Int) (choices choices' : List Nat) (t : Selector α) :
    (t.fitBy split F { s with workers := workers } choices' form b).ending =
      (t.fitBy split F s choices form b).ending := by
  cases hA : form.read with
  | error f => simp only [fitBy, hA, Fit.ending]
  | ok A =>
    have hrows : (t.fitRows split F { s with workers := workers } choices' A b).outcome =
          (t.fitRows split F s choices A b).outcome ∧
        (t.fitRows split F { s with workers := workers } choices' A b).selector =
          (t.fitRows split F s choices A b).selector :=
      fitRows_congr choices choices' t rfl rfl (fun _ => rfl) (fun _ _ => rfl) fun _ => rfl
    simp only [fitBy, hA, Fit.ending, hrows]

/-- What the folds return, wherever it comes from, is all that the rest of a fit needs of them. -/
theorem ending_of_outcomes (hA : form.read = .ok A) (htop : lambdaMax A b = .ok top)
    (hpos : ¬ top ≤ 0) (hlayOut : layOut split s A.height top = .ok (lambdas, splits))
    {folds : Except (Fault α) (List (FoldErrors α)) × List (Event α)}
    (hfolds : folds.1 = Fold.outcomes F s A b top splits) (choices : List Nat) (t : Selector α) :
    (t.fitFolds (F splits.length) s A b lambdas folds).ending =
      (t.fitBy split F s choices form b).ending := by
  rw [← outcome_runFolds s.workers choices] at hfolds
  obtain ⟨houtcome, hselector⟩ := fitFolds_congr t lambdas hfolds
    (rfl : (fullPath (F splits.length) s A b).1 = (fullPath (F splits.length) s A b).1)
  simp only [fitBy, hA, fitRows, htop, if_neg hpos, hlayOut, fitSplits_eq, Fit.ending, houtcome,
    hselector]

end Selector

/-! ### Turns -/

/-- The workshop `w` is what a sequence of turns of the workers makes of the folds and the store. -/
def Fold.WorkedOn (F : Nat → Factory α σ) (s : Settings α) (A : RowMatrix α) (b : List α) (top : α)
    (splits : List Split) (handing : Handing) (store : Store α σ) (turns : List Turn)
    (w : Workshop Split (Store α σ) (Seat α σ) (FoldEnd α)) : Prop :=
  (Workshop.opening splits store).play? (sharing F s A b top handing) s.workers.toNat turns = some w

namespace Selector

/-- The turns of the workers do not matter to a fit.  Here `top` is the threshold of the data, and
    `lambdas` and `splits` are laid out for it; folds one after the other are the fit with one
    worker. -/
structure TurnFree (split : Nat → Except (Fault α) (List Split)) (F : Nat → Factory α σ)
    (s : Settings α) (t : Selector α) (form : MatrixForm α) (A : RowMatrix α) (b : List α) (top : α)
    (lambdas : List α) (splits : List Split) (handing : Handing) (store : Store α σ) : Prop where
  /-- The turns come to an end. -/
  bounded : ∃ n, ∀ turns w, Fold.WorkedOn F s A b top splits handing store turns w →
    turns.length ≤ n
  /-- Until all folds are done there is a turn. -/
  progress : ∀ turns w, Fold.WorkedOn F s A b top splits handing store turns w → ¬ w.Closed →
    ∃ turn w', w.turn? (Fold.sharing F s A b top handing) s.workers.toNat turn = some w'
  /-- Then their errors are those of the folds one after the other. -/
  errors : ∀ turns w, Fold.WorkedOn F s A b top splits handing store turns w → w.Closed →
    (collect (w.gather splits.length)).1 = (inTurn (Fold.startAll F s A b top splits)).1
  /-- So is what is fitted from them, or the fault. -/
  fitted : ∀ turns w, Fold.WorkedOn F s A b top splits handing store turns w → w.Closed →
    (t.fitFolds (F splits.length) s A b lambdas (collect (w.gather splits.length))).ending =
      (t.fitBy split F { s with workers := 1 } [] form b).ending
  /-- So it is for folds whose steps are chosen, without a store. -/
  chosen : ∀ choices, (runFolds s.workers choices (Fold.startAll F s A b top splits)).1 =
      (inTurn (Fold.startAll F s A b top splits)).1 ∧
    (t.fitBy split F s choices form b).ending =
      (t.fitBy split F { s with workers := 1 } [] form b).ending
  /-- If folds fail, the fit ends with the fault of the first, and nothing is fitted. -/
  fault : ∀ i split' f, splits[i]? = some split' →
    (Fold.start (F i) s A b top split').finish.outcome = .error f →
    (∀ j < i, ∀ split', splits[j]? = some split' →
      ∃ e, (Fold.start (F j) s A b top split').finish.outcome = .ok e) →
    (t.fitBy split F { s with workers := 1 } [] form b).ending = (.error f, t)

/-- With a positive threshold, any splits and any number of workers: whichever turns the workers
    take, step by step of the folds, and in whatever order the folds are done, the fit is the one of
    the folds one after the other. -/
theorem turnFree {split : Nat → Except (Fault α) (List Split)} {F : Nat → Factory α σ}
    {s : Settings α} {form : MatrixForm α} {A : RowMatrix α} {b : List α} {top : α}
    {lambdas : List α} {splits : List Split} (hA : form.read = .ok A)
    (htop : lambdaMax A b = .ok top) (hpos : ¬ top ≤ 0)
    (hlayOut : layOut split s A.height top = .ok (lambdas, splits)) (hworkers : 1 ≤ s.workers)
    (handing : Handing) (store : Store α σ) (t : Selector α) :
    TurnFree split F s t form A b top lambdas splits handing store := by
  have hsound : ∀ turns w, Fold.WorkedOn F s A b top splits handing store turns w →
      Workshop.Sound (Fold.separation F s A b top handing) splits w ∧ turns.length ≤
        (Workshop.opening splits store).turnsLeft (Fold.separation F s A b top handing) := by
    intro turns w hw
    obtain ⟨hsound, hle⟩ := (Workshop.sound_opening _ splits store).play? hw
    exact ⟨hsound, by omega⟩
  have hinTurn : (inTurn (Fold.startAll F s A b top splits)).1 =
      Fold.outcomes F s A b top splits := inTurn_outcome _
  constructor
  case bounded => exact ⟨_, fun turns w hw => (hsound turns w hw).2⟩
  case progress =>
    exact fun turns w _ hopen => Workshop.exists_turn (by omega) hopen
  case errors =>
    intro turns w hw hclosed
    rw [hinTurn, Fold.collect_gather (hsound turns w hw).1 hclosed]
  case fitted =>
    intro turns w hw hclosed
    rw [ending_workers 1 [] [] t]
    exact ending_of_outcomes hA htop hpos hlayOut
      (Fold.collect_gather (hsound turns w hw).1 hclosed) [] t
  case chosen =>
    intro choices
    rw [hinTurn]
    exact ⟨outcome_runFolds .., (ending_workers 1 choices [] t).symm⟩
  case fault =>
    intro i split' f hi hf hbefore
    have hfolds : ((.error f, []) : Except (Fault α) (List (FoldErrors α)) × List (Event α)).1 =
        Fold.outcomes F s A b top splits := (Fold.outcomes_eq_error hi hf hbefore).symm
    rw [ending_workers 1 [] [] t, ← ending_of_outcomes hA htop hpos hlayOut hfolds [] t]
    rfl

end Selector

/-- Each of two rows is left out once. -/
def rowSplits : List Split := [⟨[1], [0]⟩, ⟨[0], [1]⟩]

/-- The second fold gets no engine. -/
noncomputable def oneEngine : ℕ → Factory ℝ Unit
  | 1 => .error .absent
  | _ => zeroFactory

/-- Of two folds on two workers the second one fails, and is done before the first one has made a
    step.  The fit ends with its fault. -/
theorem Selector.turnFree_column :
    ∃ lambdas, Selector.TurnFree (fun _ => .ok rowSplits) oneEngine pairSettings .new
        (.compressed columnLayout) column [1, 0] 1 lambdas rowSplits .inPlace .empty ∧
      (∃ turns w, Fold.WorkedOn oneEngine pairSettings column [1, 0] 1 rowSplits .inPlace .empty
        ([.enter, .enter, .leave 1] ++ turns) w ∧ w.Closed) ∧
      (Selector.new.fitBy (fun _ => .ok rowSplits) oneEngine { pairSettings with workers := 1 } []
        (.compressed columnLayout) [1, 0]).ending = (.error .absent, .new) := by
  obtain ⟨schedule, lambdas, haccepted⟩ := pairSettings_accepted one_pos
  have hfree : Selector.TurnFree (fun _ => .ok rowSplits) oneEngine pairSettings .new
      (.compressed columnLayout) column [1, 0] 1 lambdas rowSplits .inPlace .empty :=
    Selector.turnFree read_column lambdaMax_oneZero (not_le.2 one_pos)
      (Selector.layOut_ok.2 ⟨schedule, haccepted.make, haccepted.grid, rfl⟩) (by decide) _ _ _
  refine ⟨lambdas, hfree, ?_, hfree.fault 1 ⟨[0], [1]⟩ .absent rfl rfl fun j hj split hsplit => ?_⟩
  · obtain ⟨v, hv⟩ : ∃ v, Fold.WorkedOn oneEngine pairSettings column [1, 0] 1 rowSplits .inPlace
        .empty [.enter, .enter, .leave 1] v := ⟨_, rfl⟩
    obtain ⟨hsound, -⟩ := (Workshop.sound_opening
      (Fold.separation oneEngine pairSettings column [1, 0] 1 .inPlace) rowSplits .empty).play? hv
    have hworkers : 1 ≤ pairSettings.workers.toNat := by decide
    obtain ⟨turns, w, hplay, hclosed⟩ := hsound.exists_closed hworkers
    refine ⟨turns, w, ?_, hclosed⟩
    rw [Fold.WorkedOn, Workshop.play?_append]
    exact (congrArg (Option.bind · _) hv).trans hplay
  · obtain rfl : j = 0 := by omega
    obtain rfl : (⟨[1], [0]⟩ : Split) = split := Option.some.inj hsplit
    obtain ⟨e, he, -⟩ := Fold.exists_errors haccepted (not_le.2 one_pos)
      (zeroFactory_serves (Fold.problem column [1, 0] ⟨[1], [0]⟩))
    exact ⟨e, he⟩

end RegPath.CrossValidation
