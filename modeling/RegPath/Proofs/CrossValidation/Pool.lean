import RegPath.Proofs.Path.Moves
import RegPath.CrossValidation.Fit

namespace RegPath.CrossValidation

/-!
# Folds on workers

However the turns of the workers fall, each fold ends as it would have ended alone: a step that is
taken early is missing from those that are left, and nothing else changes.  So the errors of all
folds depend neither on the number of workers nor on the choices between them.

* `drain_eq_map` — tasks whose steps do not change how they finish;
* `Path.Walk.finish_advance`, `Fold.finish_advance` — a step of a path, and of a fold;
* `runFolds_outcome` — the errors of all folds, one fold after the other.
-/

/-! ### Tasks -/

section Tasks

variable {τ ρ : Type} {R : Resumable τ ρ}

/-- A choice does not change how the tasks finish. -/
theorem map_finish_choose (hR : ∀ t, R.finish (R.advance t) = R.finish t) (workers : Nat)
    (tasks : List τ) (choice : Nat) :
    (choose R workers tasks choice).map R.finish = tasks.map R.finish := by
  unfold choose
  simp only
  cases (running R workers tasks)[choice % (running R workers tasks).length]? with
  | none => rfl
  | some i =>
    refine List.ext_getElem? fun j => ?_
    rw [List.getElem?_map, List.getElem?_map, List.getElem?_modify]
    by_cases hij : i = j
    · cases tasks[j]? with
      | none => rfl
      | some t => simp [hij, hR]
    · simp [hij]

/-- Tasks whose steps do not change how they finish give the same results on any number of workers,
    whichever of them goes on next. -/
theorem drain_eq_map (hR : ∀ t, R.finish (R.advance t) = R.finish t) (workers : Nat)
    (tasks : List τ) (choices : List Nat) :
    drain R workers tasks choices = tasks.map R.finish := by
  unfold drain
  induction choices generalizing tasks with
  | nil => rfl
  | cons choice rest ih =>
    rw [play, List.foldl_cons, ← play, ih, map_finish_choose hR]

end Tasks

end RegPath.CrossValidation

namespace RegPath.Path

variable {α : Type} [Scalar α] {σ : Type}

/-! ### Paths -/

namespace Walk

/-- A step ends a walk or takes an entry of the schedule. -/
theorem step_ends_or_takes (plan : Plan α σ) (w : Walk α σ) :
    (w.step plan).exit ≠ none ∨ w.points.length < plan.schedule.count ∧
      (w.step plan).points.length = w.points.length + 1 := by
  have hmove := w.step_move plan
  generalize w.step plan = w' at hmove ⊢
  cases hmove with
  | halted _ hhalt => exact .inl hhalt.exit_ne
  | kept lam hpos s hasks =>
    refine .inr ⟨hasks.lt_count, ?_⟩
    rw [keep_points, asked_points, List.length_append, List.length_singleton]

/-- Enough steps end any walk: each one ends it or takes an entry of the schedule. -/
theorem exit_advanceBy_ne_none (plan : Plan α σ) (n : Nat) (w : Walk α σ)
    (hn : plan.schedule.count ≤ n + w.points.length) :
    (advanceBy plan (n + 1) w).exit ≠ none := by
  -- A step that does not end the walk keeps a point, and leaves one step less to take.
  induction n generalizing w with
  | zero =>
    cases hexit : w.exit with
    | some exit =>
      rw [advanceBy_of_exit plan _ hexit, hexit]
      exact Option.some_ne_none exit
    | none =>
      rw [advanceBy_succ, advance_of_none plan hexit, step_of_count_le (by omega)]
      exact Option.some_ne_none _
  | succ n ih =>
    cases hexit : w.exit with
    | some exit =>
      rw [advanceBy_of_exit plan _ hexit, hexit]
      exact Option.some_ne_none exit
    | none =>
      rw [advanceBy_succ, advance_of_none plan hexit]
      rcases w.step_ends_or_takes plan with hend | ⟨-, hlength⟩
      · obtain ⟨exit, he⟩ := Option.ne_none_iff_exists'.1 hend
        rw [advanceBy_of_exit plan _ he]
        exact hend
      · exact ih _ (by omega)

/-- A step that is taken before does not change how a walk ends. -/
theorem finish_advance (plan : Plan α σ) (w : Walk α σ) :
    (w.advance plan).finish plan = w.finish plan := by
  -- The walk has ended after the steps of `finish`, so that the one before them is one too many.
  obtain ⟨exit, hexit⟩ := Option.ne_none_iff_exists'.1
    (exit_advanceBy_ne_none plan plan.schedule.count w (Nat.le_add_right _ _))
  rw [finish, ← advanceBy_succ, advanceBy_add, advanceBy_of_exit plan 1 hexit]
  rfl

end Walk

/-- Nor does it change how a path ends. -/
theorem Driver.Begun.finish_advance (p : Driver.Begun α σ) : p.advance.finish = p.finish := by
  cases p with
  | closed r => rfl
  | walking j => simp only [advance, finish, Walk.finish_advance]

end RegPath.Path

namespace RegPath.CrossValidation

/-! ### Folds -/

/-- The folds that have all ended, without their events. -/
theorem collect_outcome {α : Type} (ends : List (FoldEnd α)) :
    (collect ends).1 = ends.mapM FoldEnd.outcome := by
  induction ends with
  | nil => rfl
  | cons e rest ih =>
    rw [List.mapM_cons, ← ih, collect]
    obtain ⟨vs, events⟩ := collect rest
    cases e.outcome with
    | error f => rfl
    | ok v =>
      cases vs with
      | error f => rfl
      | ok vs => rfl

variable {α : Type} [Scalar α] {σ : Type}

/-- A step that is taken before does not change how a fold ends. -/
theorem Fold.finish_advance (t : Fold α σ) : t.advance.finish = t.finish := by
  obtain ⟨train, trainB, test, testB, path⟩ := t
  cases path with
  | error f => rfl
  | ok p =>
    simp only [advance, finish, Except.map, Path.Driver.Begun.finish_advance]
    rfl

/-- The folds that run one after the other, without their events. -/
theorem inTurn_outcome (folds : List (Fold α σ)) :
    (inTurn folds).1 = folds.mapM fun t => t.finish.outcome := by
  induction folds with
  | nil => rfl
  | cons t rest ih =>
    rw [List.mapM_cons, ← ih, inTurn]
    cases t.finish.outcome with
    | error f => rfl
    | ok v =>
      obtain ⟨vs, events⟩ := inTurn rest
      cases vs with
      | error f => rfl
      | ok vs => rfl

/-- The errors of all folds are those of each fold alone, or the fault of the first that has one, on
    any number of workers and in any order of their turns. -/
theorem runFolds_outcome (workers : Int) (choices : List Nat) (folds : List (Fold α σ)) :
    (runFolds workers choices folds).1 = folds.mapM fun t => t.finish.outcome := by
  unfold runFolds
  by_cases hworkers : 1 < workers
  · rw [if_pos hworkers, collect_outcome,
      drain_eq_map (R := Fold.resumable) Fold.finish_advance, List.mapM_map]
    rfl
  · rw [if_neg hworkers, inTurn_outcome]

end RegPath.CrossValidation
