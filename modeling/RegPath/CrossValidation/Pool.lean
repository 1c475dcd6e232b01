namespace RegPath.CrossValidation

/-!
# Worker pools

Resumable tasks on a number of workers.  Tasks are begun in order, as workers become free, and
which of the begun ones goes on next is not determined.

* `Resumable` — what a task can do;
* `running` — the tasks that are under way;
* `play` — the tasks after a sequence of choices;
* `drain` — the tasks when all of them have ended.
-/

/-- Tasks that can be advanced step by step, and finished. -/
structure Resumable (τ ρ : Type) where
  /-- One step; nothing happens to a task that has ended. -/
  advance : τ → τ
  /-- Whether the task has ended. -/
  ended : τ → Bool
  /-- All steps that are left, and the result. -/
  finish : τ → ρ

variable {τ ρ : Type}

/-- The numbers of the tasks that are under way: the first ones that have not ended, one for each
    worker. -/
def running (R : Resumable τ ρ) (workers : Nat) (tasks : List τ) : List Nat :=
  ((tasks.zipIdx.filter fun t => !R.ended t.1).map Prod.snd).take workers

/-- Advances the task that a choice points at among those under way. -/
def choose (R : Resumable τ ρ) (workers : Nat) (tasks : List τ) (choice : Nat) : List τ :=
  let under := running R workers tasks
  match under[choice % under.length]? with
  | none => tasks
  | some i => tasks.modify i R.advance

/-- The tasks after a sequence of choices. -/
def play (R : Resumable τ ρ) (workers : Nat) (tasks : List τ) (choices : List Nat) : List τ :=
  choices.foldl (choose R workers) tasks

/-- Choices only advance tasks: their number stays. -/
@[simp] theorem length_play (R : Resumable τ ρ) (workers : Nat) (tasks : List τ)
    (choices : List Nat) : (play R workers tasks choices).length = tasks.length := by
  induction choices generalizing tasks with
  | nil => rfl
  | cons choice rest ih =>
    rw [play, List.foldl_cons, ← play, ih, choose]
    split
    · rfl
    · simp

/-- The results of all tasks, after a sequence of choices and whatever steps are left then. -/
def drain (R : Resumable τ ρ) (workers : Nat) (tasks : List τ) (choices : List Nat) : List ρ :=
  (play R workers tasks choices).map R.finish

end RegPath.CrossValidation
