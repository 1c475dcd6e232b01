import RegPath.Proofs.Path.Faults
import RegPath.Proofs.Path.Stopping

namespace RegPath

/-!
# The history of a driver

A driver is called again and again, to fit and to run paths, and any call may fail at any point.
What the driver keeps is known from the calls alone: the result is that of the last fit which
returned, and the phase tells how the last call that had something to begin with has ended.  What a
call does depends on the earlier ones by the state of the engine only.

* `Path.Driver.Ends`, `Path.Driver.run_ends` — the four ways in which a path leaves its driver;
* `Path.Driver.Call`, `Path.Driver.after` — calls one after the other;
* `Path.Driver.Call.perform_of_some` — a call is its path, with what a fit adds to it;
* `Path.Driver.Call.Ends`, `Path.Driver.Call.perform_ends` — the ways in which a call leaves it;
* `Path.Driver.after_result`, `Path.Driver.after_phase` — what is left of a history;
* `Path.Driver.Call.perform_alike` — calls of drivers with one state of the engine;
* `Path.Driver.History`, `Path.Driver.history` — the driver after any history, and its next call.
-/

/-- The phases in which the walk of a schedule ends. -/
def Phase.Settled (phase : Phase) : Prop :=
  phase = .converged ∨ phase = .exhausted ∨ phase = .timedOut

namespace Path

variable {α : Type} [Scalar α] {σ : Type}

/-- A walk ends in one of these. -/
theorem Walk.settled_of_finish {plan : Plan α σ} {e : σ} {p : Problem α} {phase : Phase}
    (hcount : plan.schedule.count = plan.config.count)
    (h : ((Walk.start e p).finish plan).exit = some (.phase phase)) : phase.Settled := by
  obtain ⟨turns, w, htrail, hpos, -, -, -, hexit | ⟨-, hphase, -⟩⟩ := Walk.finish_phase hcount h
  · obtain ⟨t, -, -, -, hpt⟩ := htrail.exists_last hpos
    have hverdict := htrail.exit_eq hpt (Nat.sub_add_cancel hpos)
    rw [hexit] at hverdict
    rcases Walk.verdict?_eq_phase.1 hverdict.symm with ⟨-, hphase⟩ | ⟨-, -, hphase⟩
    · exact .inl hphase
    · exact .inr (.inr hphase)
  · exact .inr (.inl hphase)

namespace Driver

/-! ### One path -/

section Path

variable {s : Setup α σ} {d d' : Driver α σ} {p : Problem α} {pinned : Option α}
  {schedule : Schedule α}

/-- The top of the schedule is not positive, so that zero is the solution. -/
def NothingToDo (p : Problem α) (pinned : Option α) : Prop := ∃ top, IsTop p pinned top ∧ top ≤ 0

/-- A path begins if there is nothing to do or it has a schedule that can be reported. -/
def Begins (s : Setup α σ) (p : Problem α) (pinned : Option α) : Prop :=
  NothingToDo p pinned ∨ ∃ schedule, s.schedule? p pinned = some schedule

/-- How a path leaves its driver. -/
inductive Ends (s : Setup α σ) (d : Driver α σ) (p : Problem α) (pinned : Option α) :
    Run α σ → Prop where
  /-- It has not begun: the driver stays as it is. -/
  | refused (f : Fault α) (h : ¬ Begins s p pinned) : Ends s d p pinned ⟨.error f, d, [], some p⟩
  /-- There is nothing to do. -/
  | degenerate (top : α) (htop : IsTop p pinned top) (hle : top ≤ 0) :
      Ends s d p pinned (d.degenerate p top)
  /-- The walk breaks off. -/
  | broken (schedule : Schedule α) (hschedule : s.schedule? p pinned = some schedule) (f : Fault α)
      (hexit : (d.walk s p schedule).exit = some (.fault f)) (events : List (Event α)) :
      Ends s d p pinned
        { outcome := .error f
          driver := { d with engine := (d.walk s p schedule).engine, phase := .stepping }
          events
          problem := some (d.walk s p schedule).problem }
  /-- The walk ends in a phase, and the schedule is listed for the result. -/
  | settled (schedule : Schedule α) (hschedule : s.schedule? p pinned = some schedule)
      (phase : Phase) (hexit : (d.walk s p schedule).exit = some (.phase phase))
      (hphase : phase.Settled) (events : List (Event α)) :
      Ends s d p pinned
        { outcome := schedule.grid.map fun lambdas =>
            ⟨(d.walk s p schedule).points, phase, schedule.top, lambdas,
              (d.walk s p schedule).problem.x, (d.walk s p schedule).problem.y⟩
          driver := { d with engine := (d.walk s p schedule).engine, phase }
          events
          problem := some (d.walk s p schedule).problem }

/-- There is no other way. -/
theorem run_ends (s : Setup α σ) (d : Driver α σ) (p : Problem α) (pinned : Option α) :
    Ends s d p pinned (d.run s p pinned) := by
  cases hschedule : s.schedule? p pinned with
  | none =>
    rcases run_of_none (d := d) hschedule with ⟨f, hf⟩ | ⟨top, htop, hle, hrun⟩
    · have hbegins : ¬ Begins s p pinned := by
        rintro (⟨top, htop, hle⟩ | ⟨schedule, hsome⟩)
        · rw [run_degenerate htop hle] at hf
          cases congrArg Run.outcome hf
        · cases hsome.symm.trans hschedule
      rw [hf]
      exact .refused f hbegins
    · rw [hrun]
      exact .degenerate top htop hle
  | some schedule =>
    rw [run_of_schedule? hschedule, conclude]
    obtain ⟨turns, w, -, hends⟩ := Walk.finish_reaches (s.plan schedule) d.engine p
    cases hexit : (d.walk s p schedule).exit with
    | none => exact absurd hexit hends.exit_ne
    | some exit =>
      cases exit with
      | fault f => exact .broken schedule hschedule f hexit _
      | phase phase =>
        have hphase := Walk.settled_of_finish (count_of_schedule? hschedule) hexit
        exact .settled schedule hschedule phase hexit hphase _

/-! ### Paths of drivers with one state of the engine -/

/-- Two operations that agree in all but what the drivers keep beside their engines. -/
structure Alike (r r' : Run α σ) : Prop where
  /-- They return the same, or stop at the same fault. -/
  outcome : r.outcome = r'.outcome
  /-- They have the same events. -/
  events : r.events = r'.events
  /-- They leave the same problem. -/
  problem : r.problem = r'.problem
  /-- They leave the same engine. -/
  engine : r.driver.engine = r'.driver.engine

/-- A walk ends a path alike for all drivers, and leaves them in one phase. -/
theorem conclude_alike (d d' : Driver α σ) (schedule : Schedule α) (opening : List (Event α))
    (w : Walk α σ) :
    Alike (d.conclude schedule opening w) (d'.conclude schedule opening w) ∧
      (d.conclude schedule opening w).driver.phase =
        (d'.conclude schedule opening w).driver.phase := by
  unfold conclude
  cases w.exit with
  | none => exact ⟨⟨rfl, rfl, rfl, rfl⟩, rfl⟩
  | some exit =>
    cases exit with
    | fault f => exact ⟨⟨rfl, rfl, rfl, rfl⟩, rfl⟩
    | phase phase => exact ⟨⟨rfl, rfl, rfl, rfl⟩, rfl⟩

/-- A path from a given top is alike for drivers with one state of the engine. -/
theorem finish_alike (h : d.engine = d'.engine) (s : Setup α σ) (p : Problem α) (top : α) :
    Alike (d.start s p top).finish (d'.start s p top).finish := by
  unfold start
  by_cases hle : top ≤ 0
  · rw [if_pos hle, if_pos hle]
    exact ⟨rfl, rfl, rfl, h⟩
  · rw [if_neg hle, if_neg hle]
    cases Schedule.make top s.config.count s.config.ratio with
    | error f => exact ⟨rfl, rfl, rfl, h⟩
    | ok schedule =>
      cases hends : schedule.ends with
      | error f =>
        simp only [hends]
        exact ⟨rfl, rfl, rfl, h⟩
      | ok ends =>
        simp only [hends, h]
        exact (conclude_alike d d' _ _ _).1

/-- So is every path. -/
theorem run_alike (h : d.engine = d'.engine) (s : Setup α σ) (p : Problem α) (pinned : Option α) :
    Alike (d.run s p pinned) (d'.run s p pinned) := by
  unfold run runBy
  cases pinned with
  | some top => exact finish_alike h s p top
  | none =>
    cases lambdaMax p.design.matrix p.observations with
    | error f => exact ⟨rfl, rfl, rfl, h⟩
    | ok top => exact finish_alike h s p top

/-- A path that has begun leaves them in one phase. -/
theorem run_phase_eq (h : d.engine = d'.engine) (hbegins : Begins s p pinned) :
    (d.run s p pinned).driver.phase = (d'.run s p pinned).driver.phase := by
  rcases hbegins with ⟨top, htop, hle⟩ | ⟨schedule, hschedule⟩
  · rw [run_degenerate htop hle, run_degenerate htop hle]
    rfl
  · rw [run_of_schedule? hschedule, run_of_schedule? hschedule]
    have hwalk : d.walk s p schedule = d'.walk s p schedule := by rw [walk, walk, h]
    rw [hwalk]
    exact (conclude_alike d d' _ _ _).2

end Path

/-! ### Calls -/

/-- A call of a driver, with the time that passes in it. -/
inductive Call (α : Type) [Scalar α] where
  /-- A fit on a matrix in any form and observations. -/
  | fit (elapsed : ℕ → α) (depth key : ℕ) (form : MatrixForm α) (b : List α)
  /-- A path on a problem, the top of whose schedule may be given. -/
  | run (elapsed : ℕ → α) (p : Problem α) (pinned : Option α)

namespace Call

/-- The setup of a call. -/
def setup (config : Config α) (E : Engine α σ) : Call α → Setup α σ
  | fit elapsed _ _ _ _ => ⟨config, E, elapsed⟩
  | run elapsed _ _ => ⟨config, E, elapsed⟩

/-- The call of a driver. -/
def perform (config : Config α) (E : Engine α σ) (c : Call α) (d : Driver α σ) : Run α σ :=
  match c with
  | fit elapsed depth key form b => d.fit ⟨config, E, elapsed⟩ depth key form b
  | run elapsed p pinned => d.run ⟨config, E, elapsed⟩ p pinned

/-- The problem of a call, if its arguments make one. -/
def problem? : Call α → Option (Problem α)
  | fit _ _ key form b => form.read.toOption.bind fun A => (Problem.lasso ⟨key, A⟩ b).toOption
  | run _ p _ => some p

/-- The given top of its schedule. -/
def pinned : Call α → Option α
  | fit .. => none
  | run _ _ pinned => pinned

/-- The result that the driver keeps of a call with this outcome. -/
def fitted? (c : Call α) (outcome : Except (Fault α) (Result α)) : Option (Result α) :=
  match c with
  | fit .. => outcome.toOption
  | run .. => none

/-- A call around its path: a fit is timed and keeps its result. -/
def around (c : Call α) (r : Run α σ) : Run α σ where
  outcome := r.outcome
  driver := { r.driver with result := (c.fitted? r.outcome).or r.driver.result }
  events := match c with
    | fit _ depth _ _ _ => timed depth fitName r.events
    | run .. => r.events
  problem := r.problem

/-- Of a call that fails nothing is kept. -/
@[simp] theorem fitted?_error (c : Call α) (f : Fault α) : c.fitted? (.error f) = none := by
  cases c <;> rfl

/-- A call begins if its path does. -/
def Begins (config : Config α) (E : Engine α σ) (c : Call α) : Prop :=
  ∃ p, c.problem? = some p ∧ Driver.Begins (c.setup config E) p c.pinned

/-- How a call leaves its driver. -/
inductive Ends (config : Config α) (E : Engine α σ) (c : Call α) (d : Driver α σ) :
    Run α σ → Prop where
  /-- Its arguments make no problem: the driver stays as it is. -/
  | unread (f : Fault α) (events : List (Event α)) (hproblem : c.problem? = none) :
      Ends config E c d ⟨.error f, d, events, none⟩
  /-- As its path does. -/
  | path (p : Problem α) (r : Run α σ) (hproblem : c.problem? = some p)
      (hends : Driver.Ends (c.setup config E) d p c.pinned r) : Ends config E c d (c.around r)

variable {config : Config α} {E : Engine α σ} {c : Call α} {d d' : Driver α σ} {r : Run α σ}

/-- Of a path that fails nothing is kept. -/
theorem around_driver {f : Fault α} (h : r.outcome = .error f) (c : Call α) :
    (c.around r).driver = r.driver := by
  rw [around.eq_def, h, fitted?_error, Option.none_or]

/-- Arguments that make no problem are refused, whatever the driver. -/
theorem perform_of_none (config : Config α) (E : Engine α σ) (h : c.problem? = none) :
    ∃ f events, ∀ d, c.perform config E d = ⟨.error f, d, events, none⟩ := by
  cases c with
  | run => cases h
  | fit elapsed depth key form b =>
    simp only [perform, Driver.fit, fitBy]
    cases hread : form.read with
    | error f => exact ⟨f, timed depth fitName [], fun _ => rfl⟩
    | ok A =>
      simp only [fitLassoBy]
      cases hlasso : Problem.lasso ⟨key, A⟩ b with
      | error f => exact ⟨f, timed depth fitName [], fun _ => rfl⟩
      | ok p => simp [problem?, hread, hlasso, Except.toOption] at h

/-- Any others make a path on their problem. -/
theorem perform_of_some (config : Config α) (E : Engine α σ) (d : Driver α σ) {p : Problem α}
    (h : c.problem? = some p) :
    c.perform config E d = c.around (d.run (c.setup config E) p c.pinned) := by
  cases c with
  | run =>
    cases h
    rfl
  | fit elapsed depth key form b =>
    simp only [perform, Driver.fit, fitBy]
    cases hread : form.read with
    | error f => simp [problem?, hread, Except.toOption] at h
    | ok A =>
      simp only [fitLassoBy]
      cases hlasso : Problem.lasso ⟨key, A⟩ b with
      | error f => simp [problem?, hread, hlasso, Except.toOption] at h
      | ok p' =>
        simp only [problem?, hread, hlasso, Except.toOption, Option.bind_some,
          Option.some.injEq] at h
        subst h
        rfl

/-- There is no other way. -/
theorem perform_ends (config : Config α) (E : Engine α σ) (c : Call α) (d : Driver α σ) :
    Ends config E c d (c.perform config E d) := by
  cases hproblem : c.problem? with
  | none =>
    obtain ⟨f, events, hrefused⟩ := perform_of_none config E hproblem
    rw [hrefused]
    exact .unread f events hproblem
  | some p =>
    rw [perform_of_some config E d hproblem]
    exact .path p _ hproblem (run_ends (c.setup config E) d p c.pinned)

/-- A call has one problem. -/
theorem Begins.path (h : c.Begins config E) {p : Problem α} (hproblem : c.problem? = some p) :
    Driver.Begins (c.setup config E) p c.pinned := by
  obtain ⟨p', hproblem', hbegins⟩ := h
  obtain rfl := Option.some.inj (hproblem.symm.trans hproblem')
  exact hbegins

/-- The driver keeps the result of a fit that returns, and else the one that it had. -/
theorem Ends.result_eq (h : Ends config E c d r) :
    r.driver.result = (c.fitted? r.outcome).or d.result := by
  cases h with
  | unread f => simp
  | path p r _ hends => cases hends <;> rfl

/-- A call that does not begin fails and leaves its driver as it is. -/
theorem Ends.of_not_begins (h : Ends config E c d r) (hbegins : ¬ c.Begins config E) :
    (∃ f, r.outcome = .error f) ∧ r.driver = d := by
  cases h with
  | unread f => exact ⟨⟨f, rfl⟩, rfl⟩
  | path p r hproblem hends =>
    cases hends with
    | refused f => exact ⟨⟨f, rfl⟩, around_driver rfl c⟩
    | degenerate top htop hle => exact absurd ⟨p, hproblem, .inl ⟨top, htop, hle⟩⟩ hbegins
    | broken schedule hschedule =>
      exact absurd ⟨p, hproblem, .inr ⟨schedule, hschedule⟩⟩ hbegins
    | settled schedule hschedule =>
      exact absurd ⟨p, hproblem, .inr ⟨schedule, hschedule⟩⟩ hbegins

/-- A call that returns leaves its driver in the phase of its result. -/
theorem Ends.phase_of_ok (h : Ends config E c d r) {result : Result α}
    (hok : r.outcome = .ok result) :
    r.driver.phase = result.phase ∧ (result.phase.Settled ∨ result.phase = .degenerate) := by
  cases h with
  | unread => cases hok
  | path p r hproblem hends =>
    cases hends with
    | refused => cases hok
    | degenerate =>
      cases hok
      exact ⟨rfl, .inr rfl⟩
    | broken => cases hok
    | settled schedule _ phase _ hphase =>
      cases hgrid : schedule.grid with
      | error f =>
        simp only [hgrid] at hok
        cases hok
      | ok lambdas =>
        simp only [hgrid] at hok
        cases hok
        exact ⟨rfl, .inl hphase⟩

/-- How a call has failed that had a schedule: its walk broke off, or ended in a phase before the
    schedule was listed in vain. -/
inductive FailsLate (s : Setup α σ) (d : Driver α σ) (p : Problem α) (schedule : Schedule α)
    (f : Fault α) : Phase → Prop where
  /-- The walk broke off. -/
  | broken (hexit : (d.walk s p schedule).exit = some (.fault f)) :
      FailsLate s d p schedule f .stepping
  /-- The walk has ended, but an entry of the schedule is too large. -/
  | unlisted (phase : Phase) (hexit : (d.walk s p schedule).exit = some (.phase phase))
      (hphase : phase.Settled) (hgrid : schedule.grid = .error f) :
      FailsLate s d p schedule f phase

/-- In exact arithmetic every schedule can be listed, so that the walk broke off. -/
theorem FailsLate.eq_stepping {s : Setup ℝ σ} {d : Driver ℝ σ} {p : Problem ℝ}
    {schedule : Schedule ℝ} {f : Fault ℝ} {phase : Phase} (h : FailsLate s d p schedule f phase) :
    phase = .stepping := by
  cases h with
  | broken => rfl
  | unlisted _ _ _ hgrid =>
    obtain ⟨lambdas, hlambdas⟩ := schedule.exists_grid
    cases hgrid.symm.trans hlambdas

/-- A call that fails after it has begun has failed late. -/
theorem Ends.phase_of_error (h : Ends config E c d r) (hbegins : c.Begins config E) {f : Fault α}
    (herror : r.outcome = .error f) :
    ∃ p schedule, c.problem? = some p ∧
      (c.setup config E).schedule? p c.pinned = some schedule ∧
        FailsLate (c.setup config E) d p schedule f r.driver.phase := by
  cases h with
  | unread f' events hnone =>
    obtain ⟨p, hproblem, -⟩ := hbegins
    cases hproblem.symm.trans hnone
  | path p r hproblem hends =>
    cases hends with
    | refused f' hrefused => exact absurd (hbegins.path hproblem) hrefused
    | degenerate => cases herror
    | broken schedule hschedule f' hexit =>
      cases herror
      exact ⟨p, schedule, hproblem, hschedule, .broken hexit⟩
    | settled schedule hschedule phase hexit hphase =>
      cases hgrid : schedule.grid with
      | error f' =>
        simp only [hgrid] at herror
        cases herror
        exact ⟨p, schedule, hproblem, hschedule, .unlisted phase hexit hphase hgrid⟩
      | ok lambdas =>
        simp only [hgrid] at herror
        cases herror

/-- A call that begins leaves a phase that tells of it. -/
theorem Ends.phase_ne (h : Ends config E c d r) (hbegins : c.Begins config E) :
    r.driver.phase ≠ .notStarted := by
  cases h with
  | unread _ _ hnone =>
    obtain ⟨p, hproblem, -⟩ := hbegins
    cases hproblem.symm.trans hnone
  | path p r hproblem hends =>
    cases hends with
    | refused _ hrefused => exact absurd (hbegins.path hproblem) hrefused
    | degenerate => exact Phase.noConfusion
    | broken => exact Phase.noConfusion
    | settled _ _ phase _ hphase => rcases hphase with rfl | rfl | rfl <;> exact Phase.noConfusion

/-- Around alike paths calls are alike. -/
theorem around_alike (c : Call α) {r r' : Run α σ} (h : Alike r r') :
    Alike (c.around r) (c.around r') where
  outcome := h.outcome
  events := by
    cases c with
    | fit _ depth => exact congrArg (timed depth fitName) h.events
    | run => exact h.events
  problem := h.problem
  engine := h.engine

/-- Calls of drivers with one state of the engine are alike. -/
theorem perform_alike (h : d.engine = d'.engine) (config : Config α) (E : Engine α σ)
    (c : Call α) : Alike (c.perform config E d) (c.perform config E d') := by
  cases hproblem : c.problem? with
  | none =>
    obtain ⟨f, events, hrefused⟩ := perform_of_none config E hproblem
    rw [hrefused, hrefused]
    exact ⟨rfl, rfl, rfl, h⟩
  | some p =>
    rw [perform_of_some config E d hproblem, perform_of_some config E d' hproblem]
    exact around_alike c (run_alike h (c.setup config E) p c.pinned)

/-- If they begin, they leave their drivers in one phase. -/
theorem perform_phase_eq (h : d.engine = d'.engine) (hbegins : c.Begins config E) :
    (c.perform config E d).driver.phase = (c.perform config E d').driver.phase := by
  obtain ⟨p, hproblem, hbegun⟩ := hbegins
  rw [perform_of_some config E d hproblem, perform_of_some config E d' hproblem]
  exact run_phase_eq h hbegun

end Call

/-! ### Calls one after the other -/

section Calls

variable (config : Config α) (E : Engine α σ)

/-- A driver after some calls, one after the other. -/
def after (d : Driver α σ) (cs : List (Call α)) : Driver α σ :=
  cs.foldl (fun d c => (c.perform config E d).driver) d

/-- The results of the fits that return, in order. -/
def fitted (d : Driver α σ) : List (Call α) → List (Result α)
  | [] => []
  | c :: cs =>
    (c.fitted? (c.perform config E d).outcome).toList ++ fitted (c.perform config E d).driver cs

/-- The driver keeps the result of the last fit that returned. -/
theorem after_result (d : Driver α σ) (cs : List (Call α)) :
    (d.after config E cs).result = (d.fitted config E cs).getLast?.or d.result := by
  induction cs generalizing d with
  | nil => rfl
  | cons c cs ih =>
    have hstep := (c.perform_ends config E d).result_eq
    rw [after, List.foldl_cons, ← after, ih, hstep, fitted, List.getLast?_append, Option.or_assoc]
    cases c.fitted? (c.perform config E d).outcome <;> rfl

/-- The driver stands at the beginning as long as no call has begun. -/
theorem after_phase (d : Driver α σ) (cs : List (Call α)) :
    (d.after config E cs).phase = .notStarted ↔
      d.phase = .notStarted ∧ ∀ c ∈ cs, ¬ c.Begins config E := by
  induction cs generalizing d with
  | nil => simp [after]
  | cons c cs ih =>
    have hends := c.perform_ends config E d
    rw [after, List.foldl_cons, ← after, ih, List.forall_mem_cons]
    by_cases hbegins : c.Begins config E
    · refine iff_of_false (fun h => hends.phase_ne hbegins h.1) fun h => h.2.1 hbegins
    · rw [(hends.of_not_begins hbegins).2]
      exact and_congr_right fun _ => (and_iff_right hbegins).symm

end Calls

/-- A driver that was made with an engine and has been called: what it keeps, and what its next call
    does. -/
structure History (config : Config α) (E : Engine α σ) (e : σ) (cs : List (Call α)) : Prop where
  /-- The result is that of the last fit that returned. -/
  result_eq : ((new e).after config E cs).result = ((new e).fitted config E cs).getLast?
  /-- The driver stands at the beginning exactly until a call has begun. -/
  notStarted_iff : ((new e).after config E cs).phase = .notStarted ↔
    ∀ c ∈ cs, ¬ c.Begins config E
  /-- A call that returns leaves the phase of its result. -/
  returned : ∀ (c : Call α) (r : Result α),
    (c.perform config E ((new e).after config E cs)).outcome = .ok r →
      (c.perform config E ((new e).after config E cs)).driver.phase = r.phase ∧
        (r.phase.Settled ∨ r.phase = .degenerate)
  /-- A call that fails before it has begun leaves the driver as it is. -/
  refused : ∀ c : Call α, ¬ c.Begins config E →
    (∃ f, (c.perform config E ((new e).after config E cs)).outcome = .error f) ∧
      (c.perform config E ((new e).after config E cs)).driver = (new e).after config E cs
  /-- A call that fails later leaves the driver stepping, unless its walk had ended and the listing
      of the schedule failed. -/
  failed : ∀ (c : Call α) (f : Fault α), c.Begins config E →
    (c.perform config E ((new e).after config E cs)).outcome = .error f →
      ∃ p schedule, c.problem? = some p ∧
        (c.setup config E).schedule? p c.pinned = some schedule ∧
          Call.FailsLate (c.setup config E) ((new e).after config E cs) p schedule f
            (c.perform config E ((new e).after config E cs)).driver.phase
  /-- Whatever was before, a call does what it does on a fresh driver with the engine as it is. -/
  fresh : ∀ c : Call α,
    Alike (c.perform config E ((new e).after config E cs))
        (c.perform config E (new ((new e).after config E cs).engine)) ∧
      (c.Begins config E → (c.perform config E ((new e).after config E cs)).driver.phase =
        (c.perform config E (new ((new e).after config E cs).engine)).driver.phase)

/-- Every driver has such a history. -/
theorem history (config : Config α) (E : Engine α σ) (e : σ) (cs : List (Call α)) :
    History config E e cs where
  result_eq := by
    rw [after_result, new, Option.or_none]
  notStarted_iff := by
    rw [after_phase]
    exact and_iff_right rfl
  returned c r hok := (c.perform_ends config E _).phase_of_ok hok
  refused c hbegins := (c.perform_ends config E _).of_not_begins hbegins
  failed c f hbegins herror := (c.perform_ends config E _).phase_of_error hbegins herror
  fresh c := by
    have hengine : ((new e).after config E cs).engine =
        (new ((new e).after config E cs).engine : Driver α σ).engine := rfl
    exact ⟨Call.perform_alike hengine config E c, Call.perform_phase_eq hengine⟩

/-- A schedule that a path walks has a size that can be reported. -/
theorem count_le_of_schedule? {s : Setup α σ} {p : Problem α} {pinned : Option α}
    {schedule : Schedule α} (h : s.schedule? p pinned = some schedule) :
    s.config.count ≤ Schedule.largestSize := by
  obtain ⟨top, -, -, -, ends, hends⟩ := schedule?_eq_some.1 h
  rw [← count_of_schedule? h]
  by_contra hlarge
  rw [Schedule.ends, Schedule.size, if_neg hlarge] at hends
  cases hends

/-- A path whose schedule can be made may fail and yet leave its driver as it was: the size of the
    schedule is reported before the driver is stepping, and may be too large for that. -/
theorem not_forall_stepping :
    ¬ ∀ (config : Config ℝ) (p : Problem ℝ) (top : ℝ) (schedule : Schedule ℝ) (f : Fault ℝ),
      Schedule.make top config.count config.ratio = .ok schedule →
        ((new ()).run ⟨config, zeroEngine, fun _ => 0⟩ p (some top)).outcome = .error f →
          ((new ()).run ⟨config, zeroEngine, fun _ => 0⟩ p (some top)).driver.phase =
            .stepping := by
  intro h
  obtain ⟨schedule, hmake⟩ :=
    Schedule.exists_make one_pos endlessConfig.count_pos endlessConfig.ratio_mem
  have hnone : Setup.schedule? ⟨endlessConfig, zeroEngine, fun _ => 0⟩ briefProblem (some 1) =
      none := by
    rw [Option.eq_none_iff_forall_ne_some]
    intro schedule' hsome
    exact absurd (count_le_of_schedule? hsome) (Nat.not_succ_le_self _)
  rcases run_of_none (d := new ()) hnone with ⟨f, hf⟩ | ⟨top, htop, hle, -⟩
  · have hphase := h endlessConfig briefProblem 1 schedule f hmake (by rw [hf])
    rw [hf] at hphase
    cases hphase
  · obtain rfl := htop.unique (.inl rfl)
    exact absurd hle (not_le.2 one_pos)

end Driver

end Path

end RegPath
