import RegPath.Proofs.Schedule
import RegPath.Proofs.Path.Trail
import RegPath.Path.Driver

namespace RegPath.Path

/-!
# The steps of a path

A path has steps if it has a schedule.  Its steps are known also where it breaks off, so that paths
can be compared however they end.

* `Driver.IsTop` — the top of the schedule of a path;
* `Setup.schedule?`, `Setup.penalty?` — the schedule of a path, if it has one, and its entries;
* `Driver.steps` — the points of a path, whether or not it returns them;
* `Driver.run_of_schedule?`, `Driver.run_of_none` — a path with a schedule is the end of its walk,
  and one without is over at once;
* `Driver.exists_trail` — the steps are the points of a trail;
* `Driver.points_eq_steps` — a path that returns returns its steps.
-/

variable {α : Type} [Scalar α] {σ : Type}

/-- The schedule that a path walks, or `none` if the path is over before its first step. -/
def Setup.schedule? (s : Setup α σ) (p : Problem α) (pinned : Option α) : Option (Schedule α) :=
  match pinned.elim (lambdaMax p.design.matrix p.observations) .ok with
  | .error _ => none
  | .ok top =>
    if top ≤ 0 then none
    else match Schedule.make top s.config.count s.config.ratio with
      | .error _ => none
      | .ok schedule => match schedule.ends with
        | .error _ => none
        | .ok _ => some schedule

/-- Penalty `i` of the schedule of a path. -/
def Setup.penalty? (s : Setup α σ) (p : Problem α) (pinned : Option α) (i : Nat) : Option α :=
  (s.schedule? p pinned).bind fun schedule => schedule.entry? i

/-- The plan for a schedule. -/
def Setup.plan (s : Setup α σ) (schedule : Schedule α) : Plan α σ :=
  ⟨s.config, s.engine, s.elapsed, schedule⟩

/-- What is reported of a schedule before its first step. -/
def opening (schedule : Schedule α) : List (Event α) :=
  match schedule.ends with
  | .error _ => []
  | .ok (size, last) => [.scheduled schedule.top size last]

namespace Driver

/-- The top of the schedule of a path: the given one, else the threshold of the problem. -/
def IsTop (p : Problem α) (pinned : Option α) (top : α) : Prop :=
  pinned = some top ∨ pinned = none ∧ lambdaMax p.design.matrix p.observations = .ok top

/-- The whole walk of a schedule. -/
def walk (d : Driver α σ) (s : Setup α σ) (p : Problem α) (schedule : Schedule α) : Walk α σ :=
  (Walk.start d.engine p).finish (s.plan schedule)

/-- The points of a path, also if it breaks off and does not return them. -/
def steps (s : Setup α σ) (d : Driver α σ) (p : Problem α) (pinned : Option α) : List (Point α) :=
  match s.schedule? p pinned with
  | none => []
  | some schedule => (d.walk s p schedule).points

variable {s : Setup α σ} {d : Driver α σ} {p : Problem α} {pinned : Option α}
  {schedule : Schedule α}

/-! ### Tops and schedules -/

/-- The top is where the schedule begins that is sought. -/
theorem isTop_iff {top : α} :
    IsTop p pinned top ↔
      pinned.elim (lambdaMax p.design.matrix p.observations) .ok = .ok top := by
  cases pinned <;> simp [IsTop]

/-- There is one top. -/
theorem IsTop.unique {top top' : α} (h : IsTop p pinned top) (h' : IsTop p pinned top') :
    top = top' :=
  Except.ok.inj ((isTop_iff.1 h).symm.trans (isTop_iff.1 h'))

/-- A path is the one from its top. -/
theorem run_eq_finish {top : α} (htop : IsTop p pinned top) :
    d.run s p pinned = (d.start s p top).finish := by
  rcases htop with rfl | ⟨rfl, hmax⟩
  · rfl
  · rw [run, runBy]
    simp only [hmax]

/-- A path from a top that is zero or below is over before its first step. -/
theorem run_degenerate {top : α} (htop : IsTop p pinned top) (h : top ≤ 0) :
    d.run s p pinned = d.degenerate p top := by
  rw [run_eq_finish htop, start, if_pos h]
  rfl

/-- What makes a schedule. -/
theorem schedule?_eq_some :
    s.schedule? p pinned = some schedule ↔
      ∃ top, IsTop p pinned top ∧ ¬ top ≤ 0 ∧
        Schedule.make top s.config.count s.config.ratio = .ok schedule ∧
          ∃ ends, schedule.ends = .ok ends := by
  simp only [isTop_iff, Setup.schedule?]
  cases pinned.elim (lambdaMax p.design.matrix p.observations) .ok with
  | error f => simp
  | ok top =>
    by_cases hpos : top ≤ 0
    · simp [hpos]
    · cases hmake : Schedule.make top s.config.count s.config.ratio with
      | error f => simp [hpos, hmake]
      | ok made =>
        cases hends : made.ends with
        | error f =>
          refine iff_of_false (by simp [hpos, hmake, hends]) ?_
          rintro ⟨top', htop, -, hmake', ends, hends'⟩
          cases htop
          cases hmake.symm.trans hmake'
          cases hends.symm.trans hends'
        | ok ends =>
          constructor
          · intro h
            simp only [if_neg hpos, hmake, hends, Option.some.injEq] at h
            obtain rfl := h
            exact ⟨top, rfl, hpos, hmake, ends, hends⟩
          · rintro ⟨top', htop, -, hmake', -⟩
            cases htop
            cases hmake.symm.trans hmake'
            simp only [if_neg hpos, hmake, hends]

/-- The schedule of a path has as many entries as its configuration says. -/
theorem count_of_schedule? (h : s.schedule? p pinned = some schedule) :
    schedule.count = s.config.count := by
  obtain ⟨top, -, -, hmake, -⟩ := schedule?_eq_some.1 h
  exact Int.ofNat_inj.1 (Schedule.make_ok hmake).2.1

/-- The penalties of a path with a schedule. -/
theorem penalty?_of_schedule? (h : s.schedule? p pinned = some schedule) (i : Nat) :
    s.penalty? p pinned i = schedule.entry? i := by
  rw [Setup.penalty?, h, Option.bind_some]

/-- Setups with one length and one ratio of their schedules have the same schedules. -/
theorem schedule?_congr {τ : Type} {s' : Setup α τ} (hcount : s'.config.count = s.config.count)
    (hratio : s'.config.ratio = s.config.ratio) (p : Problem α) (pinned : Option α) :
    s'.schedule? p pinned = s.schedule? p pinned := by
  unfold Setup.schedule?
  rw [hcount, hratio]

/-! ### Ends -/

/-- A path leaves the engine as its walk does. -/
theorem conclude_engine (d : Driver α σ) (schedule : Schedule α) (opening : List (Event α))
    (w : Walk α σ) : (d.conclude schedule opening w).driver.engine = w.engine := by
  unfold conclude
  cases w.exit with
  | none => rfl
  | some exit =>
    cases exit with
    | phase => rfl
    | fault => rfl

/-- It leaves the problem as its walk does. -/
theorem conclude_problem (d : Driver α σ) (schedule : Schedule α) (opening : List (Event α))
    (w : Walk α σ) : (d.conclude schedule opening w).problem = some w.problem := by
  unfold conclude
  cases w.exit with
  | none => rfl
  | some exit =>
    cases exit with
    | phase => rfl
    | fault => rfl

/-- A path concludes with a result if its walk ended in a phase and the schedule can be listed. -/
theorem conclude_ok {opening : List (Event α)} {w : Walk α σ} {r : Result α} :
    (d.conclude schedule opening w).outcome = .ok r ↔
      ∃ phase lambdas, w.exit = some (.phase phase) ∧ schedule.grid = .ok lambdas ∧
        r = ⟨w.points, phase, schedule.top, lambdas, w.problem.x, w.problem.y⟩ := by
  unfold conclude
  cases w.exit with
  | none => simp
  | some exit =>
    cases exit with
    | fault f => simp
    | phase phase =>
      cases schedule.grid with
      | error f => simp [Except.map]
      | ok lambdas => simp [Except.map, eq_comm]

/-- A path with a schedule is the end of its walk. -/
theorem run_of_schedule? (h : s.schedule? p pinned = some schedule) :
    d.run s p pinned = d.conclude schedule (opening schedule) (d.walk s p schedule) := by
  obtain ⟨top, htop, hpos, hmake, ⟨size, last⟩, hends⟩ := schedule?_eq_some.1 h
  rw [run_eq_finish htop, start, if_neg hpos]
  simp only [hmake, hends, Begun.finish, opening, (Schedule.make_ok hmake).1]
  rfl

/-- A path from a top without a schedule is over before its first step, in the same way for all
    setups that have the length and the ratio of the schedule in common. -/
theorem start_of_none {s' : Setup α σ} {top : α} (htop : IsTop p pinned top)
    (hcount : s'.config.count = s.config.count) (hratio : s'.config.ratio = s.config.ratio)
    (h : s.schedule? p pinned = none) :
    d.start s' p top = d.start s p top ∧
      ((∃ f, d.start s p top = .closed ⟨.error f, d, [], some p⟩) ∨
        top ≤ 0 ∧ d.start s p top = .closed (d.degenerate p top)) := by
  rw [Setup.schedule?, isTop_iff.1 htop] at h
  unfold start
  rw [hcount, hratio]
  by_cases hpos : top ≤ 0
  · rw [if_pos hpos, if_pos hpos]
    exact ⟨rfl, .inr ⟨hpos, rfl⟩⟩
  · simp only [if_neg hpos] at h ⊢
    cases hmake : Schedule.make top s.config.count s.config.ratio with
    | error f => exact ⟨rfl, .inl ⟨f, rfl⟩⟩
    | ok schedule =>
      simp only [hmake] at h
      cases hends : schedule.ends with
      | error f => exact ⟨by simp only [hends], .inl ⟨f, by simp only [hends]⟩⟩
      | ok ends => simp [hends] at h

/-- Without a schedule a path stays where it is or returns the zero solution. -/
theorem run_of_none (h : s.schedule? p pinned = none) :
    (∃ f, d.run s p pinned = ⟨.error f, d, [], some p⟩) ∨
      ∃ top, IsTop p pinned top ∧ top ≤ 0 ∧ d.run s p pinned = d.degenerate p top := by
  cases hmax : pinned.elim (lambdaMax p.design.matrix p.observations) .ok with
  | error f =>
    cases pinned with
    | some top => cases hmax
    | none => exact .inl ⟨f, by rw [run, runBy, show lambdaMax _ _ = _ from hmax]⟩
  | ok top =>
    have htop := isTop_iff.2 hmax
    rw [run_eq_finish htop]
    rcases (start_of_none htop rfl rfl h).2 with ⟨f, hf⟩ | ⟨hpos, hdegenerate⟩
    · exact .inl ⟨f, by rw [hf, Begun.finish]⟩
    · exact .inr ⟨top, htop, hpos, by rw [hdegenerate, Begun.finish]⟩

/-- Without a schedule a path depends on no other part of its setup. -/
theorem run_congr_of_none {s' : Setup α σ} (hcount : s'.config.count = s.config.count)
    (hratio : s'.config.ratio = s.config.ratio) (h : s.schedule? p pinned = none) :
    d.run s' p pinned = d.run s p pinned := by
  cases hmax : pinned.elim (lambdaMax p.design.matrix p.observations) .ok with
  | error f =>
    cases pinned with
    | some top => cases hmax
    | none => simp only [run, runBy, show lambdaMax _ _ = _ from hmax]
  | ok top =>
    have htop := isTop_iff.2 hmax
    rw [run_eq_finish htop, run_eq_finish htop, (start_of_none htop hcount hratio h).1]

/-- A path with a result from a top that is not zero or below has a schedule. -/
theorem exists_schedule? {top : α} {r : Result α} (htop : IsTop p pinned top) (hpos : ¬ top ≤ 0)
    (h : (d.run s p pinned).outcome = .ok r) :
    ∃ schedule, s.schedule? p pinned = some schedule ∧
      Schedule.make top s.config.count s.config.ratio = .ok schedule := by
  cases hschedule : s.schedule? p pinned with
  | some schedule =>
    obtain ⟨top', htop', -, hmake, -⟩ := schedule?_eq_some.1 hschedule
    rw [htop'.unique htop] at hmake
    exact ⟨schedule, rfl, hmake⟩
  | none =>
    rcases run_of_none (d := d) hschedule with ⟨f, hf⟩ | ⟨top', htop', hle, -⟩
    · rw [hf] at h
      cases h
    · rw [htop'.unique htop] at hle
      exact absurd hle hpos

/-! ### Steps -/

/-- The steps of a path with a schedule. -/
theorem steps_of_schedule? (h : s.schedule? p pinned = some schedule) :
    d.steps s p pinned = (d.walk s p schedule).points := by
  rw [steps, h]

/-- Without a schedule there is no step. -/
theorem steps_of_none (h : s.schedule? p pinned = none) : d.steps s p pinned = [] := by
  rw [steps, h]

/-- The steps of a path with a schedule are the points of a trail, with which its walk ends. -/
theorem exists_trail (d : Driver α σ) (h : s.schedule? p pinned = some schedule) :
    ∃ turns w, Trail (s.plan schedule) d.engine p turns w ∧
      Walk.Ends (s.plan schedule) w (d.walk s p schedule) ∧ d.steps s p pinned = w.points := by
  obtain ⟨turns, w, htrail, hends⟩ := Walk.finish_reaches (s.plan schedule) d.engine p
  exact ⟨turns, w, htrail, hends, (steps_of_schedule? h).trans hends.points_eq⟩

/-- Every step of a path stands on a trail. -/
theorem exists_trail_of_step {pt : Point α} (hpt : pt ∈ d.steps s p pinned) :
    ∃ schedule turns w, Trail (s.plan schedule) d.engine p turns w ∧ pt ∈ w.points := by
  cases hschedule : s.schedule? p pinned with
  | none =>
    rw [steps_of_none hschedule] at hpt
    cases hpt
  | some schedule =>
    obtain ⟨turns, w, htrail, -, hsteps⟩ := d.exists_trail hschedule
    exact ⟨schedule, turns, w, htrail, hsteps ▸ hpt⟩

/-- A path that returns returns its steps. -/
theorem points_eq_steps {r : Result α} (h : (d.run s p pinned).outcome = .ok r) :
    r.points = d.steps s p pinned := by
  cases hschedule : s.schedule? p pinned with
  | some schedule =>
    rw [run_of_schedule? hschedule, conclude_ok] at h
    obtain ⟨phase, lambdas, -, -, rfl⟩ := h
    rw [steps_of_schedule? hschedule]
  | none =>
    rw [steps_of_none hschedule]
    rcases run_of_none (d := d) hschedule with ⟨f, hf⟩ | ⟨top, -, -, htop⟩
    · rw [hf] at h
      cases h
    · rw [htop] at h
      obtain rfl := Except.ok.inj h
      rfl

end Driver

end RegPath.Path
