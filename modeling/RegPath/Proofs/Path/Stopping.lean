import RegPath.Proofs.Path.Outcome
import RegPath.Proofs.Path.Transcript

namespace RegPath.Path

/-!
# Where a path stops

A path takes its steps in order until two iterates agree, the time is up, or the steps that were
asked for are done, and its phase says which of these came first.

* `Config.stepLimit`, `Config.Agrees`, `Setup.Late` — the three reasons to stop;
* `Walk.finish_phase` — a walk that ends in a phase;
* `Stopping` — the steps of a path and its phase;
* `Stopping.of_run`, `Driver.run_stopping` — every path with a result stops in this way;
* `Stopping.x_eq_last` — its coefficients are those of its last point;
* `Config.Unlimited`, `Stopping.exhausted_of_unlimited` — paths that walk their whole schedule.
-/

variable {α : Type} [Scalar α] {σ : Type}

/-! ### Reasons to stop -/

/-- No step may end the path before its schedule does. -/
structure Config.Unlimited (c : Config α) : Prop where
  /-- Agreement of two iterates is no reason to stop. -/
  earlyStop : c.earlyStop = false
  /-- There is no time limit. -/
  maxTime : c.maxTime = none
  /-- All steps are asked for. -/
  maxSteps : c.maxSteps = none

/-- The number of steps that are asked for. -/
def Config.stepLimit (c : Config α) : Nat :=
  match c.maxSteps with
  | none => c.count
  | some k => min c.count k

/-- Whether the path may end with the iterate `x` because it agrees with the one before. -/
def Config.Agrees (c : Config α) (x previous : List α) : Prop :=
  c.earlyStop = true ∧ 0 < Vec.norm1 x ∧ converged? c.tol x previous = some true

/-- Whether the time limit is reached after step `i`. -/
def Setup.Late (s : Setup α σ) (i : Nat) : Prop :=
  ∃ limit, s.config.maxTime = some limit ∧ limit ≤ s.elapsed i

/-- At least one step is asked for. -/
theorem Config.stepLimit_pos (c : Config α) : 0 < c.stepLimit := by
  have hcount := c.count_pos
  unfold stepLimit
  cases h : c.maxSteps with
  | none => exact hcount
  | some k =>
    have hk := c.maxSteps_pos k h
    show 0 < min c.count k
    omega

/-- The limit is reached from the number of steps on that are asked for. -/
theorem Config.stepLimit_le_iff (c : Config α) (i : Nat) :
    c.stepLimit ≤ i ↔ c.count ≤ i ∨ Walk.capped c i = true := by
  unfold stepLimit Walk.capped
  cases c.maxSteps with
  | none => simp
  | some k =>
    simp only [Option.any_some, decide_eq_true_eq]
    omega

namespace Walk

/-- The test of a step. -/
theorem agrees?_eq_true {c : Config α} {x previous : List α} :
    agrees? c x previous = some true ↔ c.Agrees x previous := by
  unfold agrees? Config.Agrees
  by_cases h : c.earlyStop = true ∧ 0 < Vec.norm1 x
  · rw [if_pos h]
    exact ⟨fun hconv => ⟨h.1, h.2, hconv⟩, fun hagrees => hagrees.2.2⟩
  · rw [if_neg h]
    exact ⟨fun hconv => absurd hconv (by simp), fun hagrees => absurd ⟨hagrees.1, hagrees.2.1⟩ h⟩

/-- The clock after a step. -/
theorem late_isSome {s : Setup α σ} {schedule : Schedule α} {i : Nat} :
    (late ⟨s.config, s.engine, s.elapsed, schedule⟩ i).isSome ↔ s.Late i := by
  unfold late Setup.Late
  cases s.config.maxTime with
  | none => simp
  | some limit => simp [Option.filter]

/-- A walk that goes on after a step: neither reason holds. -/
theorem not_of_verdict?_eq_none {s : Setup α σ} {schedule : Schedule α} {previous x : List α}
    {i : Nat} (h : verdict? ⟨s.config, s.engine, s.elapsed, schedule⟩ previous i x = none) :
    ¬ s.config.Agrees x previous ∧ ¬ s.Late i := by
  obtain ⟨hagrees, hlate⟩ := verdict?_eq_none.1 h
  constructor
  · intro hconv
    rw [agrees?_eq_true.2 hconv] at hagrees
    cases hagrees
  · intro htime
    rw [← late_isSome, hlate] at htime
    cases htime

/-- A walk that ends in a phase after a kept step: one of the two reasons holds. -/
theorem reason_of_verdict? {s : Setup α σ} {schedule : Schedule α} {previous x : List α}
    {i : Nat} {phase : Phase}
    (h : verdict? ⟨s.config, s.engine, s.elapsed, schedule⟩ previous i x = some (.phase phase)) :
    s.config.Agrees x previous ∧ phase = .converged ∨
      ¬ s.config.Agrees x previous ∧ s.Late i ∧ phase = .timedOut := by
  rcases verdict?_eq_phase.1 h with ⟨hagrees, hphase⟩ | ⟨hagrees, hlate, hphase⟩
  · exact .inl ⟨agrees?_eq_true.1 hagrees, hphase⟩
  · refine .inr ⟨fun hconv => ?_, late_isSome.1 hlate, hphase⟩
    rw [agrees?_eq_true.2 hconv] at hagrees
    cases hagrees

/-! ### Walks that end in a phase -/

variable {plan : Plan α σ} {e : σ} {p : Problem α} {turns : List (Turn α)} {w : Walk α σ}

/-- A trail takes no more steps than are asked for. -/
theorem length_le_stepLimit (h : Trail plan e p turns w)
    (hcount : plan.schedule.count = plan.config.count) :
    w.points.length ≤ plan.config.stepLimit := by
  by_cases hle : w.points.length ≤ plan.config.stepLimit
  · exact hle
  · -- Otherwise the step at the limit has been taken.
    have hlt : plan.config.stepLimit < w.points.length := by omega
    have hasks := (h.point_asks (List.getElem?_eq_getElem hlt)).2
    rcases (plan.config.stepLimit_le_iff _).1 (Nat.le_refl _) with hend | hcapped
    · have hlt_count := hasks.lt_count
      omega
    · rw [hasks.capped] at hcapped
      cases hcapped

/-- A walk that ends in a phase ends with its last step, or without a reason when all steps are
    done. -/
theorem finish_phase {phase : Phase} (hcount : plan.schedule.count = plan.config.count)
    (h : ((start e p).finish plan).exit = some (.phase phase)) :
    ∃ turns w, Trail plan e p turns w ∧ 0 < w.points.length ∧
      ((start e p).finish plan).points = w.points ∧
      ((start e p).finish plan).problem = w.problem ∧
      ((start e p).finish plan).engine = w.engine ∧
      (w.exit = some (.phase phase) ∨
        w.exit = none ∧ phase = .exhausted ∧ w.points.length = plan.config.stepLimit) := by
  obtain ⟨turns, w, htrail, ⟨hexit, heq⟩ | ⟨hexit, hhalt⟩⟩ := finish_ends plan e p
  · rw [heq] at h ⊢
    refine ⟨turns, w, htrail, ?_, rfl, rfl, rfl, .inl h⟩
    cases htrail with
    | start => exact absurd rfl hexit
    | next =>
      rw [keep_points, List.length_append, List.length_singleton]
      exact Nat.succ_pos _
  · generalize (start e p).finish plan = w' at h hhalt
    cases hhalt with
    | spent hspent =>
      have hphase : phase = .exhausted := by
        simp only [halt, Option.some.injEq, Exit.phase.injEq] at h
        exact h.symm
      rw [hcount, ← plan.config.stepLimit_le_iff] at hspent
      have hpos := plan.config.stepLimit_pos
      have hle := length_le_stepLimit htrail hcount
      exact ⟨turns, w, htrail, by omega, rfl, rfl, rfl, .inr ⟨hexit, hphase, by omega⟩⟩
    | refused => cases h
    | broken => cases h

end Walk

/-! ### Paths with a result -/

/-- The steps of a path with their calls, and the phase in which it ended. -/
structure Stopping (s : Setup α σ) (p : Problem α) (schedule : Schedule α)
    (calls : List (Request α × Reply α)) (r : Result α) : Prop where
  /-- The whole schedule is reported. -/
  lambdas : schedule.grid = .ok r.lambdas
  /-- It has as many entries as the configuration says. -/
  length_lambdas : r.lambdas.length = s.config.count
  /-- There is a step. -/
  pos : 0 < r.points.length
  /-- There are no more steps than are asked for. -/
  le_stepLimit : r.points.length ≤ s.config.stepLimit
  /-- The steps are in order, each with its entry of the schedule. -/
  step : ∀ (i : Nat) (pt : Point α), r.points[i]? = some pt →
    pt.step = i ∧ r.lambdas[i]? = some pt.lam
  /-- There is a call for each step. -/
  length_calls : calls.length = r.points.length
  /-- Each point is what the engine returned. -/
  answer : ∀ (i : Nat) (pt : Point α), r.points[i]? = some pt →
    ∃ (q : Request α) (reply : Reply α) (a : Solution α), calls[i]? = some (q, reply) ∧
      reply.outcome = .ok a ∧ pt.x = a.x ∧ pt.status = a.status ∧ pt.iterations = a.iterations
  /-- The final vectors are those of the last call. -/
  last : ∃ (q : Request α) (reply : Reply α) (a : Solution α),
    calls.getLast? = some (q, reply) ∧ reply.outcome = .ok a ∧ r.x = a.x ∧ r.y = a.y
  /-- Before the last step there is no reason to stop. -/
  goes_on : ∀ (i : Nat) (pt : Point α), r.points[i]? = some pt → i + 1 < r.points.length →
    ¬ s.config.Agrees pt.x (iterateBefore p.width r.points i) ∧ ¬ s.Late i
  /-- There is no other end. -/
  phase : r.phase = .converged ∨ r.phase = .timedOut ∨ r.phase = .exhausted
  /-- The path has converged if the last iterate agrees with the one before. -/
  converged : r.phase = .converged ↔
    s.config.Agrees r.x (iterateBefore p.width r.points (r.points.length - 1))
  /-- It is timed out if the last step is late and does not agree. -/
  timedOut : r.phase = .timedOut ↔ s.Late (r.points.length - 1) ∧
    ¬ s.config.Agrees r.x (iterateBefore p.width r.points (r.points.length - 1))
  /-- It is exhausted if neither is the case and all steps are done that are asked for. -/
  exhausted : r.phase = .exhausted ↔
    ¬ s.config.Agrees r.x (iterateBefore p.width r.points (r.points.length - 1)) ∧
      ¬ s.Late (r.points.length - 1) ∧ r.points.length = s.config.stepLimit

/-- A trail with a point has a last turn, which gave the last point and the vectors. -/
theorem Trail.exists_last {plan : Plan α σ} {e : σ} {p : Problem α} {turns : List (Turn α)}
    {w : Walk α σ} (h : Trail plan e p turns w) (hpos : 0 < w.points.length) :
    ∃ t, turns.getLast? = some t ∧ w.problem.x = t.solution.x ∧ w.problem.y = t.solution.y ∧
      w.points[w.points.length - 1]? = some (t.point (w.points.length - 1)) := by
  have hlen := h.length_points
  have hlt : turns.length - 1 < turns.length := by omega
  have hlast : turns.getLast? = some turns[turns.length - 1] := by
    rw [List.getLast?_eq_getElem?, List.getElem?_eq_getElem hlt]
  refine ⟨_, hlast, (h.problem_eq hlast).1, (h.problem_eq hlast).2, ?_⟩
  rw [hlen, h.getElem?_points, List.getElem?_eq_getElem hlt]
  rfl

/-- Which reason a walk had that ended in a phase. -/
theorem Walk.reason_of_trail {s : Setup α σ} {schedule : Schedule α} {e : σ} {p : Problem α}
    {turns : List (Turn α)} {w : Walk α σ} {phase : Phase}
    (h : Trail ⟨s.config, s.engine, s.elapsed, schedule⟩ e p turns w) {pt : Point α}
    (hpos : 0 < w.points.length) (hpt : w.points[w.points.length - 1]? = some pt)
    (hend : w.exit = some (.phase phase) ∨
      w.exit = none ∧ phase = .exhausted ∧ w.points.length = s.config.stepLimit) :
    let before := iterateBefore p.width w.points (w.points.length - 1)
    s.config.Agrees pt.x before ∧ phase = .converged ∨
      ¬ s.config.Agrees pt.x before ∧ s.Late (w.points.length - 1) ∧ phase = .timedOut ∨
        ¬ s.config.Agrees pt.x before ∧ ¬ s.Late (w.points.length - 1) ∧ phase = .exhausted ∧
          w.points.length = s.config.stepLimit := by
  have hverdict := h.exit_eq hpt (Nat.sub_add_cancel hpos)
  rcases hend with hexit | ⟨hexit, hphase, hlimit⟩
  · rw [hexit] at hverdict
    rcases reason_of_verdict? hverdict.symm with hconverged | htimedOut
    · exact .inl hconverged
    · exact .inr (.inl htimedOut)
  · rw [hexit] at hverdict
    obtain ⟨hagrees, hlate⟩ := not_of_verdict?_eq_none hverdict.symm
    exact .inr (.inr ⟨hagrees, hlate, hphase, hlimit⟩)

/-- The phase tells which of the reasons it was. -/
theorem phase_of_reason {phase : Phase} {agrees late done : Prop}
    (h : agrees ∧ phase = .converged ∨ ¬ agrees ∧ late ∧ phase = .timedOut ∨
      ¬ agrees ∧ ¬ late ∧ phase = .exhausted ∧ done) :
    (phase = .converged ∨ phase = .timedOut ∨ phase = .exhausted) ∧
      (phase = .converged ↔ agrees) ∧ (phase = .timedOut ↔ late ∧ ¬ agrees) ∧
      (phase = .exhausted ↔ ¬ agrees ∧ ¬ late ∧ done) := by
  rcases h with ⟨hagrees, rfl⟩ | ⟨hagrees, hlate, rfl⟩ | ⟨hagrees, hlate, rfl, hdone⟩
  · simp [hagrees]
  · simp [hagrees, hlate]
  · simp [hagrees, hlate, hdone]

/-- A walk with the record that ended in a phase gives a path that stops as it should. -/
theorem Stopping.of_trail {s : Setup α σ} {schedule : Schedule α} {lambdas : List α} {e : σ}
    {p : Problem α} {turns : List (Turn α)} {w : Walk α (σ × List (Request α × Reply α))}
    {phase : Phase} (hcount : schedule.count = s.config.count)
    (hgrid : schedule.grid = .ok lambdas)
    (h : Trail ⟨s.config, s.engine.recorded, s.elapsed, schedule⟩ (e, []) p turns w)
    (hpos : 0 < w.points.length)
    (hend : w.exit = some (.phase phase) ∨
      w.exit = none ∧ phase = .exhausted ∧ w.points.length = s.config.stepLimit) :
    Stopping s p schedule w.engine.2
      ⟨w.points, phase, schedule.top, lambdas, w.problem.x, w.problem.y⟩ := by
  obtain ⟨t, ht, hx, hy, hpt⟩ := h.exists_last hpos
  have htrail : Trail (Plan.recorded ⟨s.config, s.engine, s.elapsed, schedule⟩) (e, []) p turns w :=
    h
  have hrecord := htrail.record_eq
  have hreason := Walk.reason_of_trail (s := s.recorded) h hpos hpt hend
  rw [show (t.point (w.points.length - 1)).x = w.problem.x from hx.symm] at hreason
  obtain ⟨hphase, hconverged, htimedOut, hexhausted⟩ := phase_of_reason hreason
  constructor
  case lambdas => exact hgrid
  case length_lambdas => exact (Schedule.length_of_grid hgrid).trans hcount
  case pos => exact hpos
  case le_stepLimit => exact Walk.length_le_stepLimit h hcount
  case step =>
    intro i pt hi
    obtain ⟨hstep, hasks⟩ := h.point_asks hi
    exact ⟨hstep, (Schedule.entry?_eq_of_grid hgrid hasks.lt_count).symm.trans hasks.entry⟩
  case length_calls =>
    show w.engine.2.length = w.points.length
    rw [hrecord, List.length_map, h.length_points]
  case answer =>
    intro i pt hi
    obtain ⟨u, hu, rfl⟩ := h.exists_turn hi
    refine ⟨u.request, u.reply, u.solution, ?_, h.outcome_eq (List.mem_of_getElem? hu), rfl, rfl,
      rfl⟩
    rw [hrecord, List.getElem?_map, hu]
    rfl
  case last =>
    refine ⟨t.request, t.reply, t.solution, ?_, h.outcome_eq (List.mem_of_getLast? ht), hx, hy⟩
    rw [hrecord, List.getLast?_map, ht]
    rfl
  case goes_on =>
    intro i pt hi hlt
    have hverdict := h.verdict_eq hi
    rw [if_neg (Nat.ne_of_lt hlt)] at hverdict
    exact Walk.not_of_verdict?_eq_none (s := s.recorded) hverdict
  case phase => exact hphase
  case converged => exact hconverged
  case timedOut => exact htimedOut
  case exhausted => exact hexhausted

/-- A path with a schedule and a result stops as it should. -/
theorem Stopping.of_run {s : Setup α σ} {d : Driver α σ} {p : Problem α} {pinned : Option α}
    {schedule : Schedule α} {r : Result α} (hschedule : s.schedule? p pinned = some schedule)
    (h : (d.run s p pinned).outcome = .ok r) :
    Stopping s p schedule (d.calls s p pinned) r := by
  let plan := s.recorded.plan schedule
  have hcount : plan.schedule.count = plan.config.count := Driver.count_of_schedule? hschedule
  -- The path with the record has the same outcome.
  have hrecorded : s.recorded.schedule? p pinned = some schedule :=
    (Driver.schedule?_congr rfl rfl p pinned).trans hschedule
  rw [← Driver.run_recorded] at h
  change (d.recorded.run s.recorded p pinned).outcome = .ok r at h
  rw [Driver.run_of_schedule? hrecorded, Driver.conclude_ok] at h
  obtain ⟨phase, lambdas, hexit, hgrid, rfl⟩ := h
  obtain ⟨turns, w, htrail, hpos, hpoints, hproblem, hengine, hend⟩ :=
    Walk.finish_phase hcount hexit
  have hstopping := Stopping.of_trail (s := s) hcount hgrid htrail hpos hend
  rw [← hengine, ← hpoints, ← hproblem] at hstopping
  rw [Driver.calls_of_schedule? hschedule]
  exact hstopping

namespace Stopping

variable {s : Setup α σ} {p : Problem α} {schedule : Schedule α}
  {calls : List (Request α × Reply α)} {r : Result α}

/-- The iterate of a point is the answer of its call. -/
theorem x_eq_of_call (h : Stopping s p schedule calls r) {i : Nat} {pt : Point α}
    {c : Request α × Reply α} {a : Solution α} (hpt : r.points[i]? = some pt)
    (hc : calls[i]? = some c) (ha : c.2.outcome = .ok a) : pt.x = a.x := by
  obtain ⟨q, reply, a', hc', ha', hx, -⟩ := h.answer i pt hpt
  obtain rfl := Option.some.inj (hc.symm.trans hc')
  obtain rfl := Except.ok.inj (ha.symm.trans ha')
  exact hx

/-- The final coefficients are those of the last point. -/
theorem x_eq_last (h : Stopping s p schedule calls r) {pt : Point α}
    (hpt : r.points[r.points.length - 1]? = some pt) : r.x = pt.x := by
  obtain ⟨q, reply, a, hlast, ha, hx, -⟩ := h.last
  rw [List.getLast?_eq_getElem?, h.length_calls] at hlast
  exact hx.trans (h.x_eq_of_call hpt hlast ha).symm

end Stopping

/-- A path that nothing may end before is exhausted after a step for each entry of its schedule. -/
theorem Stopping.exhausted_of_unlimited {s : Setup α σ} {p : Problem α} {schedule : Schedule α}
    {calls : List (Request α × Reply α)} {r : Result α} (h : Stopping s p schedule calls r)
    (hunlimited : s.config.Unlimited) :
    r.phase = .exhausted ∧ r.points.length = s.config.count := by
  have hphase : r.phase = .exhausted := by
    rcases h.phase with hphase | hphase | hphase
    · have hstop := (h.converged.1 hphase).1
      rw [hunlimited.earlyStop] at hstop
      cases hstop
    · obtain ⟨⟨limit, hlimit, -⟩, -⟩ := h.timedOut.1 hphase
      rw [hunlimited.maxTime] at hlimit
      cases hlimit
    · exact hphase
  have hlimit : s.config.stepLimit = s.config.count := by
    rw [Config.stepLimit, hunlimited.maxSteps]
  exact ⟨hphase, (h.exhausted.1 hphase).2.2.trans hlimit⟩

/-- A path with a result takes its steps in order until there is a reason to stop or all are done,
    and its phase names the reason, whatever the engine returns and whatever the clock shows. -/
theorem Driver.run_stopping {s : Setup α σ} {d : Driver α σ} {p : Problem α} {pinned : Option α}
    {top : α} {r : Result α} (htop : IsTop p pinned top) (hpos : ¬ top ≤ 0)
    (h : (d.run s p pinned).outcome = .ok r) :
    ∃ schedule, Schedule.make top s.config.count s.config.ratio = .ok schedule ∧
      Stopping s p schedule (d.calls s p pinned) r := by
  obtain ⟨schedule, hschedule, hmake⟩ := exists_schedule? htop hpos h
  exact ⟨schedule, hmake, .of_run hschedule h⟩

/-- The path of a single number stops in this way, if each step takes a unit of time. -/
theorem Driver.run_stopping_brief :
    ∃ r schedule,
      (Driver.run ⟨briefConfig, zeroEngine, fun i => (i : ℝ)⟩ (.new ()) briefProblem
        (some 1)).outcome = .ok r ∧
      Schedule.make 1 3 Scalar.half = .ok schedule ∧
      Stopping ⟨briefConfig, zeroEngine, fun i => (i : ℝ)⟩ briefProblem schedule
        (Driver.calls ⟨briefConfig, zeroEngine, fun i => (i : ℝ)⟩ (.new ()) briefProblem
          (some 1)) r := by
  obtain ⟨r, hr⟩ := brief_returns fun i => (i : ℝ)
  obtain ⟨schedule, hmake, hstopping⟩ := Driver.run_stopping (.inl rfl) (by norm_num) hr
  exact ⟨r, schedule, hr, hmake, hstopping⟩

end RegPath.Path
