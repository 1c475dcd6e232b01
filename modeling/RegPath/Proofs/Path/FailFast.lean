import RegPath.Proofs.Path.Idle
import RegPath.Proofs.Path.Stopping

namespace RegPath.Path

/-!
# Failing fast

A path that stops at an unsolved step is a path that keeps such steps, cut at the first of them.

Until the first unsolved step the policy has no say, so that both walks are the same.  At that step
the penalty has been installed and, without a warm start, the vectors have been forgotten, but the
answer has not been kept: this is how the problem is left behind.

* `Setup.withPolicy`, `Plan.withPolicy` — the same with another policy;
* `Trail.withPolicy`, `Walk.step_withPolicy` — solved steps do not depend on the policy;
* `LeftBehind` — the problem after a path that failed fast;
* `FailsFast`, `Driver.run_failsFast` — how the paths with the two policies compare.
-/

variable {α : Type} [Scalar α] {σ : Type}

/-- The same plan with another policy. -/
def Plan.withPolicy (plan : Plan α σ) (policy : Policy) : Plan α σ :=
  { plan with config := { plan.config with policy } }

/-- The same setup with another policy. -/
def Setup.withPolicy (s : Setup α σ) (policy : Policy) : Setup α σ :=
  { s with config := { s.config with policy } }

/-- The policy has no say in what is asked. -/
theorem Plan.Asks.withPolicy {plan : Plan α σ} {i : Nat} {lam : α} (h : plan.Asks i lam)
    (policy : Policy) : (plan.withPolicy policy).Asks i lam :=
  ⟨h.lt_count, h.entry, h.capped⟩

/-! ### Solved steps -/

/-- If the first points are solved, so are the first turns. -/
theorem Trail.solved_of_points {plan : Plan α σ} {e : σ} {p : Problem α} {turns : List (Turn α)}
    {w : Walk α σ} (h : Trail plan e p turns w) {j : Nat}
    (hok : ∀ pt ∈ w.points.take j, pt.status.ok = true) :
    ∀ t ∈ turns.take j, t.solution.status.ok = true := by
  intro t ht
  obtain ⟨i, hi⟩ := List.getElem?_of_mem ht
  have hlt := (List.getElem?_eq_some_iff.1 hi).1
  have hij : i < j := by
    rw [List.length_take] at hlt
    omega
  rw [List.getElem?_take_of_lt hij] at hi
  have hpt : (w.points.take j)[i]? = some (t.point i) := by
    rw [List.getElem?_take_of_lt hij, h.getElem?_points, hi, Option.map_some]
  exact hok (t.point i) (List.mem_of_getElem? hpt)

/-- A trail of solved steps does not depend on the policy. -/
theorem Trail.withPolicy {plan : Plan α σ} {e : σ} {p : Problem α} {turns : List (Turn α)}
    {w : Walk α σ} (h : Trail plan e p turns w) (policy : Policy)
    (hok : ∀ t ∈ turns, t.solution.status.ok = true) :
    Trail (plan.withPolicy policy) e p turns w := by
  induction h with
  | start => exact .start
  | @next turns w lam s hpos _ running asks reply _ ih =>
    have hsolved : s.status.ok = true := hok _ (List.mem_concat_self)
    have hadmits : s.status.ok = false → policy ≠ .stop := by
      intro hunsolved
      rw [hsolved] at hunsolved
      cases hunsolved
    exact .next hpos (ih fun t ht => hok t (List.mem_append_left _ ht)) running
      (asks.withPolicy policy) reply hadmits

namespace Walk

/-- A step whose answer is solved, or that gets none, does not depend on the policy. -/
theorem step_withPolicy {plan : Plan α σ} {w : Walk α σ} (policy : Policy)
    (hok : ∀ lam hpos s, plan.Asks w.points.length lam →
      (w.reply plan lam hpos).outcome = .ok s → s.status.ok = true) :
    w.step (plan.withPolicy policy) = w.step plan := by
  -- Only an unsolved answer would be treated by the policy, so both steps go the same way.
  let plan' := plan.withPolicy policy
  by_cases hcount : plan.schedule.count ≤ w.points.length
  · have hcount' : plan'.schedule.count ≤ w.points.length := hcount
    exact (step_of_count_le hcount').trans (step_of_count_le hcount).symm
  have hlt : plan.schedule.count > w.points.length := Nat.lt_of_not_le hcount
  have hlt' : w.points.length < plan'.schedule.count := hlt
  cases hentry : plan.schedule.entry? w.points.length with
  | none =>
    have hentry' : plan'.schedule.entry? w.points.length = none := hentry
    exact (step_of_refused hlt' (.inl ⟨hentry', rfl⟩)).trans
      (step_of_refused hlt (.inl ⟨hentry, rfl⟩)).symm
  | some lam =>
    have hentry' : plan'.schedule.entry? w.points.length = some lam := hentry
    cases hcapped : capped plan.config w.points.length with
    | true =>
      exact (step_of_capped hlt' hentry' hcapped).trans (step_of_capped hlt hentry hcapped).symm
    | false =>
      have hasks : plan.Asks w.points.length lam := ⟨hlt, hentry, hcapped⟩
      have hasks' : plan'.Asks w.points.length lam := hasks.withPolicy policy
      by_cases hpos : 0 < lam
      · cases hreply : (w.reply plan lam hpos).outcome with
        | error f =>
          rw [step_of_asks hpos hasks, step_of_asks hpos hasks', call_of_breaks hpos (.inl hreply)]
          exact call_of_breaks hpos (.inl hreply)
        | ok s =>
          have hsolved : s.status.ok ≠ false := by
            rw [hok lam hpos s hasks hreply]
            decide
          rw [step_of_asks hpos hasks, step_of_asks hpos hasks',
            call_of_kept hpos hreply fun hunsolved => absurd hunsolved hsolved]
          exact call_of_kept hpos hreply fun hunsolved => absurd hunsolved hsolved
      · exact (step_of_refused hlt' (.inr ⟨lam, hasks', hpos, rfl⟩)).trans
          (step_of_refused hlt (.inr ⟨lam, hasks, hpos, rfl⟩)).symm

/-- A walk of solved steps does not depend on the policy. -/
theorem finish_withPolicy {plan : Plan α σ} {e : σ} {p : Problem α} (policy : Policy)
    (hkeep : plan.config.policy = .keep)
    (hok : ∀ pt ∈ ((start e p).finish plan).points, pt.status.ok = true) :
    (start e p).finish (plan.withPolicy policy) = (start e p).finish plan := by
  obtain ⟨turns, w, htrail, hends⟩ := finish_reaches plan e p
  have hturns : ∀ t ∈ turns, t.solution.status.ok = true := by
    rw [hends.points_eq, ← List.take_length (l := w.points), htrail.length_points] at hok
    have hsolved := htrail.solved_of_points hok
    rwa [List.take_length] at hsolved
  have htrail' := htrail.withPolicy policy hturns
  generalize hfinish : (start e p).finish plan = w' at hends
  cases hends with
  | last hexit => exact htrail'.finish_of_exit hexit
  | halted running hhalt =>
    -- The last step was not kept, so that its answer is none or solved.
    have hstep : w.step (plan.withPolicy policy) = w.step plan := by
      refine step_withPolicy policy fun lam hpos s hasks hreply => ?_
      have hadmits : s.status.ok = false → plan.config.policy ≠ .stop := by
        intro _
        rw [hkeep]
        exact Policy.noConfusion
      rw [step_of_asks hpos hasks, call_of_kept hpos hreply hadmits] at hhalt
      exact absurd rfl hhalt.not_kept
    have hexit : (w.step (plan.withPolicy policy)).exit ≠ none := by
      rw [hstep]
      exact hhalt.exit_ne
    rw [htrail'.finish_of_step running hexit, hstep]

end Walk

/-! ### The first unsolved step -/

/-- The problem `q` that a path on `p` leaves behind when it fails fast at step `j` with penalty
    `lam`, after the calls of the path that goes on. -/
structure LeftBehind (warm : Bool) (p : Problem α) (calls : List (Request α × Reply α)) (j : Nat)
    (lam : α) (q : Problem α) : Prop where
  /-- The matrix stays. -/
  design : q.design = p.design
  /-- The observations stay. -/
  observations : q.observations = p.observations
  /-- The row terms stay. -/
  rowTerms : q.rowTerms = p.rowTerms
  /-- The penalty is the scale of every column term. -/
  colTerms : Rescaled p.colTerms q.colTerms lam
  /-- With a warm start the vectors stay before the first step. -/
  first : warm = true → j = 0 → q.x = p.x ∧ q.y = p.y
  /-- Then they are those of the last solved step. -/
  later : warm = true → ∀ i, j = i + 1 → ∃ (c : Request α × Reply α) (a : Solution α),
    calls[i]? = some c ∧ c.2.outcome = .ok a ∧ q.x = a.x ∧ q.y = a.y
  /-- Without a warm start they are zero. -/
  cold : warm = false → q.x = Vec.zeros p.width ∧ q.y = Vec.zeros p.height

namespace Trail

variable {plan : Plan α σ} {e : σ} {p : Problem α} {turns : List (Turn α)} {w : Walk α σ}

/-- At its first unsolved turn the walk breaks off that does not keep it. -/
theorem finish_of_unsolved (h : Trail plan e p turns w) {j : Nat} {t : Turn α}
    (ht : turns[j]? = some t) (hunsolved : t.solution.status.ok = false)
    (hok : ∀ u ∈ turns.take j, u.solution.status.ok = true) :
    ∃ v hpos, Trail plan e p (turns.take j) v ∧
      (Walk.start e p).finish (plan.withPolicy .stop) = (v.asked plan t.lam hpos).halt
        (.fault (.solverFailure j t.lam t.solution.status)) := by
  obtain ⟨v, hpos, hv, running, hasks, hreply, -⟩ := h.before ht
  have hj : v.points.length = j := by
    rw [hv.length_points]
    exact List.length_take_of_le (Nat.le_of_lt (List.getElem?_eq_some_iff.1 ht).1)
  rw [hj] at hasks
  -- Up to the turn the walk is the same, and there the policy decides.
  have hstep : v.step (plan.withPolicy .stop) = (v.asked plan t.lam hpos).halt
      (.fault (.solverFailure j t.lam t.solution.status)) := by
    rw [Walk.step_of_asks hpos (hj ▸ hasks.withPolicy .stop)]
    have hbreaks : Walk.Breaks (plan.withPolicy .stop) v.points.length t.lam
        (v.reply plan t.lam hpos).outcome (.solverFailure j t.lam t.solution.status) :=
      .inr ⟨t.solution, hreply, hunsolved, rfl, by rw [hj]⟩
    exact Walk.call_of_breaks hpos hbreaks
  have hexit : (v.step (plan.withPolicy .stop)).exit ≠ none := by
    rw [hstep]
    exact Option.some_ne_none _
  refine ⟨v, hpos, hv, ?_⟩
  rw [(hv.withPolicy .stop hok).finish_of_step running hexit, hstep]

/-- What the problem is before the call of a step that follows on the turns. -/
theorem leftBehind (h : Trail plan e p turns w) {calls : List (Request α × Reply α)}
    (hcalls : turns.map Turn.call <+: calls) {lam : α} (hpos : 0 < lam)
    (hasks : plan.Asks turns.length lam) :
    LeftBehind plan.config.warmStart p calls turns.length lam
      (plan.pose w.problem lam hpos) := by
  obtain ⟨more, rfl⟩ := hcalls
  -- With a warm start the vectors are those that the step would have asked about.
  have hasked := (h.askedAt_next hpos (by rwa [h.length_points])).append more
  rw [h.pose_problem hpos]
  constructor
  case design => exact plan.pose_design _ lam hpos
  case observations => exact plan.pose_observations _ lam hpos
  case rowTerms => exact plan.pose_rowTerms _ lam hpos
  case colTerms =>
    rw [plan.pose_colTerms]
    exact rescaled_withScale p.colTerms hpos
  case first =>
    intro hwarm hzero
    obtain ⟨hx, hy⟩ := hasked.first hzero
    rw [(Plan.pose_warm hwarm _ hpos).1, (Plan.pose_warm hwarm _ hpos).2]
    exact ⟨hx, hy⟩
  case later =>
    intro hwarm i hi
    obtain ⟨c, a, hc, ha, hx, hy⟩ := hasked.later i hi
    rw [(Plan.pose_warm hwarm _ hpos).1, (Plan.pose_warm hwarm _ hpos).2]
    exact ⟨c, a, hc, ha, hx, hy⟩
  case cold =>
    intro hcold
    exact Plan.pose_cold hcold _ hpos

end Trail

/-! ### Paths -/

/-- How a path that stops at an unsolved step compares with the path that keeps such steps. -/
structure FailsFast (s : Setup α σ) (d : Driver α σ) (p : Problem α) (pinned : Option α) :
    Prop where
  /-- Without an unsolved step both are the same. -/
  solved : (∀ pt ∈ d.steps (s.withPolicy .keep) p pinned, pt.status.ok = true) →
    d.run (s.withPolicy .stop) p pinned = d.run (s.withPolicy .keep) p pinned
  /-- Else the one breaks off at the first unsolved step of the other. -/
  unsolved : ∀ (j : Nat) (pt : Point α),
    (d.steps (s.withPolicy .keep) p pinned)[j]? = some pt → pt.status.ok = false →
    (∀ pt' ∈ (d.steps (s.withPolicy .keep) p pinned).take j, pt'.status.ok = true) →
      s.penalty? p pinned j = some pt.lam ∧
      (d.run (s.withPolicy .stop) p pinned).outcome =
        .error (.solverFailure j pt.lam pt.status) ∧
      ∃ q, (d.run (s.withPolicy .stop) p pinned).problem = some q ∧
        LeftBehind s.config.warmStart p (d.calls (s.withPolicy .keep) p pinned) j pt.lam q
  /-- The steps are the points of the path that keeps them, if it returns. -/
  returned : ∀ r, (d.run (s.withPolicy .keep) p pinned).outcome = .ok r →
    r.points = d.steps (s.withPolicy .keep) p pinned

/-- Failing fast is keeping unsolved steps, cut at the first of them. -/
theorem Driver.run_failsFast (s : Setup α σ) (d : Driver α σ) (p : Problem α)
    (pinned : Option α) : FailsFast s d p pinned := by
  have hschedules : ∀ policy, (s.withPolicy policy).schedule? p pinned = s.schedule? p pinned :=
    fun _ => schedule?_congr rfl rfl p pinned
  constructor
  case solved =>
    intro hok
    cases hschedule : s.schedule? p pinned with
    | none => exact run_congr_of_none rfl rfl ((hschedules .keep).trans hschedule)
    | some schedule =>
      have hkeep := (hschedules .keep).trans hschedule
      rw [steps_of_schedule? hkeep] at hok
      have hwalk : d.walk (s.withPolicy .stop) p schedule =
          d.walk (s.withPolicy .keep) p schedule :=
        Walk.finish_withPolicy .stop rfl hok
      rw [run_of_schedule? ((hschedules .stop).trans hschedule), run_of_schedule? hkeep, hwalk]
  case unsolved =>
    intro j pt hpt hunsolved hok
    cases hschedule : s.schedule? p pinned with
    | none =>
      rw [steps_of_none ((hschedules .keep).trans hschedule)] at hpt
      cases hpt
    | some schedule =>
      have hkeep := (hschedules .keep).trans hschedule
      let plan := (s.withPolicy .keep).plan schedule
      obtain ⟨turns, w, htrail, -, hsteps⟩ := d.exists_trail hkeep
      rw [hsteps] at hpt hok
      obtain ⟨t, ht, rfl⟩ := htrail.exists_turn hpt
      obtain ⟨v, hpos, hv, hfinish⟩ :=
        htrail.finish_of_unsolved ht hunsolved (htrail.solved_of_points hok)
      have hasks := htrail.turn_asks ht
      have hstop : d.walk (s.withPolicy .stop) p schedule = (v.asked plan t.lam hpos).halt
        (.fault (.solverFailure j t.lam t.solution.status)) := hfinish
      rw [run_of_schedule? ((hschedules .stop).trans hschedule), hstop]
      refine ⟨(penalty?_of_schedule? hschedule j).trans hasks.entry, rfl, _, rfl, ?_⟩
      have hj : (turns.take j).length = j :=
        List.length_take_of_le (Nat.le_of_lt (List.getElem?_eq_some_iff.1 ht).1)
      -- The problem is the one that was posed for the step.
      have hleft := hv.leftBehind (turns_prefix_calls hkeep hv) hpos (by rwa [hj])
      rwa [hj] at hleft
  case returned =>
    intro r hr
    exact points_eq_steps hr

/-- The path without a solver fails at its first step. -/
theorem Driver.run_failsFast_idle :
    (Driver.run (idleSetup.withPolicy .stop) (.new none) startedProblem (some 1)).outcome =
      .error (.solverFailure 0 1 .failed) := by
  have hkeep : idleSetup.withPolicy .keep = idleSetup := rfl
  obtain ⟨r, hr⟩ := idle_returns (.new none)
  obtain ⟨schedule, hschedule, hmake⟩ := exists_schedule? (.inl rfl) (not_le.2 one_pos) hr
  have hpos := (Stopping.of_run hschedule hr).pos
  rw [points_eq_steps hr] at hpos
  have hpt := List.getElem?_eq_getElem hpos
  have hstatus := (steps_of_givesBack idleEngine_givesBack startedProblem_wellFormed rfl _
    (List.mem_of_getElem? hpt)).2
  obtain ⟨hpenalty, houtcome, -⟩ :=
    (Driver.run_failsFast idleSetup (.new none) startedProblem (some 1)).unsolved 0 _ hpt
      (by rw [hstatus]; rfl) (by rw [List.take_zero]; rintro pt ⟨⟩)
  -- The first penalty is the given one.
  rw [penalty?_of_schedule? hschedule, schedule.entry?_zero, (Schedule.make_ok hmake).1] at hpenalty
  rw [houtcome, ← Option.some.inj hpenalty, hstatus]

end RegPath.Path
