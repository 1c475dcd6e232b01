import RegPath.Proofs.Path.Steps

namespace RegPath.Path

/-!
# The calls of a path

A path is run once more with an engine that also writes down its calls.  The record has no
influence: whatever the path does, it does without the record as well.

* `Driver.calls` — the calls of a path, each with its reply;
* `Driver.run_recorded` — the path with the record and the path without;
* `Trail.record_eq`, `Walk.Ends.record` — the record along a trail, and at the end of a walk;
* `Plan.AskedAt`, `Driver.exists_askedAt` — what each call of a path asks;
* `Driver.exists_reply` — each reply is one of the engine.
-/

variable {α : Type} [Scalar α] {σ τ : Type}

/-! ### Forgetting a part of the engine's state -/

/-- The walk without a second part of the engine's state. -/
def Walk.forget (w : Walk α (σ × τ)) : Walk α σ :=
  ⟨w.engine.1, w.problem, w.previous, w.points, w.events, w.exit⟩

/-- The driver without a second part of the engine's state. -/
def Driver.forget (d : Driver α (σ × τ)) : Driver α σ := ⟨d.engine.1, d.phase, d.result⟩

/-- The end of an operation without a second part of the engine's state. -/
def Run.forget (r : Run α (σ × τ)) : Run α σ := ⟨r.outcome, r.driver.forget, r.events, r.problem⟩

/-- The plan with an engine that writes down its calls. -/
def Plan.recorded (plan : Plan α σ) : Plan α (σ × List (Request α × Reply α)) :=
  ⟨plan.config, plan.engine.recorded, plan.elapsed, plan.schedule⟩

/-- The setup with an engine that writes down its calls. -/
def Setup.recorded (s : Setup α σ) : Setup α (σ × List (Request α × Reply α)) :=
  ⟨s.config, s.engine.recorded, s.elapsed⟩

/-- Both plans ask for the same penalties. -/
theorem Plan.asks_recorded {plan : Plan α σ} {i : Nat} {lam : α} :
    plan.recorded.Asks i lam ↔ plan.Asks i lam :=
  ⟨fun h => ⟨h.lt_count, h.entry, h.capped⟩, fun h => ⟨h.lt_count, h.entry, h.capped⟩⟩

namespace Walk

/-- A step is kept alike with and without the record. -/
theorem forget_keep (plan : Plan α σ) (w : Walk α (σ × List (Request α × Reply α))) (i : Nat)
    (lam : α) (s : Solution α) :
    (w.keep plan.recorded i lam s).forget = w.forget.keep plan i lam s := by
  have hconfig : plan.recorded.config = plan.config := rfl
  have hlate : late plan.recorded i = late plan i := rfl
  have hprevious : w.forget.previous = w.previous := rfl
  unfold keep
  simp only [hconfig, hlate, hprevious]
  cases agrees? plan.config s.x w.previous with
  | none => rfl
  | some agreed =>
    cases agreed with
    | true => rfl
    | false =>
      cases late plan i with
      | none => rfl
      | some limit => rfl

/-- A call ends alike with and without the record. -/
theorem forget_call (plan : Plan α σ) (w : Walk α (σ × List (Request α × Reply α))) (i : Nat)
    (lam : α) : (w.call plan.recorded i lam).forget = w.forget.call plan i lam := by
  have hpolicy : plan.recorded.config.policy = plan.config.policy := rfl
  have hreply : (plan.recorded.engine.solve w.engine w.problem.request).1 =
      (plan.engine.solve w.forget.engine w.forget.problem.request).1 := rfl
  unfold call
  simp only [hpolicy, hreply]
  cases (plan.engine.solve w.forget.engine w.forget.problem.request).1.outcome with
  | error f => rfl
  | ok s =>
    by_cases hstop : s.status.ok = false ∧ plan.config.policy = .stop
    · simp only [if_pos hstop]
      rfl
    · simp only [if_neg hstop]
      exact forget_keep plan _ i lam s

/-- A step is alike with and without the record. -/
theorem forget_step (plan : Plan α σ) (w : Walk α (σ × List (Request α × Reply α))) :
    (w.step plan.recorded).forget = w.forget.step plan := by
  have hschedule : plan.recorded.schedule = plan.schedule := rfl
  have hconfig : plan.recorded.config = plan.config := rfl
  have hpoints : w.forget.points = w.points := rfl
  have hproblem : w.forget.problem = w.problem := rfl
  unfold step
  simp only [hschedule, hconfig, hpoints, hproblem]
  by_cases hcount : plan.schedule.count ≤ w.points.length
  · simp only [if_pos hcount]
    rfl
  · simp only [if_neg hcount]
    cases plan.schedule.entry? w.points.length with
    | none => rfl
    | some lam =>
      by_cases hcapped : capped plan.config w.points.length = true
      · simp only [if_pos hcapped]
        rfl
      · simp only [if_neg hcapped]
        cases w.problem.withPenalty? lam with
        | error f => rfl
        | ok problem => exact forget_call plan _ _ lam

/-- Any number of steps are alike with and without the record. -/
theorem forget_advanceBy (plan : Plan α σ) (n : Nat)
    (w : Walk α (σ × List (Request α × Reply α))) :
    (advanceBy plan.recorded n w).forget = advanceBy plan n w.forget := by
  induction n generalizing w with
  | zero => rfl
  | succ n ih =>
    have hexit : w.forget.exit = w.exit := rfl
    cases h : w.exit with
    | some e => rw [advanceBy_of_exit _ _ h, advanceBy_of_exit _ _ (hexit.trans h)]
    | none =>
      rw [advanceBy_succ, advanceBy_succ, advance_of_none _ h, advance_of_none _ (hexit.trans h),
        ih, forget_step]

end Walk

/-! ### Paths -/

namespace Driver

/-- The driver with an empty record. -/
def recorded (d : Driver α σ) : Driver α (σ × List (Request α × Reply α)) :=
  ⟨(d.engine, []), d.phase, d.result⟩

/-- The calls of a path, each with its reply, in order. -/
def calls (s : Setup α σ) (d : Driver α σ) (p : Problem α) (pinned : Option α) :
    List (Request α × Reply α) :=
  (d.recorded.run s.recorded p pinned).driver.engine.2

/-- A path concludes alike with and without the record. -/
theorem forget_conclude (d : Driver α σ) (schedule : Schedule α) (opening : List (Event α))
    (w : Walk α (σ × List (Request α × Reply α))) :
    (d.recorded.conclude schedule opening w).forget = d.conclude schedule opening w.forget := by
  have hexit : w.forget.exit = w.exit := rfl
  unfold conclude
  rw [hexit]
  cases w.exit with
  | none => rfl
  | some e =>
    cases e with
    | phase => rfl
    | fault => rfl

/-- A path from a given top is alike with and without the record. -/
theorem forget_finish (s : Setup α σ) (d : Driver α σ) (p : Problem α) (top : α) :
    (d.recorded.start s.recorded p top).finish.forget = (d.start s p top).finish := by
  have hconfig : s.recorded.config = s.config := rfl
  unfold start
  rw [hconfig]
  by_cases htop : top ≤ 0
  · rw [if_pos htop, if_pos htop]
    rfl
  · rw [if_neg htop, if_neg htop]
    cases Schedule.make top s.config.count s.config.ratio with
    | error f => rfl
    | ok schedule =>
      cases hends : schedule.ends with
      | error f =>
        simp only [hends]
        rfl
      | ok e =>
        simp only [hends]
        exact (forget_conclude d schedule _ _).trans
          (congrArg _ (Walk.forget_advanceBy ⟨s.config, s.engine, s.elapsed, schedule⟩ _ _))

/-- A path is alike with and without the record. -/
theorem run_recorded (s : Setup α σ) (d : Driver α σ) (p : Problem α) (pinned : Option α) :
    (d.recorded.run s.recorded p pinned).forget = d.run s p pinned := by
  unfold run runBy
  cases pinned with
  | some top => exact forget_finish s d p top
  | none =>
    cases lambdaMax p.design.matrix p.observations with
    | error f => rfl
    | ok top => exact forget_finish s d p top

end Driver

/-! ### What the engine is asked -/

/-- The record along a trail holds the calls of its turns. -/
theorem Trail.record_eq {plan : Plan α σ} {e : σ} {p : Problem α} {turns : List (Turn α)}
    {w : Walk α (σ × List (Request α × Reply α))} (h : Trail plan.recorded (e, []) p turns w) :
    w.engine.2 = turns.map Turn.call := by
  induction h with
  | start => rfl
  | next _ _ _ _ _ _ ih =>
    rw [Walk.keep_engine, List.map_append, ← ih]
    rfl

/-- Every trail is one with the record. -/
theorem Trail.record {plan : Plan α σ} {e : σ} {p : Problem α} {turns : List (Turn α)}
    {w : Walk α σ} (h : Trail plan e p turns w) :
    ∃ v, Trail plan.recorded (e, []) p turns v ∧ v.forget = w := by
  induction h with
  | start => exact ⟨_, .start, rfl⟩
  | @next turns w lam s hpos _ running asks reply policy ih =>
    obtain ⟨v, hv, rfl⟩ := ih
    exact ⟨_, .next hpos hv running (Plan.asks_recorded.2 asks) reply policy,
      Walk.forget_keep plan _ _ lam s⟩

/-- What a whole walk adds to the record of its trail: nothing, or the call that it broke off
    after. -/
theorem Walk.Ends.record {plan : Plan α σ} {w w' : Walk α (σ × List (Request α × Reply α))}
    (h : Walk.Ends plan.recorded w w') :
    w'.engine.2 = w.engine.2 ∨
      ∃ lam hpos f, plan.Asks w.points.length lam ∧
        Breaks plan w.points.length lam (w.reply plan.recorded lam hpos).outcome f ∧
          w'.exit = some (.fault f) ∧
            w'.engine.2 = w.engine.2 ++ [((plan.pose w.problem lam hpos).request,
              w.reply plan.recorded lam hpos)] := by
  cases h with
  | last => exact .inl rfl
  | halted running hhalt =>
    generalize w.step plan.recorded = w' at hhalt ⊢
    cases hhalt with
    | spent => exact .inl rfl
    | refused => exact .inl rfl
    | broken lam hpos f hasks hbreaks =>
      exact .inr ⟨lam, hpos, f, Plan.asks_recorded.1 hasks, hbreaks, rfl, rfl⟩

/-- The request of step `i` with the calls before: the problem with the penalty of the step,
    starting from the vectors of the problem or of the call before. -/
structure Plan.AskedAt (plan : Plan α σ) (p : Problem α) (calls : List (Request α × Reply α))
    (i : Nat) (q : Request α) (lam : α) (x y : List α) : Prop where
  /-- The penalty is the entry of the schedule. -/
  asks : plan.Asks i lam
  /-- The problem with the penalty. -/
  request : ∃ hpos, q = (plan.pose { p with x := x, y := y } lam hpos).request
  /-- The first step starts from the vectors of the problem. -/
  first : i = 0 → x = p.x ∧ y = p.y
  /-- A later step starts from the vectors of the step before. -/
  later : ∀ j, i = j + 1 → ∃ (c : Request α × Reply α) (a : Solution α),
    calls[j]? = some c ∧ c.2.outcome = .ok a ∧ x = a.x ∧ y = a.y

/-- Further calls do not change what came before a step. -/
theorem Plan.AskedAt.append {plan : Plan α σ} {p : Problem α} {calls : List (Request α × Reply α)}
    {i : Nat} {q : Request α} {lam : α} {x y : List α} (h : plan.AskedAt p calls i q lam x y)
    (more : List (Request α × Reply α)) : plan.AskedAt p (calls ++ more) i q lam x y := by
  refine ⟨h.asks, h.request, h.first, fun j hj => ?_⟩
  obtain ⟨c, a, hc, ha, hx, hy⟩ := h.later j hj
  refine ⟨c, a, ?_, ha, hx, hy⟩
  rw [List.getElem?_append_left (List.getElem?_eq_some_iff.1 hc).1]
  exact hc

namespace Trail

variable {plan : Plan α σ} {e : σ} {p : Problem α} {turns : List (Turn α)} {w : Walk α σ}

/-- The request of a step that follows on the turns. -/
theorem askedAt_next (h : Trail plan e p turns w) {lam : α} (hpos : 0 < lam)
    (hasks : plan.Asks w.points.length lam) :
    plan.AskedAt p (turns.map Turn.call) turns.length (plan.pose w.problem lam hpos).request lam
      w.problem.x w.problem.y := by
  rw [h.length_points] at hasks
  refine ⟨hasks, ⟨hpos, by rw [h.pose_problem hpos]⟩,
    fun hi => h.vectors_eq.1 (List.length_eq_zero_iff.1 hi), fun j hj => ?_⟩
  have hu := List.getElem?_eq_getElem (show j < turns.length by omega)
  refine ⟨_, _, by rw [List.getElem?_map, hu]; rfl, h.outcome_eq (List.mem_of_getElem? hu),
    h.vectors_eq.2 _ ?_⟩
  rw [List.getLast?_eq_getElem?, show turns.length - 1 = j by omega]
  exact hu

/-- The requests of the turns, each of which follows on the turns before. -/
theorem askedAt (h : Trail plan e p turns w) {i : Nat} {c : Request α × Reply α}
    (hc : (turns.map Turn.call)[i]? = some c) :
    ∃ lam x y, plan.AskedAt p (turns.map Turn.call) i c.1 lam x y := by
  rw [List.getElem?_map] at hc
  obtain ⟨t, ht, rfl⟩ := Option.map_eq_some_iff.1 hc
  obtain ⟨v, hpos, hv, -, hasks, -, hrequest⟩ := h.before ht
  have hi : (turns.take i).length = i :=
    List.length_take_of_le (Nat.le_of_lt (List.getElem?_eq_some_iff.1 ht).1)
  have hasked := (hv.askedAt_next hpos hasks).append ((turns.drop i).map Turn.call)
  rw [hi, ← List.map_append, List.take_append_drop, ← hrequest] at hasked
  exact ⟨t.lam, _, _, hasked⟩

end Trail

/-- A plan with the record asks for the same problems as the plan without. -/
theorem Plan.AskedAt.plain {plan : Plan α σ} {p : Problem α} {calls : List (Request α × Reply α)}
    {i : Nat} {q : Request α} {lam : α} {x y : List α}
    (h : plan.recorded.AskedAt p calls i q lam x y) : plan.AskedAt p calls i q lam x y :=
  ⟨Plan.asks_recorded.1 h.asks, h.request, h.first, h.later⟩

/-- Every call on a trail with the record asks for its step. -/
theorem Trail.askedAt_record {plan : Plan α σ} {e : σ} {p : Problem α} {turns : List (Turn α)}
    {w : Walk α (σ × List (Request α × Reply α))} (h : Trail plan.recorded (e, []) p turns w)
    {i : Nat} {c : Request α × Reply α} (hc : w.engine.2[i]? = some c) :
    ∃ lam x y, plan.AskedAt p w.engine.2 i c.1 lam x y := by
  rw [h.record_eq] at hc ⊢
  obtain ⟨lam, x, y, hasked⟩ := h.askedAt hc
  exact ⟨lam, x, y, hasked.plain⟩

/-- Every call of a whole walk asks for its step. -/
theorem Walk.askedAt_finish (plan : Plan α σ) (e : σ) (p : Problem α) {i : Nat}
    {c : Request α × Reply α}
    (hc : ((Walk.start (e, []) p).finish plan.recorded).engine.2[i]? = some c) :
    ∃ lam x y, plan.AskedAt p ((Walk.start (e, []) p).finish plan.recorded).engine.2 i c.1 lam x
      y := by
  obtain ⟨turns, w, htrail, hends⟩ := finish_reaches plan.recorded (e, []) p
  rcases hends.record with hsame | ⟨lam, hpos, f, hasks, -, -, hmore⟩
  · rw [hsame] at hc ⊢
    exact htrail.askedAt_record hc
  · rw [hmore, htrail.record_eq] at hc ⊢
    rcases getElem?_concat_eq_some.1 hc with hc | ⟨hi, rfl⟩
    · -- The call of a turn.
      obtain ⟨lam, x, y, hasked⟩ := htrail.askedAt hc
      exact ⟨lam, x, y, (hasked.append _).plain⟩
    · -- The call that broke off.
      rw [hi, List.length_map]
      exact ⟨lam, _, _,
        ((htrail.askedAt_next hpos (Plan.asks_recorded.2 hasks)).append _).plain⟩

namespace Driver

variable {s : Setup α σ} {d : Driver α σ} {p : Problem α} {pinned : Option α}

/-- The calls of a path with a schedule are recorded on its walk. -/
theorem calls_of_schedule? {schedule : Schedule α} (h : s.schedule? p pinned = some schedule) :
    d.calls s p pinned =
      ((Walk.start (d.engine, []) p).finish (s.plan schedule).recorded).engine.2 := by
  have hrecorded : s.recorded.schedule? p pinned = some schedule :=
    (schedule?_congr rfl rfl p pinned).trans h
  rw [calls, run_of_schedule? hrecorded, conclude_engine]
  rfl

/-- The walk of a path is alike with and without the record. -/
theorem forget_walk (s : Setup α σ) (d : Driver α σ) (p : Problem α) (schedule : Schedule α) :
    ((Walk.start (d.engine, []) p).finish (s.plan schedule).recorded).forget =
      d.walk s p schedule :=
  Walk.forget_advanceBy (s.plan schedule) _ _

/-- A path without a schedule makes no calls. -/
theorem calls_of_none (h : s.schedule? p pinned = none) : d.calls s p pinned = [] := by
  have hrecorded : s.recorded.schedule? p pinned = none :=
    (schedule?_congr rfl rfl p pinned).trans h
  rw [calls]
  rcases run_of_none (d := d.recorded) hrecorded with ⟨f, hf⟩ | ⟨top, -, -, htop⟩
  · rw [hf]
    rfl
  · rw [htop]
    rfl

/-- The calls of a path begin with those of its turns. -/
theorem turns_prefix_calls {schedule : Schedule α} (h : s.schedule? p pinned = some schedule)
    {turns : List (Turn α)} {w : Walk α σ} (htrail : Trail (s.plan schedule) d.engine p turns w) :
    turns.map Turn.call <+: d.calls s p pinned := by
  obtain ⟨v, hv, -⟩ := htrail.record
  obtain ⟨turns', v', ⟨more, rfl⟩, hv', hends⟩ := Walk.finish_reaches_of_trail hv
  have hrecord : turns.map Turn.call <+: v'.engine.2 := by
    rw [hv'.record_eq, List.map_append]
    exact List.prefix_append _ _
  rw [calls_of_schedule? h]
  rcases hends.record with hsame | ⟨lam, hpos, f, -, -, -, hmore⟩
  · rw [hsame]
    exact hrecord
  · rw [hmore]
    exact hrecord.trans (List.prefix_append _ _)

/-- Every call of a path asks for its step of the schedule. -/
theorem exists_askedAt {i : Nat} {c : Request α × Reply α}
    (hc : (d.calls s p pinned)[i]? = some c) :
    ∃ schedule, s.schedule? p pinned = some schedule ∧
      ∃ lam x y, (s.plan schedule).AskedAt p (d.calls s p pinned) i c.1 lam x y := by
  cases hschedule : s.schedule? p pinned with
  | none =>
    rw [calls_of_none hschedule] at hc
    cases hc
  | some schedule =>
    rw [calls_of_schedule? hschedule] at hc ⊢
    exact ⟨schedule, rfl, Walk.askedAt_finish (s.plan schedule) d.engine p hc⟩

/-- The schedule of a call begins at the top of the path. -/
theorem askedAt_calls {top : α} (htop : IsTop p pinned top) {i : Nat} {c : Request α × Reply α}
    (hc : (d.calls s p pinned)[i]? = some c) :
    ∃ schedule, ¬ top ≤ 0 ∧ Schedule.make top s.config.count s.config.ratio = .ok schedule ∧
      ∃ lam x y, (s.plan schedule).AskedAt p (d.calls s p pinned) i c.1 lam x y := by
  obtain ⟨schedule, hschedule, hasked⟩ := exists_askedAt hc
  obtain ⟨top', htop', hpos, hmake, -⟩ := schedule?_eq_some.1 hschedule
  rw [htop'.unique htop] at hpos hmake
  exact ⟨schedule, hpos, hmake, hasked⟩

end Driver

/-! ### What the engine replies -/

/-- A step leaves the engine as it is or calls it once. -/
theorem Walk.step_engine (plan : Plan α σ) (w : Walk α σ) :
    (w.step plan).engine = w.engine ∨
      ∃ q, (w.step plan).engine = (plan.engine.solve w.engine q).2 := by
  have hmove := w.step_move plan
  generalize w.step plan = w' at hmove ⊢
  cases hmove with
  | halted _ hhalt =>
    cases hhalt with
    | spent => exact .inl rfl
    | refused => exact .inl rfl
    | broken => exact .inr ⟨_, rfl⟩
  | kept lam hpos s =>
    right
    rw [keep_engine]
    exact ⟨_, rfl⟩

/-- What every call keeps true of the engine is true of it after any number of steps. -/
theorem Walk.engine_induction (plan : Plan α σ) (Holds : σ → Prop)
    (hstep : ∀ e q, Holds e → Holds (plan.engine.solve e q).2) (n : Nat) {w : Walk α σ}
    (hw : Holds w.engine) : Holds (advanceBy plan n w).engine := by
  induction n generalizing w with
  | zero => exact hw
  | succ n ih =>
    cases hexit : w.exit with
    | some exit =>
      rw [advanceBy_of_exit plan _ hexit]
      exact hw
    | none =>
      rw [advanceBy_succ, advance_of_none plan hexit]
      apply ih
      rcases w.step_engine plan with hsame | ⟨q, hcall⟩
      · rw [hsame]
        exact hw
      · rw [hcall]
        exact hstep _ q hw

/-- Each reply of a path is one of its engine, in some state. -/
theorem Driver.exists_reply {s : Setup α σ} {d : Driver α σ} {p : Problem α} {pinned : Option α}
    {c : Request α × Reply α} (hc : c ∈ d.calls s p pinned) :
    ∃ e, c.2 = (s.engine.solve e c.1).1 := by
  cases hschedule : s.schedule? p pinned with
  | none =>
    rw [calls_of_none hschedule] at hc
    cases hc
  | some schedule =>
    rw [calls_of_schedule? hschedule] at hc
    refine Walk.engine_induction (s.plan schedule).recorded
      (fun e => ∀ c ∈ e.2, ∃ e', c.2 = (s.engine.solve e' c.1).1) ?_ _ ?_ c hc
    · intro e q hrecord c hc
      rcases List.mem_append.1 hc with hc | hc
      · exact hrecord c hc
      · rw [List.mem_singleton.1 hc]
        exact ⟨e.1, rfl⟩
    · intro c hc
      cases hc

end RegPath.Path
