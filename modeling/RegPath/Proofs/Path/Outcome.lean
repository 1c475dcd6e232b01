import RegPath.Proofs.Path.Transcript

namespace RegPath

/-!
# Paths that return

Once all penalties of its schedule are known to be positive numbers, nothing but the engine and the
failure policy can keep a path from its result: iterates of one length can be compared.  In exact
arithmetic every schedule is of this kind.

* `Engine.Serves`, `Engine.ServesFrom` — an engine that answers whatever a path on a problem may
  ask, from any state or from a fresh one;
* `Path.Driver.exists_served` — every call of a path is about its problem, so that it is answered;
* `Path.Driver.Concluded`, `Path.Driver.concluded` — such a path returns, or the policy stops it at
  an unsolved step;
* `Path.Driver.run_returns_of_positive` — with such an engine every path returns that keeps unsolved
  steps and whose penalties are positive;
* `Path.Driver.run_returns` — in exact arithmetic they always are.
-/

/-- A request about a problem: with its matrix and row terms, a term for each column, and a guess of
    the right lengths. -/
structure Request.IsAbout {α : Type} [Scalar α] (q : Request α) (p : Problem α) : Prop where
  /-- The matrix is the one of the problem. -/
  design : q.design = p.design
  /-- The row terms are those of the problem. -/
  rowTerms : q.rowTerms = p.rowTerms
  /-- There is a term for each column. -/
  colTerms : q.colTerms.length = p.width
  /-- The guess has an entry for each column. -/
  x : q.x.length = p.width
  /-- It has an entry for each row. -/
  y : q.y.length = p.height

/-- Every list of terms and every vector of the request has the length of its side. -/
structure Request.Fits {α : Type} [Scalar α] (q : Request α) : Prop where
  /-- One term for each row. -/
  rowTerms : q.rowTerms.length = q.height
  /-- One term for each column. -/
  colTerms : q.colTerms.length = q.width
  /-- One entry of the guess for each column. -/
  x : q.x.length = q.width
  /-- One entry for each row. -/
  y : q.y.length = q.height

namespace Request.IsAbout

variable {α : Type} [Scalar α] {q : Request α} {p : Problem α}

/-- The request has as many columns as the problem. -/
theorem width (h : q.IsAbout p) : q.width = p.width :=
  congrArg (fun design => design.matrix.cols) h.design

/-- It has as many rows. -/
theorem height (h : q.IsAbout p) : q.height = p.height :=
  congrArg (fun design => design.matrix.height) h.design

/-- A request about a well-formed problem fits together. -/
theorem fits (h : q.IsAbout p) (hp : p.WellFormed) : q.Fits := by
  refine ⟨?_, h.colTerms.trans h.width.symm, h.x.trans h.width.symm, h.y.trans h.height.symm⟩
  rw [h.rowTerms, h.height]
  exact hp.rowTerms

end Request.IsAbout

/-- The engine answers every request about the problem with vectors of the right lengths. -/
def Engine.Serves {α : Type} [Scalar α] {σ : Type} (E : Engine α σ) (p : Problem α) : Prop :=
  ∀ e q, q.IsAbout p →
    ∃ a, (E.solve e q).1.outcome = .ok a ∧ a.x.length = p.width ∧ a.y.length = p.height

/-- The states that an engine can reach from a fresh one by requests about the problem. -/
inductive Engine.Reaches {α : Type} [Scalar α] {σ : Type} (E : Engine α σ) (p : Problem α)
    (fresh : σ) : σ → Prop where
  /-- Before the first request. -/
  | fresh : Engine.Reaches E p fresh fresh
  /-- After one more request. -/
  | after {e : σ} {q : Request α} (h : Engine.Reaches E p fresh e) (hq : q.IsAbout p) :
      Engine.Reaches E p fresh (E.solve e q).2

/-- From a fresh state on, the engine answers every request about the problem with vectors of the
    right lengths. -/
def Engine.ServesFrom {α : Type} [Scalar α] {σ : Type} (E : Engine α σ) (fresh : σ)
    (p : Problem α) : Prop :=
  ∀ e, E.Reaches p fresh e → ∀ q, q.IsAbout p →
    ∃ a, (E.solve e q).1.outcome = .ok a ∧ a.x.length = p.width ∧ a.y.length = p.height

/-- An engine that answers in any state answers from a fresh one on. -/
theorem Engine.Serves.servesFrom {α : Type} [Scalar α] {σ : Type} {E : Engine α σ}
    {p : Problem α} (h : E.Serves p) (fresh : σ) : E.ServesFrom fresh p :=
  fun e _ q hq => h e q hq

/-- With the record an engine reaches the states that it reaches without. -/
theorem Engine.Reaches.plain {α : Type} [Scalar α] {σ : Type} {E : Engine α σ} {p : Problem α}
    {fresh : σ} {s : σ × List (Request α × Reply α)} (h : E.recorded.Reaches p (fresh, []) s) :
    E.Reaches p fresh s.1 := by
  induction h with
  | fresh => exact .fresh
  | after _ hq ih => exact .after ih hq

/-- With the record it answers as well. -/
theorem Engine.ServesFrom.recorded {α : Type} [Scalar α] {σ : Type} {E : Engine α σ}
    {p : Problem α} {fresh : σ} (h : E.ServesFrom fresh p) :
    E.recorded.ServesFrom (fresh, []) p :=
  fun e he q hq => h e.1 he.plain q hq

namespace Path

variable {α : Type} [Scalar α] {σ : Type}

/-! ### Engines that answer -/

/-- Vectors of one length can be compared. -/
theorem exists_converged? (tol : α) {x previous : List α} (h : x.length = previous.length) :
    ∃ agreed, converged? tol x previous = some agreed :=
  ⟨_, by rw [converged?, largestChange?_of_length h, Option.map_some]⟩

/-- A step whose iterate can be compared does not break the walk off. -/
theorem Walk.verdict?_ne_fault {plan : Plan α σ} {previous x : List α} (i : ℕ)
    (h : x.length = previous.length) (f : Fault α) :
    verdict? plan previous i x ≠ some (.fault f) := by
  have hagrees : ∃ agreed, agrees? plan.config x previous = some agreed := by
    unfold agrees?
    split
    · exact exists_converged? _ h
    · exact ⟨false, rfl⟩
  obtain ⟨agreed, hagrees⟩ := hagrees
  unfold verdict?
  rw [hagrees]
  cases agreed with
  | true => simp
  | false => cases late plan i <;> simp

/-- What a step asks about a problem with other vectors is about the problem. -/
theorem Plan.isAbout_pose (plan : Plan α σ) {p : Problem α} (hp : p.WellFormed) {x y : List α}
    (hx : x.length = p.width) (hy : y.length = p.height) {lam : α} (hpos : 0 < lam) :
    (plan.pose { p with x := x, y := y } lam hpos).request.IsAbout p := by
  refine ⟨plan.pose_design _ lam hpos, plan.pose_rowTerms _ lam hpos, ?_, ?_, ?_⟩
  · rw [Problem.request, plan.pose_colTerms, List.length_map]
    exact hp.colTerms
  · cases hwarm : plan.config.warmStart with
    | true => exact (congrArg List.length (Plan.pose_warm hwarm _ hpos).1).trans hx
    | false =>
      exact (congrArg List.length (Plan.pose_cold hwarm _ hpos).1).trans (Vec.length_zeros _)
  · cases hwarm : plan.config.warmStart with
    | true => exact (congrArg List.length (Plan.pose_warm hwarm _ hpos).2).trans hy
    | false =>
      exact (congrArg List.length (Plan.pose_cold hwarm _ hpos).2).trans (Vec.length_zeros _)

namespace Trail

variable {plan : Plan α σ} {e : σ} {p : Problem α} {turns : List (Turn α)} {w : Walk α σ}

/-- The engine is in a state that it can reach, and the vectors have the right lengths. -/
theorem served (h : Trail plan e p turns w) (hE : plan.engine.ServesFrom e p) (hp : p.WellFormed) :
    plan.engine.Reaches p e w.engine ∧ w.problem.x.length = p.width ∧
      w.problem.y.length = p.height ∧ ∀ pt ∈ w.points, pt.x.length = p.width := by
  induction h with
  | start => exact ⟨.fresh, hp.x, hp.y, fun pt hpt => by cases hpt⟩
  | @next turns w lam s hpos trail _ _ reply _ ih =>
    obtain ⟨hreached, hx, hy, hpoints⟩ := ih
    have habout := plan.isAbout_pose hp hx hy hpos
    rw [← trail.pose_problem hpos] at habout
    obtain ⟨a, ha, hax, hay⟩ := hE w.engine hreached _ habout
    obtain rfl := Except.ok.inj (reply.symm.trans ha)
    rw [Walk.keep_engine, Walk.keep_problem, Walk.keep_points, Walk.asked_points]
    refine ⟨.after hreached habout, hax, hay, fun pt hpt => ?_⟩
    rcases List.mem_append.1 hpt with hpt | hpt
    · exact hpoints pt hpt
    · rw [List.mem_singleton.1 hpt]
      exact hax

/-- What a next step asks is about the problem. -/
theorem isAbout_next (h : Trail plan e p turns w) (hE : plan.engine.ServesFrom e p)
    (hp : p.WellFormed) {lam : α} (hpos : 0 < lam) :
    (plan.pose w.problem lam hpos).request.IsAbout p := by
  obtain ⟨-, hx, hy, -⟩ := h.served hE hp
  rw [h.pose_problem hpos]
  exact plan.isAbout_pose hp hx hy hpos

/-- What iterates are compared with has the right length. -/
theorem length_iterateBefore (h : Trail plan e p turns w) (hE : plan.engine.ServesFrom e p)
    (hp : p.WellFormed) {i : ℕ} (hi : i ≤ w.points.length) :
    (iterateBefore p.width w.points i).length = p.width := by
  cases i with
  | zero => exact List.length_replicate ..
  | succ i =>
    have hget := List.getElem?_eq_getElem hi
    rw [iterateBefore, hget]
    exact (h.served hE hp).2.2.2 _ (List.mem_of_getElem? hget)

/-- With an engine that serves the problem no kept step breaks the walk off. -/
theorem exit_ne_fault (h : Trail plan e p turns w) (hE : plan.engine.ServesFrom e p)
    (hp : p.WellFormed) (f : Fault α) : w.exit ≠ some (.fault f) := by
  intro hexit
  have hpos : 0 < w.points.length := by
    cases h with
    | start => cases hexit
    | next =>
      rw [Walk.keep_points, List.length_append, List.length_singleton]
      exact Nat.succ_pos _
  have hlt : w.points.length - 1 < w.points.length := Nat.sub_lt hpos Nat.one_pos
  have hpt := List.getElem?_eq_getElem hlt
  have hverdict := h.exit_eq hpt (Nat.sub_add_cancel hpos)
  rw [hexit] at hverdict
  have hlen := ((h.served hE hp).2.2.2 _ (List.mem_of_getElem? hpt)).trans
    (h.length_iterateBefore hE hp (Nat.le_of_lt hlt)).symm
  exact Walk.verdict?_ne_fault _ hlen f hverdict.symm

end Trail

/-- If the policy is to stop at unsolved steps, every kept one is solved. -/
theorem Trail.solved_of_stop {plan : Plan α σ} {e : σ} {p : Problem α} {turns : List (Turn α)}
    {w : Walk α σ} (h : Trail plan e p turns w) (hstop : plan.config.policy = .stop) :
    ∀ t ∈ turns, t.solution.status.ok = true := by
  induction h with
  | start => exact fun t ht => by cases ht
  | next _ _ _ _ _ policy ih =>
    intro t ht
    rcases List.mem_append.1 ht with ht | ht
    · exact ih t ht
    · rw [List.mem_singleton.1 ht]
      exact Bool.eq_true_of_not_eq_false fun hunsolved => policy hunsolved hstop

/-! ### Calls that are answered -/

/-- The call was about the problem, in a state that the engine can reach. -/
def Served (E : Engine α σ) (fresh : σ) (p : Problem α) (c : Request α × Reply α) : Prop :=
  ∃ e, E.Reaches p fresh e ∧ c.1.IsAbout p ∧ c.2 = (E.solve e c.1).1

section Recorded

variable {plan : Plan α σ} {e : σ} {p : Problem α} {turns : List (Turn α)}
  {w : Walk α (σ × List (Request α × Reply α))}

/-- A next call would be about the problem. -/
theorem Trail.served_next (h : Trail plan.recorded (e, []) p turns w)
    (hE : plan.engine.ServesFrom e p) (hp : p.WellFormed) {lam : α} (hpos : 0 < lam) :
    Served plan.engine e p
      ((plan.pose w.problem lam hpos).request, w.reply plan.recorded lam hpos) :=
  ⟨w.engine.1, (h.served hE.recorded hp).1.plain, h.isAbout_next hE.recorded hp hpos, rfl⟩

/-- So was each call of a trail. -/
theorem Trail.served_record (h : Trail plan.recorded (e, []) p turns w)
    (hE : plan.engine.ServesFrom e p) (hp : p.WellFormed) :
    ∀ c ∈ w.engine.2, Served plan.engine e p c := by
  induction h with
  | start => exact fun c hc => by cases hc
  | next hpos trail _ _ _ _ ih =>
    intro c hc
    rw [Walk.keep_engine] at hc
    rcases List.mem_append.1 hc with hc | hc
    · exact ih c hc
    · rw [List.mem_singleton.1 hc]
      exact trail.served_next hE hp hpos

/-- So was each call of a whole walk. -/
theorem Walk.served_finish (hE : plan.engine.ServesFrom e p) (hp : p.WellFormed) :
    ∀ c ∈ ((Walk.start (e, []) p).finish plan.recorded).engine.2, Served plan.engine e p c := by
  obtain ⟨turns, w, htrail, hends⟩ := Walk.finish_reaches plan.recorded (e, []) p
  rcases hends.record with hsame | ⟨lam, hpos, f, -, -, -, hmore⟩
  · rw [hsame]
    exact htrail.served_record hE hp
  · rw [hmore]
    intro c hc
    rcases List.mem_append.1 hc with hc | hc
    · exact htrail.served_record hE hp c hc
    · rw [List.mem_singleton.1 hc]
      exact htrail.served_next hE hp hpos

/-- How a walk ends whose engine answers: in a phase, where the policy has found nothing to stop at,
    or at the policy. -/
inductive Walk.Concluded (plan : Plan α σ) (w : Walk α (σ × List (Request α × Reply α))) : Prop where
  /-- In a phase. -/
  | ended (phase : Phase) (exit : w.exit = some (.phase phase))
      (solved : plan.config.policy = .stop →
        ∀ c ∈ w.engine.2, ∃ a, c.2.outcome = .ok a ∧ a.status.ok = true)
  /-- At an unsolved step. -/
  | stopped (policy : plan.config.policy = .stop) (i : Nat) (lam : α) (c : Request α × Reply α)
      (a : Solution α) (call : c ∈ w.engine.2) (answer : c.2.outcome = .ok a)
      (unsolved : a.status.ok = false)
      (exit : w.exit = some (.fault (.solverFailure i lam a.status)))

/-- A walk whose penalties are positive numbers ends in one of these ways, if its engine answers. -/
theorem Walk.concluded
    (hentries : ∀ i, i < plan.schedule.count → ∃ lam, plan.schedule.entry? i = some lam ∧ 0 < lam)
    (hE : plan.engine.ServesFrom e p) (hp : p.WellFormed) :
    Concluded plan ((Walk.start (e, []) p).finish plan.recorded) := by
  obtain ⟨turns, w, htrail, hends⟩ := finish_reaches plan.recorded (e, []) p
  have hsolved : plan.config.policy = .stop →
      ∀ c ∈ w.engine.2, ∃ a, c.2.outcome = .ok a ∧ a.status.ok = true := by
    intro hstop c hc
    rw [htrail.record_eq] at hc
    obtain ⟨t, ht, rfl⟩ := List.mem_map.1 hc
    exact ⟨t.solution, htrail.outcome_eq ht, htrail.solved_of_stop hstop t ht⟩
  generalize (start (e, []) p).finish plan.recorded = w' at hends ⊢
  cases hends with
  | last hexit =>
    obtain ⟨exit, hexit⟩ := Option.ne_none_iff_exists'.1 hexit
    cases exit with
    | phase phase => exact .ended phase hexit hsolved
    | fault f => exact absurd hexit (htrail.exit_ne_fault hE.recorded hp f)
  | halted running hhalt =>
    generalize w.step plan.recorded = w' at hhalt ⊢
    cases hhalt with
    | spent => exact .ended .exhausted rfl hsolved
    | refused f hlt hf =>
      obtain ⟨lam, hlam, hpos⟩ := hentries w.points.length hlt
      rcases hf with ⟨hnone, -⟩ | ⟨lam', hasks, hneg, -⟩
      · exact absurd (hlam.symm.trans hnone) (by simp)
      · obtain rfl := Option.some.inj (hlam.symm.trans hasks.entry)
        exact absurd hpos hneg
    | broken lam hpos f hasks hbreaks =>
      obtain ⟨e', he', hq, hreply⟩ := htrail.served_next hE hp hpos
      obtain ⟨a, ha, -⟩ := hE e' he' _ hq
      rw [← hreply] at ha
      rcases hbreaks with herror | ⟨s, hs, hunsolved, hstop, rfl⟩
      · exact absurd (ha.symm.trans herror) (by simp)
      · exact .stopped hstop _ lam _ s (List.mem_concat_self) hs hunsolved rfl

end Recorded

/-! ### Paths that return -/

namespace Driver

variable {s : Setup α σ} {d : Driver α σ} {p : Problem α} {pinned : Option α}
  {schedule : Schedule α} {lambdas : List α}

/-- Every call of a path was about its problem, in a state that the engine can reach. -/
theorem exists_served (hE : s.engine.ServesFrom d.engine p) (hp : p.WellFormed)
    {c : Request α × Reply α} (hc : c ∈ d.calls s p pinned) : Served s.engine d.engine p c := by
  cases hschedule : s.schedule? p pinned with
  | none =>
    rw [calls_of_none hschedule] at hc
    cases hc
  | some schedule =>
    rw [calls_of_schedule? hschedule] at hc
    have hplan : (s.plan schedule).engine.ServesFrom d.engine p := hE
    exact Walk.served_finish hplan hp c hc

/-- How a path ends whose engine answers: with a result, where the policy has found nothing to stop
    at, or at the policy. -/
inductive Concluded (s : Setup α σ) (d : Driver α σ) (p : Problem α) (pinned : Option α) : Prop where
  /-- With a result. -/
  | returned (r : Result α) (outcome : (d.run s p pinned).outcome = .ok r)
      (solved : s.config.policy = .stop →
        ∀ c ∈ d.calls s p pinned, ∃ a, c.2.outcome = .ok a ∧ a.status.ok = true)
  /-- At an unsolved step. -/
  | stopped (policy : s.config.policy = .stop) (i : Nat) (lam : α) (c : Request α × Reply α)
      (a : Solution α) (call : c ∈ d.calls s p pinned) (answer : c.2.outcome = .ok a)
      (unsolved : a.status.ok = false)
      (outcome : (d.run s p pinned).outcome = .error (.solverFailure i lam a.status))

/-- A path whose penalties are positive numbers ends in one of these ways, if its engine serves the
    problem. -/
theorem concluded (hschedule : s.schedule? p pinned = some schedule)
    (hgrid : schedule.grid = .ok lambdas) (hpositive : ∀ lam ∈ lambdas, 0 < lam)
    (hE : s.engine.ServesFrom d.engine p) (hp : p.WellFormed) : Concluded s d p pinned := by
  have hentries : ∀ i, i < (s.plan schedule).schedule.count →
      ∃ lam, (s.plan schedule).schedule.entry? i = some lam ∧ 0 < lam := by
    intro i hi
    have hlen : i < lambdas.length := by rw [Schedule.length_of_grid hgrid]; exact hi
    refine ⟨lambdas[i], ?_, hpositive _ (List.getElem_mem hlen)⟩
    exact (Schedule.entry?_eq_of_grid hgrid hi).trans (List.getElem?_eq_getElem hlen)
  have hplan : (s.plan schedule).engine.ServesFrom d.engine p := hE
  have hcalls := calls_of_schedule? (d := d) hschedule
  have hwalk := congrArg Walk.exit (forget_walk s d p schedule)
  rcases Walk.concluded hentries hplan hp with
    ⟨phase, hexit, hsolved⟩ | ⟨hstop, i, lam, c, a, hc, ha, hunsolved, hexit⟩
  · rw [← hcalls] at hsolved
    have hreturns : ∃ r, (d.run s p pinned).outcome = .ok r := by
      rw [run_of_schedule? hschedule]
      exact ⟨_, conclude_ok.2 ⟨phase, lambdas, hwalk.symm.trans hexit, hgrid, rfl⟩⟩
    obtain ⟨r, hr⟩ := hreturns
    exact .returned r hr hsolved
  · rw [← hcalls] at hc
    refine .stopped hstop i lam c a hc ha hunsolved ?_
    rw [run_of_schedule? hschedule, conclude]
    simp only [hwalk.symm.trans hexit]

/-- A path that keeps unsolved steps returns, if its penalties are positive numbers and its engine
    serves the problem. -/
theorem run_returns_of_positive (hschedule : s.schedule? p pinned = some schedule)
    (hgrid : schedule.grid = .ok lambdas) (hpositive : ∀ lam ∈ lambdas, 0 < lam)
    (hE : s.engine.ServesFrom d.engine p) (hp : p.WellFormed) (hpolicy : s.config.policy = .keep) :
    ∃ r, (d.run s p pinned).outcome = .ok r := by
  rcases concluded hschedule hgrid hpositive hE hp with ⟨r, hr, -⟩ | ⟨hstop, -⟩
  · exact ⟨r, hr⟩
  · rw [hpolicy] at hstop
    cases hstop

end Driver

/-- In exact arithmetic a path from a positive top has a schedule, if its size can be reported. -/
theorem Driver.exists_schedule?_of_le {s : Setup ℝ σ} {p : Problem ℝ} {pinned : Option ℝ} {top : ℝ}
    (htop : IsTop p pinned top) (hpos : 0 < top) (hcount : s.config.count ≤ Schedule.largestSize) :
    ∃ schedule, s.schedule? p pinned = some schedule := by
  obtain ⟨schedule, hmake⟩ := Schedule.exists_make hpos s.config.count_pos s.config.ratio_mem
  have hsize : schedule.count = s.config.count := Int.ofNat_inj.1 (Schedule.make_ok hmake).2.1
  exact ⟨schedule, schedule?_eq_some.2
    ⟨top, htop, not_le.2 hpos, hmake, Schedule.exists_ends (hsize ▸ hcount)⟩⟩

/-- In exact arithmetic a path that keeps unsolved steps returns, if its engine serves the problem
    and its size can be reported. -/
theorem Driver.run_returns {s : Setup ℝ σ} {d : Driver ℝ σ} {p : Problem ℝ} {pinned : Option ℝ}
    {top : ℝ} (htop : IsTop p pinned top) (hE : s.engine.Serves p) (hp : p.WellFormed)
    (hpolicy : s.config.policy = .keep) (hcount : s.config.count ≤ Schedule.largestSize) :
    ∃ r, (d.run s p pinned).outcome = .ok r := by
  by_cases hpos : top ≤ 0
  · rw [run_degenerate htop hpos]
    exact ⟨_, rfl⟩
  · obtain ⟨schedule, hschedule⟩ := exists_schedule?_of_le htop (not_le.1 hpos) hcount
    obtain ⟨lambdas, hgrid⟩ := schedule.exists_grid
    exact run_returns_of_positive hschedule hgrid (Schedule.pos_of_grid hgrid) (hE.servesFrom _) hp
      hpolicy

/-- The engine that answers zero. -/
noncomputable def zeroEngine : Engine ℝ Unit where
  solve _ q := (.quiet (.ok ⟨Vec.zeros q.width, Vec.zeros q.height, .success, 0⟩), ())

/-- It serves every problem. -/
theorem zeroEngine_serves (p : Problem ℝ) : zeroEngine.Serves p := by
  intro e q hq
  exact ⟨⟨Vec.zeros q.width, Vec.zeros q.height, .success, 0⟩, rfl,
    (Vec.length_zeros _).trans hq.width, (Vec.length_zeros _).trans hq.height⟩

/-- A configuration with three penalties and a time limit of one. -/
noncomputable def briefConfig : Config ℝ where
  count := 3
  ratio := Scalar.half
  tol := 0
  warmStart := true
  earlyStop := true
  policy := .keep
  maxTime := some 1
  maxSteps := none
  count_pos := by decide
  ratio_mem := Scalar.half_mem
  tol_nonneg := Scalar.zero_tolerance
  maxTime_nonneg := by
    rintro t ⟨⟩
    exact not_lt.2 zero_le_one
  maxSteps_pos := by simp

/-- The same without a time limit. -/
noncomputable def untimedConfig : Config ℝ :=
  { briefConfig with
    maxTime := none
    maxTime_nonneg := by rintro t ⟨⟩ }

/-- The lasso of a single number, with the observation `1`. -/
noncomputable def briefProblem : Problem ℝ where
  design := ⟨0, .identity 1⟩
  observations := [1]
  rowTerms := Term.squaresAt [1]
  colTerms := Term.penalties 1
  x := [0]
  y := [0]

/-- It is well formed. -/
theorem briefProblem_wellFormed : briefProblem.WellFormed := ⟨rfl, rfl, rfl, rfl, rfl⟩

/-- The path of the problem returns. -/
theorem brief_returns (elapsed : ℕ → ℝ) :
    ∃ r, (Driver.run ⟨briefConfig, zeroEngine, elapsed⟩ (.new ()) briefProblem
      (some 1)).outcome = .ok r :=
  Driver.run_returns (.inl rfl) (zeroEngine_serves _) briefProblem_wellFormed rfl
    (by show 3 ≤ Schedule.largestSize; decide)

end Path

end RegPath
