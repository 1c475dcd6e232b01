import RegPath.Proofs.Path.Transcript
import RegPath.Proofs.Path.Outcome

namespace RegPath

/-!
# The dialogue of a path with its engine

All that a path does is to ask its engine one problem for each penalty, starting from the last
answer or from zero, and to write down the answers.

The second half is about paths that start from zero with an engine that has no memory.  A step of
such a path asks for nothing but the data of the problem and its penalty.  So two steps with one
penalty are answered alike, whichever paths they belong to and whatever came before them.

* `Path.Dialogue` — the calls of a path and its points, call by call and point by point;
* `Engine.Memoryless` — engines whose answers depend on the problem and the guess only;
* `Problem.SameData`, `Problem.bare` — what a step of a cold path asks depends on;
* `Path.Driver.run_dialogue` — every path keeps to its dialogue, and cold paths do not interfere.
-/

/-- What the engine answers depends on the problem and the guess only, and neither on its state nor
    on which object the matrix is. -/
def Engine.Memoryless {α : Type} [Scalar α] {σ : Type} (E : Engine α σ) : Prop :=
  ∀ e e' q q', q.form = q'.form → q.x = q'.x → q.y = q'.y →
    (E.solve e q).1.outcome = (E.solve e' q').1.outcome

variable {α : Type} [Scalar α] {σ : Type}

/-- The problem `p'` has the matrix and the row terms of `p`, and column terms with the same shapes
    and offsets.  Their observations, scales and vectors may differ. -/
structure Problem.SameData (p p' : Problem α) : Prop where
  /-- The matrices are the same. -/
  matrix : p'.design.matrix = p.design.matrix
  /-- The row terms are the same. -/
  rowTerms : p'.rowTerms = p.rowTerms
  /-- The column terms have the same shapes. -/
  kinds : p'.colTerms.map Term.kind = p.colTerms.map Term.kind
  /-- They have the same offsets. -/
  offsets : p'.colTerms.map Term.offset = p.colTerms.map Term.offset

/-- What is asked about a problem with a penalty, starting from zero. -/
def Problem.bare (p : Problem α) (lam : α) (h : 0 < lam) : Request α where
  design := p.design
  rowTerms := p.rowTerms
  colTerms := p.colTerms.map fun t => t.withScale lam h
  x := Vec.zeros p.width
  y := Vec.zeros p.height

namespace Path

/-! ### Calls and points -/

/-- The calls and the points of a path. -/
structure Dialogue (s : Setup α σ) (d : Driver α σ) (p : Problem α) (pinned : Option α) : Prop where
  /-- Call `i` is about the given matrix and row terms, and all column terms have the scale that the
      schedule says for step `i`. -/
  problem : ∀ (i : Nat) (c : Request α × Reply α), (d.calls s p pinned)[i]? = some c →
    ∃ lam, s.penalty? p pinned i = some lam ∧ c.1.design = p.design ∧
      c.1.rowTerms = p.rowTerms ∧ Rescaled p.colTerms c.1.colTerms lam
  /-- With a warm start the first call starts from the vectors of the problem. -/
  first_warm : s.config.warmStart = true →
    ∀ c : Request α × Reply α, (d.calls s p pinned)[0]? = some c →
    c.1.x = p.x ∧ c.1.y = p.y
  /-- A later call then starts from the answer of the call before. -/
  later_warm : s.config.warmStart = true →
    ∀ (i : Nat) (c : Request α × Reply α), (d.calls s p pinned)[i + 1]? = some c →
    ∃ (c' : Request α × Reply α) (a : Solution α), (d.calls s p pinned)[i]? = some c' ∧
      c'.2.outcome = .ok a ∧ c.1.x = a.x ∧ c.1.y = a.y
  /-- Without a warm start every call starts from zero. -/
  cold : s.config.warmStart = false →
    ∀ (i : Nat) (c : Request α × Reply α), (d.calls s p pinned)[i]? = some c →
    c.1.x = Vec.zeros p.width ∧ c.1.y = Vec.zeros p.height
  /-- Point `i` is the answer of call `i`. -/
  point : ∀ (i : Nat) (pt : Point α), (d.steps s p pinned)[i]? = some pt →
    ∃ (c : Request α × Reply α) (a : Solution α) (lam : α),
      (d.calls s p pinned)[i]? = some c ∧ c.2.outcome = .ok a ∧
        s.penalty? p pinned i = some lam ∧ pt = ⟨i, lam, a.x, a.status, a.iterations⟩
  /-- There is no other call, but for one after which the path broke off: the engine failed, or its
      answer is no solution and the policy is to stop at such. -/
  ends : (d.calls s p pinned).length = (d.steps s p pinned).length ∨
    (d.calls s p pinned).length = (d.steps s p pinned).length + 1 ∧
      ∃ (q : Request α) (reply : Reply α) (f : Fault α),
        (d.calls s p pinned)[(d.steps s p pinned).length]? = some (q, reply) ∧
          (d.run s p pinned).outcome = .error f ∧
            (reply.outcome = .error f ∨
              ∃ a lam, reply.outcome = .ok a ∧ a.status.ok = false ∧ s.config.policy = .stop ∧
                s.penalty? p pinned (d.steps s p pinned).length = some lam ∧
                  f = .solverFailure (d.steps s p pinned).length lam a.status)
  /-- A path that returns returns its points. -/
  returned : ∀ r, (d.run s p pinned).outcome = .ok r → r.points = d.steps s p pinned

namespace Plan.AskedAt

variable {plan : Plan α σ} {p : Problem α} {calls : List (Request α × Reply α)} {i : Nat}
  {q : Request α} {lam : α} {x y : List α}

/-- A request is about the problem with its penalty. -/
theorem problem (h : plan.AskedAt p calls i q lam x y) :
    q.design = p.design ∧ q.rowTerms = p.rowTerms ∧ Rescaled p.colTerms q.colTerms lam := by
  obtain ⟨hpos, rfl⟩ := h.request
  refine ⟨plan.pose_design _ lam hpos, plan.pose_rowTerms _ lam hpos, ?_⟩
  rw [Problem.request, plan.pose_colTerms]
  exact rescaled_withScale p.colTerms hpos

/-- With a warm start it starts from the vectors before. -/
theorem warm (h : plan.AskedAt p calls i q lam x y) (hwarm : plan.config.warmStart = true) :
    q.x = x ∧ q.y = y := by
  obtain ⟨hpos, rfl⟩ := h.request
  exact Plan.pose_warm hwarm _ hpos

/-- Without one it starts from zero. -/
theorem cold (h : plan.AskedAt p calls i q lam x y) (hcold : plan.config.warmStart = false) :
    q.x = Vec.zeros p.width ∧ q.y = Vec.zeros p.height := by
  obtain ⟨hpos, rfl⟩ := h.request
  exact Plan.pose_cold hcold _ hpos

end Plan.AskedAt

namespace Driver

variable {s : Setup α σ} {d : Driver α σ} {p : Problem α} {pinned : Option α}
  {schedule : Schedule α}

/-- The calls and the points of a path come from one list of turns, and the path may have broken off
    after one more call. -/
theorem exists_turns (s : Setup α σ) (d : Driver α σ) (p : Problem α) (pinned : Option α) :
    ∃ turns : List (Turn α), d.steps s p pinned = turns.mapIdx Turn.point ∧
      (∀ (i : Nat) (t : Turn α), turns[i]? = some t →
        s.penalty? p pinned i = some t.lam ∧ t.reply.outcome = .ok t.solution) ∧
      (d.calls s p pinned = turns.map Turn.call ∨
        ∃ (q : Request α) (reply : Reply α) (f : Fault α),
          d.calls s p pinned = turns.map Turn.call ++ [(q, reply)] ∧
            (d.run s p pinned).outcome = .error f ∧
              (reply.outcome = .error f ∨
                ∃ a lam, reply.outcome = .ok a ∧ a.status.ok = false ∧ s.config.policy = .stop ∧
                  s.penalty? p pinned turns.length = some lam ∧
                    f = .solverFailure turns.length lam a.status)) := by
  cases hschedule : s.schedule? p pinned with
  | none =>
    refine ⟨[], steps_of_none hschedule, fun i t ht => ?_, .inl (calls_of_none hschedule)⟩
    cases ht
  | some schedule =>
    have hpenalty := penalty?_of_schedule? hschedule
    obtain ⟨turns, w, htrail, hends⟩ :=
      Walk.finish_reaches (s.plan schedule).recorded (d.engine, []) p
    -- The path without the record has the same points and ends in the same way.
    have hwalk := forget_walk s d p schedule
    have hsteps : d.steps s p pinned = turns.mapIdx Turn.point := by
      rw [steps_of_schedule? hschedule, ← hwalk, ← htrail.points_eq]
      exact hends.points_eq
    refine ⟨turns, hsteps, fun i t ht => ?_, ?_⟩
    · exact ⟨(hpenalty i).trans (htrail.turn_asks ht).entry,
        htrail.outcome_eq (List.mem_of_getElem? ht)⟩
    · rw [calls_of_schedule? hschedule]
      rcases hends.record with hsame | ⟨lam, hpos, f, hasks, hbreaks, hexit, hmore⟩
      · exact .inl (hsame.trans htrail.record_eq)
      · -- There was one more call, which did not give a point.
        rw [htrail.record_eq] at hmore
        rw [htrail.length_points] at hasks hbreaks
        have hexit' : (d.walk s p schedule).exit = some (.fault f) := by
          rw [← hwalk]
          exact hexit
        have houtcome : (d.run s p pinned).outcome = .error f := by
          rw [run_of_schedule? hschedule, conclude]
          simp only [hexit']
        refine .inr ⟨_, _, f, hmore, houtcome, ?_⟩
        rcases hbreaks with herror | ⟨a, ha, hunsolved, hstop, hf⟩
        · exact .inl herror
        · exact .inr ⟨a, lam, ha, hunsolved, hstop, (hpenalty _).trans hasks.entry, hf⟩

/-- Every path keeps to its dialogue. -/
theorem dialogue (s : Setup α σ) (d : Driver α σ) (p : Problem α) (pinned : Option α) :
    Dialogue s d p pinned := by
  obtain ⟨turns, hsteps, hturns, hcalls⟩ := exists_turns s d p pinned
  constructor
  case problem =>
    intro i c hc
    obtain ⟨schedule, hschedule, lam, x, y, hasked⟩ := exists_askedAt hc
    exact ⟨lam, (penalty?_of_schedule? hschedule i).trans hasked.asks.entry, hasked.problem⟩
  case first_warm =>
    intro hwarm c hc
    obtain ⟨schedule, -, lam, x, y, hasked⟩ := exists_askedAt hc
    obtain ⟨hx, hy⟩ := hasked.first rfl
    rw [(hasked.warm hwarm).1, (hasked.warm hwarm).2]
    exact ⟨hx, hy⟩
  case later_warm =>
    intro hwarm i c hc
    obtain ⟨schedule, -, lam, x, y, hasked⟩ := exists_askedAt hc
    obtain ⟨c', a, hc', ha, hx, hy⟩ := hasked.later i rfl
    refine ⟨c', a, hc', ha, ?_⟩
    rw [(hasked.warm hwarm).1, (hasked.warm hwarm).2]
    exact ⟨hx, hy⟩
  case cold =>
    intro hcold i c hc
    obtain ⟨schedule, -, lam, x, y, hasked⟩ := exists_askedAt hc
    exact hasked.cold hcold
  case point =>
    intro i pt hpt
    rw [hsteps, List.getElem?_mapIdx] at hpt
    obtain ⟨t, ht, rfl⟩ := Option.map_eq_some_iff.1 hpt
    obtain ⟨hpenalty, hreply⟩ := hturns i t ht
    refine ⟨t.call, t.solution, t.lam, ?_, hreply, hpenalty, rfl⟩
    -- A further call comes after those of the turns.
    have hcall : (turns.map Turn.call)[i]? = some t.call := by
      rw [List.getElem?_map, ht, Option.map_some]
    rcases hcalls with hsame | ⟨q, reply, f, hmore, -⟩
    · rw [hsame]
      exact hcall
    · rw [hmore, List.getElem?_append_left (List.getElem?_eq_some_iff.1 hcall).1]
      exact hcall
  case ends =>
    rw [hsteps, List.length_mapIdx]
    rcases hcalls with hsame | ⟨q, reply, f, hmore, houtcome, hbroken⟩
    · rw [hsame, List.length_map]
      exact .inl rfl
    · have hlength : (turns.map Turn.call).length = turns.length := List.length_map _
      rw [hmore, List.length_append, List.length_singleton, hlength]
      refine .inr ⟨rfl, q, reply, f, ?_, houtcome, hbroken⟩
      rw [← hlength, List.getElem?_concat_length]
  case returned =>
    intro r hr
    exact points_eq_steps hr

end Driver

/-! ### Cold paths -/

/-- Problems with the same data pose the same bare problems. -/
theorem solve_bare_eq {E : Engine α σ} (hE : E.Memoryless) {p p' : Problem α} (h : p.SameData p')
    {lam : α} (hpos : 0 < lam) (e e' : σ) :
    (E.solve e' (p'.bare lam hpos)).1.outcome = (E.solve e (p.bare lam hpos)).1.outcome := by
  refine hE e' e _ _ ?_ ?_ ?_
  · show GraphForm.mk _ _ (p'.colTerms.map fun t => t.withScale lam hpos) =
      GraphForm.mk _ _ (p.colTerms.map fun t => t.withScale lam hpos)
    rw [withScale_eq_of_map_eq hpos h.kinds h.offsets]
    show GraphForm.mk p'.design.matrix p'.rowTerms _ = GraphForm.mk p.design.matrix p.rowTerms _
    rw [h.matrix, h.rowTerms]
  · show Vec.zeros p'.design.matrix.cols = Vec.zeros p.design.matrix.cols
    rw [h.matrix]
  · show Vec.zeros p'.design.matrix.height = Vec.zeros p.design.matrix.height
    rw [h.matrix]

/-- Without a warm start a step asks the bare problem. -/
theorem Plan.request_pose_of_cold {plan : Plan α σ} (hcold : plan.config.warmStart = false)
    (p : Problem α) {lam : α} (h : 0 < lam) : (plan.pose p lam h).request = p.bare lam h := by
  unfold pose
  rw [hcold]
  rfl

/-- Each turn of a cold path is an answer to the bare problem with its penalty. -/
theorem Trail.solution_of_cold {plan : Plan α σ} {e : σ} {p : Problem α} {turns : List (Turn α)}
    {w : Walk α σ} (h : Trail plan e p turns w) (hcold : plan.config.warmStart = false)
    {t : Turn α} (ht : t ∈ turns) :
    ∃ hpos e', (plan.engine.solve e' (p.bare t.lam hpos)).1.outcome = .ok t.solution := by
  obtain ⟨i, hi⟩ := List.getElem?_of_mem ht
  obtain ⟨v, hpos, hv, -, -, hreply, -⟩ := h.before hi
  rw [Walk.reply, hv.pose_problem hpos, Plan.request_pose_of_cold hcold] at hreply
  exact ⟨hpos, v.engine, hreply⟩

namespace Driver

variable {s s' : Setup α σ} {d d' : Driver α σ} {p p' : Problem α} {pinned pinned' : Option α}

/-- So is each step. -/
theorem exists_solution_of_cold (hcold : s.config.warmStart = false) {pt : Point α}
    (hpt : pt ∈ d.steps s p pinned) :
    ∃ hpos e a, (s.engine.solve e (p.bare pt.lam hpos)).1.outcome = .ok a ∧
      pt.x = a.x ∧ pt.status = a.status ∧ pt.iterations = a.iterations := by
  obtain ⟨schedule, turns, w, htrail, hmem⟩ := exists_trail_of_step hpt
  obtain ⟨i, hi⟩ := List.getElem?_of_mem hmem
  obtain ⟨t, ht, rfl⟩ := htrail.exists_turn hi
  obtain ⟨hpos, e, ha⟩ := htrail.solution_of_cold hcold (List.mem_of_getElem? ht)
  exact ⟨hpos, e, t.solution, ha, rfl, rfl, rfl⟩

/-- The steps of two cold paths with one penalty are the same, if the engine has no memory. -/
theorem step_eq_of_cold (hE : s.engine.Memoryless) (hcold : s.config.warmStart = false)
    (hengine : s'.engine = s.engine) (hcold' : s'.config.warmStart = false) (hdata : p.SameData p')
    {pt pt' : Point α} (hpt : pt ∈ d.steps s p pinned) (hpt' : pt' ∈ d'.steps s' p' pinned')
    (hlam : pt'.lam = pt.lam) :
    pt'.x = pt.x ∧ pt'.status = pt.status ∧ pt'.iterations = pt.iterations := by
  obtain ⟨hpos, e, a, ha, hx, hstatus, hiterations⟩ := exists_solution_of_cold hcold hpt
  obtain ⟨hpos', e', a', ha', hx', hstatus', hiterations'⟩ := exists_solution_of_cold hcold' hpt'
  -- Both are answers to one bare problem.
  have heq : (s'.engine.solve e' (p'.bare pt'.lam hpos')).1.outcome =
      (s.engine.solve e (p.bare pt.lam hpos)).1.outcome := by
    simp only [hengine, hlam]
    exact solve_bare_eq hE hdata hpos e e'
  rw [ha, ha'] at heq
  obtain rfl := Except.ok.inj heq
  rw [hx, hx', hstatus, hstatus', hiterations, hiterations']
  exact ⟨rfl, rfl, rfl⟩

/-- Every path keeps to its dialogue, and with an engine that has no memory a point of a cold path
    depends on nothing but the data of the problem and the penalty: any path on these data with this
    engine has the same point at this penalty. -/
theorem run_dialogue (s : Setup α σ) (d : Driver α σ) (p : Problem α) (pinned : Option α) :
    Dialogue s d p pinned ∧
      (s.engine.Memoryless → s.config.warmStart = false →
        ∀ (s' : Setup α σ) (d' : Driver α σ) (p' : Problem α) (pinned' : Option α),
          s'.engine = s.engine → s'.config.warmStart = false → p.SameData p' →
            ∀ pt ∈ d.steps s p pinned, ∀ pt' ∈ d'.steps s' p' pinned', pt'.lam = pt.lam →
              pt'.x = pt.x ∧ pt'.status = pt.status ∧ pt'.iterations = pt.iterations) := by
  refine ⟨dialogue s d p pinned, ?_⟩
  intro hE hcold s' d' p' pinned' hengine hcold' hdata pt hpt pt' hpt' hlam
  exact step_eq_of_cold hE hcold hengine hcold' hdata hpt hpt' hlam

end Driver

/-- The engine that answers zero has no memory. -/
theorem zeroEngine_memoryless : zeroEngine.Memoryless := by
  intro e e' q q' hform _ _
  have hmatrix : q.design.matrix = q'.design.matrix := congrArg GraphForm.matrix hform
  show Except.ok (Solution.mk (Vec.zeros q.design.matrix.cols) (Vec.zeros q.design.matrix.height)
    _ _) = Except.ok _
  rw [hmatrix]
  rfl

/-- Three penalties without a time limit and without a warm start. -/
noncomputable def coldConfig : Config ℝ := { untimedConfig with warmStart := false }

/-- The paths of a single number from zero and from one have the same points. -/
theorem Driver.run_dialogue_brief :
    ∃ r r',
      (Driver.run ⟨coldConfig, zeroEngine, fun i => (i : ℝ)⟩ (.new ()) briefProblem
        (some 1)).outcome = .ok r ∧
      (Driver.run ⟨coldConfig, zeroEngine, fun i => (i : ℝ)⟩ (.new ())
        { briefProblem with x := [1], y := [1] } (some 1)).outcome = .ok r' ∧
      ∀ pt ∈ r.points, ∀ pt' ∈ r'.points, pt'.lam = pt.lam →
        pt'.x = pt.x ∧ pt'.status = pt.status ∧ pt'.iterations = pt.iterations := by
  have hcount : coldConfig.count ≤ Schedule.largestSize := by
    show 3 ≤ Schedule.largestSize
    decide
  have hreturns : ∀ p : Problem ℝ, p.WellFormed → ∃ r,
      (Driver.run ⟨coldConfig, zeroEngine, fun i => (i : ℝ)⟩ (.new ()) p (some 1)).outcome =
        .ok r :=
    fun p hp => Driver.run_returns (.inl rfl) (zeroEngine_serves p) hp rfl hcount
  obtain ⟨r, hr⟩ := hreturns briefProblem briefProblem_wellFormed
  obtain ⟨r', hr'⟩ := hreturns { briefProblem with x := [1], y := [1] } ⟨rfl, rfl, rfl, rfl, rfl⟩
  have hdialogue := Driver.run_dialogue ⟨coldConfig, zeroEngine, fun i => (i : ℝ)⟩ (.new ())
    briefProblem (some 1)
  refine ⟨r, r', hr, hr', ?_⟩
  rw [Driver.points_eq_steps hr, Driver.points_eq_steps hr']
  exact hdialogue.2 zeroEngine_memoryless rfl _ _ _ _ rfl rfl ⟨rfl, rfl, rfl, rfl⟩

end Path

end RegPath
