import RegPath.Path.Walk

namespace RegPath.Path

/-!
# Moves of a walk

What one step of a walk can do, said once: it finds the schedule or the limit on the steps at its
end, it cannot install a penalty, it breaks off after its call of the engine, or it keeps what the
engine returned.  Whether a kept step is the last one is a verdict on its solution and the one
before it.

* `Rescaled` — terms that differ in their scales only, which are all the same;
* `Plan.pose` — the problem of a step;
* `Walk.verdict?` — whether a kept step is the last one, and how it ends the walk;
* `Walk.reply`, `Walk.asked` — the call of the engine and the walk after it;
* `Walk.Halt`, `Walk.Move` — the three ways to end without keeping a step, and the four moves;
* `Walk.step_move` — there is no other move;
* `Walk.step_of_asks`, `Walk.step_of_capped` and others — which move it is, by what the step
  reaches.
-/

variable {α : Type} [Scalar α] {σ : Type}

/-- The terms `ts'` are the terms `ts` with one scale for all of them. -/
structure Rescaled (ts ts' : List (Term α)) (scale : α) : Prop where
  /-- The shapes stay. -/
  kinds : ts'.map Term.kind = ts.map Term.kind
  /-- The offsets stay. -/
  offsets : ts'.map Term.offset = ts.map Term.offset
  /-- Every scale is the given one. -/
  scales : ∀ t ∈ ts', t.scale = scale

/-- A penalty that is given to all terms is such a scale. -/
theorem rescaled_withScale (ts : List (Term α)) {lam : α} (h : 0 < lam) :
    Rescaled ts (ts.map fun t => t.withScale lam h) lam where
  kinds := by
    rw [List.map_map]
    rfl
  offsets := by
    rw [List.map_map]
    rfl
  scales := by
    intro t ht
    obtain ⟨u, -, rfl⟩ := List.mem_map.1 ht
    rfl

/-- With a penalty nothing but the shapes and the offsets is left of the terms. -/
theorem withScale_eq_of_map_eq {ts ts' : List (Term α)} {lam : α} (h : 0 < lam)
    (hkinds : ts'.map Term.kind = ts.map Term.kind)
    (hoffsets : ts'.map Term.offset = ts.map Term.offset) :
    (ts'.map fun t => t.withScale lam h) = ts.map fun t => t.withScale lam h := by
  induction ts generalizing ts' with
  | nil => rw [List.map_eq_nil_iff.1 hkinds]
  | cons t ts ih =>
    cases ts' with
    | nil => cases hkinds
    | cons t' ts' =>
      obtain ⟨hkind, hkinds⟩ := List.cons_eq_cons.1 hkinds
      obtain ⟨hoffset, hoffsets⟩ := List.cons_eq_cons.1 hoffsets
      rw [List.map_cons, List.map_cons, ih hkinds hoffsets, Term.withScale, hkind, hoffset]
      rfl

namespace Plan

/-- Whether step `i` reaches its penalty `lam`. -/
structure Asks (plan : Plan α σ) (i : Nat) (lam : α) : Prop where
  /-- The schedule has the entry. -/
  lt_count : i < plan.schedule.count
  /-- The entry is a number. -/
  entry : plan.schedule.entry? i = some lam
  /-- The limit on the steps is not reached. -/
  capped : Walk.capped plan.config i = false

/-- The problem of a step with penalty `lam`: the penalty is the scale of every column term, and
    without a warm start the vectors are zero. -/
def pose (plan : Plan α σ) (p : Problem α) (lam : α) (h : 0 < lam) : Problem α :=
  let p := { p with colTerms := p.colTerms.map fun t => t.withScale lam h }
  if plan.config.warmStart then p else p.reset

/-- A step keeps the matrix. -/
@[simp] theorem pose_design (plan : Plan α σ) (p : Problem α) (lam : α) (h : 0 < lam) :
    (plan.pose p lam h).design = p.design := by
  unfold pose
  cases plan.config.warmStart <;> rfl

/-- A step keeps the row terms. -/
@[simp] theorem pose_rowTerms (plan : Plan α σ) (p : Problem α) (lam : α) (h : 0 < lam) :
    (plan.pose p lam h).rowTerms = p.rowTerms := by
  unfold pose
  cases plan.config.warmStart <;> rfl

/-- A step gives every column term its penalty. -/
@[simp] theorem pose_colTerms (plan : Plan α σ) (p : Problem α) (lam : α) (h : 0 < lam) :
    (plan.pose p lam h).colTerms = p.colTerms.map fun t => t.withScale lam h := by
  unfold pose
  cases plan.config.warmStart <;> rfl

/-- A step keeps the observations. -/
@[simp] theorem pose_observations (plan : Plan α σ) (p : Problem α) (lam : α) (h : 0 < lam) :
    (plan.pose p lam h).observations = p.observations := by
  unfold pose
  cases plan.config.warmStart <;> rfl

/-- With a warm start a step keeps the vectors. -/
theorem pose_warm {plan : Plan α σ} (hwarm : plan.config.warmStart = true) (p : Problem α)
    {lam : α} (h : 0 < lam) : (plan.pose p lam h).x = p.x ∧ (plan.pose p lam h).y = p.y := by
  unfold pose
  rw [hwarm]
  exact ⟨rfl, rfl⟩

/-- Without one it starts from zero. -/
theorem pose_cold {plan : Plan α σ} (hcold : plan.config.warmStart = false) (p : Problem α)
    {lam : α} (h : 0 < lam) :
    (plan.pose p lam h).x = Vec.zeros p.width ∧ (plan.pose p lam h).y = Vec.zeros p.height := by
  unfold pose
  rw [hcold]
  exact ⟨rfl, rfl⟩

/-- Of an earlier step only the vectors are left. -/
theorem pose_pose (plan : Plan α σ) (p : Problem α) (x y : List α) {l lam : α} (hl : 0 < l)
    (h : 0 < lam) :
    plan.pose { plan.pose p l hl with x := x, y := y } lam h =
      plan.pose { p with x := x, y := y } lam h := by
  have hscale : ∀ ts : List (Term α), (ts.map fun t => t.withScale l hl).map
      (fun t => t.withScale lam h) = ts.map fun t => t.withScale lam h := by
    intro ts
    rw [List.map_map]
    rfl
  unfold pose
  cases plan.config.warmStart with
  | true => simp [hscale]
  | false => simp [hscale, Problem.reset, Problem.width, Problem.height]

end Plan

namespace Walk

variable {plan : Plan α σ} {w : Walk α σ}

/-! ### Verdicts -/

/-- How a walk ends with a step that is kept, or `none` if it goes on. -/
def verdict? (plan : Plan α σ) (previous : List α) (i : Nat) (x : List α) : Option (Exit α) :=
  match agrees? plan.config x previous with
  | none => some (.fault .lengths)
  | some true => some (.phase .converged)
  | some false => (late plan i).map fun _ => .phase .timedOut

/-- A walk goes on after a step that does not agree with the one before and is not late. -/
theorem verdict?_eq_none {previous x : List α} {i : Nat} :
    verdict? plan previous i x = none ↔
      agrees? plan.config x previous = some false ∧ late plan i = none := by
  unfold verdict?
  cases agrees? plan.config x previous with
  | none => simp
  | some agreed => cases agreed <;> simp

/-- A walk ends in a phase after a step that agrees with the one before, or after a late one that
    does not. -/
theorem verdict?_eq_phase {previous x : List α} {i : Nat} {phase : Phase} :
    verdict? plan previous i x = some (.phase phase) ↔
      agrees? plan.config x previous = some true ∧ phase = .converged ∨
        agrees? plan.config x previous = some false ∧ (late plan i).isSome ∧ phase = .timedOut := by
  unfold verdict?
  cases agrees? plan.config x previous with
  | none => simp
  | some agreed =>
    cases agreed with
    | false =>
      cases late plan i with
      | none => simp
      | some limit => simpa using eq_comm
    | true => simpa using eq_comm

/-- A walk breaks off after a step whose iterate has to be compared and cannot be. -/
theorem verdict?_eq_fault {previous x : List α} {i : Nat} {f : Fault α} :
    verdict? plan previous i x = some (.fault f) ↔
      agrees? plan.config x previous = none ∧ f = .lengths := by
  unfold verdict?
  cases agrees? plan.config x previous with
  | none => simp [eq_comm]
  | some agreed =>
    cases agreed with
    | true => simp
    | false => cases late plan i <;> simp

/-- The verdict depends on the test and on the clock. -/
theorem verdict?_congr {plan' : Plan α σ} {previous x : List α} {i : Nat}
    (hagrees : agrees? plan'.config x previous = agrees? plan.config x previous)
    (hlate : late plan' i = late plan i) :
    verdict? plan' previous i x = verdict? plan previous i x := by
  unfold verdict?
  rw [hagrees, hlate]

/-! ### Kept steps -/

/-- A kept step adds its point. -/
@[simp] theorem keep_points (plan : Plan α σ) (w : Walk α σ) (i : Nat) (lam : α) (s : Solution α) :
    (w.keep plan i lam s).points = w.points ++ [⟨i, lam, s.x, s.status, s.iterations⟩] := by
  unfold keep
  simp only
  split
  · rfl
  · rfl
  · split <;> rfl

/-- A kept step installs its vectors. -/
@[simp] theorem keep_problem (plan : Plan α σ) (w : Walk α σ) (i : Nat) (lam : α) (s : Solution α) :
    (w.keep plan i lam s).problem = { w.problem with x := s.x, y := s.y } := by
  unfold keep
  simp only
  split
  · rfl
  · rfl
  · split <;> rfl

/-- A kept step leaves the engine. -/
@[simp] theorem keep_engine (plan : Plan α σ) (w : Walk α σ) (i : Nat) (lam : α) (s : Solution α) :
    (w.keep plan i lam s).engine = w.engine := by
  unfold keep
  simp only
  split
  · rfl
  · rfl
  · split <;> rfl

/-- A kept step ends the walk by its verdict. -/
theorem keep_exit (h : w.exit = none) (i : Nat) (lam : α) (s : Solution α) :
    (w.keep plan i lam s).exit = verdict? plan w.previous i s.x := by
  unfold keep verdict?
  simp only
  cases agrees? plan.config s.x w.previous with
  | none => rfl
  | some agreed =>
    cases agreed
    · cases late plan i with
      | none => exact h
      | some limit => rfl
    · rfl

/-- A kept step after which the walk goes on is what the next one is compared with. -/
theorem keep_previous {i : Nat} (lam : α) {s : Solution α}
    (h : verdict? plan w.previous i s.x = none) : (w.keep plan i lam s).previous = s.x := by
  obtain ⟨hagrees, hlate⟩ := verdict?_eq_none.1 h
  unfold keep
  simp only [hagrees, hlate]

/-! ### The call -/

/-- What the engine replies at a step with penalty `lam`. -/
def reply (plan : Plan α σ) (w : Walk α σ) (lam : α) (h : 0 < lam) : Reply α :=
  (plan.engine.solve w.engine (plan.pose w.problem lam h).request).1

/-- The walk after the call of the engine at a step with penalty `lam`. -/
def asked (plan : Plan α σ) (w : Walk α σ) (lam : α) (h : 0 < lam) : Walk α σ :=
  { w with
    engine := (plan.engine.solve w.engine (plan.pose w.problem lam h).request).2
    problem := plan.pose w.problem lam h
    events := w.events ++ (w.reply plan lam h).events }

/-- A call leaves the points. -/
@[simp] theorem asked_points (plan : Plan α σ) (w : Walk α σ) (lam : α) (h : 0 < lam) :
    (w.asked plan lam h).points = w.points := rfl

/-- Whether a step breaks off with the fault `f` after its call: the engine failed, or its answer
    is no solution and the policy does not keep such. -/
def Breaks (plan : Plan α σ) (i : Nat) (lam : α) (outcome : Except (Fault α) (Solution α))
    (f : Fault α) : Prop :=
  outcome = .error f ∨ ∃ s, outcome = .ok s ∧ s.status.ok = false ∧ plan.config.policy = .stop ∧
    f = .solverFailure i lam s.status

/-! ### Moves -/

/-- What ends a walk at a step that is not kept. -/
inductive Halt (plan : Plan α σ) (w : Walk α σ) : Walk α σ → Prop where
  /-- Nothing is left of the schedule, or of the part of it that was asked for. -/
  | spent (h : plan.schedule.count ≤ w.points.length ∨ capped plan.config w.points.length = true) :
      Halt plan w (w.halt (.phase .exhausted))
  /-- The penalty is no number, or not positive. -/
  | refused (f : Fault α) (hlt : w.points.length < plan.schedule.count)
      (hf : plan.schedule.entry? w.points.length = none ∧ f = .overflow ∨
        ∃ lam, plan.Asks w.points.length lam ∧ ¬ 0 < lam ∧ f = .penaltyNotPositive lam) :
      Halt plan w (w.halt (.fault f))
  /-- The step breaks off after its call. -/
  | broken (lam : α) (h : 0 < lam) (f : Fault α) (hasks : plan.Asks w.points.length lam)
      (hbreaks : Breaks plan w.points.length lam (w.reply plan lam h).outcome f) :
      Halt plan w ((w.asked plan lam h).halt (.fault f))

/-- What a step of a walk can do. -/
inductive Move (plan : Plan α σ) (w : Walk α σ) : Walk α σ → Prop where
  /-- The walk ends without keeping the step. -/
  | halted (w' : Walk α σ) (h : Halt plan w w') : Move plan w w'
  /-- The step is kept. -/
  | kept (lam : α) (h : 0 < lam) (s : Solution α) (hasks : plan.Asks w.points.length lam)
      (hreply : (w.reply plan lam h).outcome = .ok s)
      (hpolicy : s.status.ok = false → plan.config.policy ≠ .stop) :
      Move plan w ((w.asked plan lam h).keep plan w.points.length lam s)

/-- A walk that is halted has ended. -/
theorem Halt.exit_ne {w' : Walk α σ} (h : Halt plan w w') : w'.exit ≠ none := by
  cases h with
  | spent => exact Option.some_ne_none _
  | refused => exact Option.some_ne_none _
  | broken => exact Option.some_ne_none _

/-- A walk that is halted keeps its points. -/
theorem Halt.points_eq {w' : Walk α σ} (h : Halt plan w w') : w'.points = w.points := by
  cases h with
  | spent => rfl
  | refused => rfl
  | broken => rfl

/-- A step that keeps the answer of its call does not halt the walk. -/
theorem Halt.not_kept {lam : α} {hpos : 0 < lam} {s : Solution α} {w' : Walk α σ}
    (h : Halt plan w w') : w' ≠ (w.asked plan lam hpos).keep plan w.points.length lam s := by
  rintro rfl
  have hlength := congrArg List.length h.points_eq
  rw [keep_points, asked_points, List.length_append, List.length_singleton] at hlength
  omega

/-- A call that breaks off ends the walk with its fault. -/
theorem call_of_breaks {lam : α} (h : 0 < lam) {f : Fault α}
    (hbreaks : Breaks plan w.points.length lam (w.reply plan lam h).outcome f) :
    call plan { w with problem := plan.pose w.problem lam h } w.points.length lam =
      (w.asked plan lam h).halt (.fault f) := by
  unfold call
  rcases hbreaks with herror | ⟨s, hok, hunsolved, hstop, rfl⟩
  · rw [reply] at herror
    simp only [herror]
    rfl
  · rw [reply] at hok
    simp only [hok, if_pos (And.intro hunsolved hstop)]
    rfl

/-- A call whose solution the policy admits leads to a kept step. -/
theorem call_of_kept {lam : α} (h : 0 < lam) {s : Solution α}
    (hreply : (w.reply plan lam h).outcome = .ok s)
    (hpolicy : s.status.ok = false → plan.config.policy ≠ .stop) :
    call plan { w with problem := plan.pose w.problem lam h } w.points.length lam =
      (w.asked plan lam h).keep plan w.points.length lam s := by
  unfold call
  rw [reply] at hreply
  simp only [hreply, if_neg fun hstop : s.status.ok = false ∧ plan.config.policy = .stop =>
    hpolicy hstop.1 hstop.2]
  rfl

/-- A call breaks the walk off or leads to a kept step. -/
theorem call_move {lam : α} (h : 0 < lam) (hasks : plan.Asks w.points.length lam) :
    Move plan w
      (call plan { w with problem := plan.pose w.problem lam h } w.points.length lam) := by
  cases hreply : (w.reply plan lam h).outcome with
  | error f =>
    rw [call_of_breaks h (.inl hreply)]
    exact .halted _ (.broken lam h f hasks (.inl hreply))
  | ok s =>
    by_cases hstop : s.status.ok = false ∧ plan.config.policy = .stop
    · have hbreaks : Breaks plan w.points.length lam (w.reply plan lam h).outcome
          (.solverFailure w.points.length lam s.status) :=
        .inr ⟨s, hreply, hstop.1, hstop.2, rfl⟩
      rw [call_of_breaks h hbreaks]
      exact .halted _ (.broken lam h _ hasks hbreaks)
    · have hpolicy : s.status.ok = false → plan.config.policy ≠ .stop :=
        fun hok hpolicy => hstop ⟨hok, hpolicy⟩
      rw [call_of_kept h hreply hpolicy]
      exact .kept lam h s hasks hreply hpolicy

/-- There is no other move. -/
theorem step_move (plan : Plan α σ) (w : Walk α σ) : Move plan w (w.step plan) := by
  unfold step
  by_cases hcount : plan.schedule.count ≤ w.points.length
  · rw [if_pos hcount]
    exact .halted _ (.spent (.inl hcount))
  · rw [if_neg hcount]
    have hlt := Nat.lt_of_not_le hcount
    cases hentry : plan.schedule.entry? w.points.length with
    | none => exact .halted _ (.refused .overflow hlt (.inl ⟨hentry, rfl⟩))
    | some lam =>
      by_cases hcapped : capped plan.config w.points.length = true
      · simp only [if_pos hcapped]
        exact .halted _ (.spent (.inr hcapped))
      · have hasks : plan.Asks w.points.length lam :=
          ⟨hlt, hentry, Bool.eq_false_iff.2 hcapped⟩
        simp only [if_neg hcapped, Problem.withPenalty?]
        by_cases hpos : 0 < lam
        · rw [Term.withPenalty?_of_pos _ hpos]
          exact call_move hpos hasks
        · rw [Term.withPenalty?_of_not_pos _ hpos]
          exact .halted _ (.refused _ hlt (.inr ⟨lam, hasks, hpos, rfl⟩))

/-! ### Steps by what they reach -/

/-- A step that reaches its penalty calls the engine. -/
theorem step_of_asks {lam : α} (h : 0 < lam) (hasks : plan.Asks w.points.length lam) :
    w.step plan =
      call plan { w with problem := plan.pose w.problem lam h } w.points.length lam := by
  unfold step
  rw [if_neg (Nat.not_le.2 hasks.lt_count)]
  simp only [hasks.entry, hasks.capped, Problem.withPenalty?, Term.withPenalty?_of_pos _ h]
  rfl

/-- At the end of the schedule a step ends the walk. -/
theorem step_of_count_le (h : plan.schedule.count ≤ w.points.length) :
    w.step plan = w.halt (.phase .exhausted) :=
  if_pos h

/-- A step whose penalty is no number, or not positive, ends the walk. -/
theorem step_of_refused {f : Fault α} (hlt : w.points.length < plan.schedule.count)
    (hf : plan.schedule.entry? w.points.length = none ∧ f = .overflow ∨
      ∃ lam, plan.Asks w.points.length lam ∧ ¬ 0 < lam ∧ f = .penaltyNotPositive lam) :
    w.step plan = w.halt (.fault f) := by
  unfold step
  rw [if_neg (Nat.not_le.2 hlt)]
  rcases hf with ⟨hnone, rfl⟩ | ⟨lam, hasks, hpos, rfl⟩
  · simp only [hnone]
  · simp only [hasks.entry, hasks.capped, Problem.withPenalty?, Term.withPenalty?_of_not_pos _ hpos]
    rfl

/-- At the limit on the steps a step ends the walk, if its penalty is a number. -/
theorem step_of_capped {lam : α} (hlt : w.points.length < plan.schedule.count)
    (hentry : plan.schedule.entry? w.points.length = some lam)
    (hcapped : capped plan.config w.points.length = true) :
    w.step plan = w.halt (.phase .exhausted) := by
  unfold step
  rw [if_neg (Nat.not_le.2 hlt)]
  simp only [hentry, if_pos hcapped]

/-- What halts a walk with a fault is its step.  The converse of `step_move` fails for the other
    halts: a step at the limit may find that its penalty is no number. -/
theorem Halt.step_eq {w' : Walk α σ} {f : Fault α} (h : Halt plan w w')
    (hexit : w'.exit = some (.fault f)) : w.step plan = w' := by
  cases h with
  | spent => cases hexit
  | refused f hlt hf => exact step_of_refused hlt hf
  | broken lam hpos f hasks hbreaks => rw [step_of_asks hpos hasks, call_of_breaks hpos hbreaks]

end Walk

end RegPath.Path
