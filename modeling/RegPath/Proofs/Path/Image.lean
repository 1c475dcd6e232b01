import RegPath.Proofs.Path.Outcome

namespace RegPath

/-!
# Paths that mirror each other

Two paths on different problems may take the same course, each value of one being the image of a
value of the other: the vectors by one map for the columns and one for the rows, the penalties by a
third.  It is enough that the engines answer corresponding requests with corresponding solutions and
that the tests between two steps come out alike.

* `Image` — the three maps, with what they make of solutions, points, faults and results;
* `Path.Plan.Mirrors` — plans whose steps correspond;
* `Path.Walk.Mirrors`, `Path.Plan.Mirrors.step`, `Path.Plan.Mirrors.advanceBy` — walks that
  correspond, one step of them and any number;
* `Path.Driver.run_of_mirrors` — paths whose walks correspond return corresponding results;
* `Schedule.exists_mirrors`, `Path.Driver.run_image` — in exact arithmetic the schedule from a
  multiple of its top has the multiples of its entries, so that only the walks are left to compare;
* `Path.Result.StopsAtOnce`, `Path.Driver.verdict?_of_first`, `Path.Driver.run_of_mirrors_untimed` —
  the first step, which is compared with a vector that has no image.
-/

/-- What becomes of the vectors and penalties of one path in another. -/
structure Image (α : Type) where
  /-- What becomes of the coefficients. -/
  x : List α → List α
  /-- What becomes of the row values. -/
  y : List α → List α
  /-- What becomes of a penalty. -/
  lam : α → α

namespace Image

variable {α : Type}

/-- Everything stays as it is. -/
def same : Image α := ⟨id, id, id⟩

variable (I : Image α)

/-- What becomes of a fault: the penalty that it quotes is replaced. -/
def fault : Fault α → Fault α
  | .degenerate top => .degenerate (I.lam top)
  | .penaltyNotPositive lam => .penaltyNotPositive (I.lam lam)
  | .solverFailure step lam status => .solverFailure step (I.lam lam) status
  | f => f

/-- What becomes of a solution: its vectors are replaced. -/
def solution (s : Solution α) : Solution α := { s with x := I.x s.x, y := I.y s.y }

/-- What becomes of a point: its penalty and its coefficients are replaced. -/
def point (pt : Path.Point α) : Path.Point α := { pt with lam := I.lam pt.lam, x := I.x pt.x }

/-- What becomes of a result: its phase stays. -/
def result (r : Path.Result α) : Path.Result α where
  points := r.points.map I.point
  phase := r.phase
  lamMax := I.lam r.lamMax
  lambdas := r.lambdas.map I.lam
  x := I.x r.x
  y := I.y r.y

/-- What becomes of the end of an operation. -/
def outcome {β γ : Type} (g : β → γ) : Except (Fault α) β → Except (Fault α) γ
  | .ok b => .ok (g b)
  | .error f => .error (I.fault f)

/-- What becomes of the end of a walk. -/
def exit : Path.Exit α → Path.Exit α
  | .phase p => .phase p
  | .fault f => .fault (I.fault f)

/-- Nothing becomes of a fault where everything stays. -/
theorem fault_same (f : Fault α) : (same : Image α).fault f = f := by
  cases f <;> rfl

/-- Nothing becomes of a result. -/
theorem outcome_same (o : Except (Fault α) (Path.Result α)) : same.outcome same.result o = o := by
  cases o with
  | error f => rw [outcome, fault_same]
  | ok r =>
    have hpoint : (same : Image α).point = id := rfl
    rw [outcome, result, hpoint]
    simp [same]

/-- Nothing becomes of a solution. -/
theorem outcome_same_solution (o : Except (Fault α) (Solution α)) :
    same.outcome same.solution o = o := by
  cases o with
  | error f => rw [outcome, fault_same]
  | ok s => rfl

/-- Nothing becomes of the end of a walk. -/
theorem exit_same (e : Path.Exit α) : (same : Image α).exit e = e := by
  cases e with
  | phase p => rfl
  | fault f => rw [exit, fault_same]

end Image

/-! ### Schedules -/

/-- Schedules of one length whose penalties correspond. -/
structure Schedule.Mirrors {α : Type} [Scalar α] (I : Image α) (s s' : Schedule α) : Prop where
  /-- The first penalties correspond. -/
  top : s'.top = I.lam s.top
  /-- There are as many entries. -/
  count : s'.count = s.count
  /-- All entries correspond. -/
  entry : ∀ i, i < s.count → s'.entry? i = (s.entry? i).map I.lam

/-- The lists of all penalties correspond. -/
theorem Schedule.Mirrors.grid_eq {α : Type} [Scalar α] {I : Image α} {s s' : Schedule α}
    (h : s.Mirrors I s') : s'.grid = I.outcome (List.map I.lam) s.grid := by
  have hindexed : ∀ l : List Nat, (∀ i ∈ l, i < s.count) →
      l.mapM (fun i => (s'.entry? i).map fun lam => (i, lam)) =
        (l.mapM fun i => (s.entry? i).map fun lam => (i, lam)).map
          (List.map fun e => (e.1, I.lam e.2)) := by
    intro l hl
    induction l with
    | nil => rfl
    | cons i l ih =>
      rw [List.mapM_cons, List.mapM_cons, ih fun j hj => hl j (List.mem_cons_of_mem i hj),
        h.entry i (hl i List.mem_cons_self)]
      cases s.entry? i with
      | none => rfl
      | some lam =>
        cases l.mapM fun i => (s.entry? i).map fun lam => (i, lam) with
        | none => rfl
        | some entries => rfl
  unfold grid indexed?
  rw [h.count, hindexed _ fun i hi => List.mem_range.1 hi]
  cases (List.range s.count).mapM fun i => (s.entry? i).map fun lam => (i, lam) with
  | none => rfl
  | some entries => simp [Image.outcome, Function.comp_def]

namespace Path

variable {α : Type} [Scalar α] {σ τ : Type} {I : Image α}
  {R : σ → Problem α → τ → Problem α → Prop} {Good : List α → Prop}
  {plan : Plan α σ} {plan' : Plan α τ} {w : Walk α σ} {w' : Walk α τ}

/-! ### Steps -/

/-- How the answers to one step of two plans correspond, from states and problems that do. -/
structure Plan.Replies (I : Image α) (R : σ → Problem α → τ → Problem α → Prop)
    (Good : List α → Prop) (plan : Plan α σ) (plan' : Plan α τ) (e : σ) (q : Problem α) (e' : τ)
    (q' : Problem α) : Prop where
  /-- The replies correspond. -/
  outcome : (plan'.engine.solve e' q'.request).1.outcome =
    I.outcome I.solution (plan.engine.solve e q.request).1.outcome
  /-- So do the states and the problems after a solution. -/
  next : ∀ s, (plan.engine.solve e q.request).1.outcome = .ok s →
    Good s.x ∧ R (plan.engine.solve e q.request).2 { q with x := s.x, y := s.y }
      (plan'.engine.solve e' q'.request).2 { q' with x := I.x s.x, y := I.y s.y }

/-- Plans whose steps correspond: `R` tells which states of the engines go with each other, and
    `Good` which iterates are compared. -/
structure Plan.Mirrors (I : Image α) (R : σ → Problem α → τ → Problem α → Prop)
    (Good : List α → Prop) (plan : Plan α σ) (plan' : Plan α τ) : Prop where
  /-- The penalties correspond. -/
  schedule : plan.schedule.Mirrors I plan'.schedule
  /-- Both or neither penalty is positive. -/
  pos : ∀ lam, 0 < I.lam lam ↔ 0 < lam
  /-- Both have the same limit on the steps. -/
  capped : ∀ i, Walk.capped plan'.config i = Walk.capped plan.config i
  /-- Both have the same policy. -/
  policy : plan'.config.policy = plan.config.policy
  /-- Problems that go with each other have corresponding vectors. -/
  vectors : ∀ e p e' p', R e p e' p' → p'.x = I.x p.x ∧ p'.y = I.y p.y
  /-- The engines answer corresponding requests with corresponding solutions. -/
  replies : ∀ e p e' p', R e p e' p' → ∀ (lam : α) (h : 0 < lam) (h' : 0 < I.lam lam),
    plan.Replies I R Good plan' e (plan.pose p lam h) e' (plan'.pose p' (I.lam lam) h')
  /-- Steps after corresponding iterates are judged alike. -/
  verdict : ∀ x previous, Good x → Good previous → ∀ i,
    Walk.verdict? plan' (I.x previous) i (I.x x) =
      (Walk.verdict? plan previous i x).map I.exit

/-- Walks that correspond, as long as no fault has ended them. -/
structure Walk.Mirrors (I : Image α) (R : σ → Problem α → τ → Problem α → Prop)
    (plan : Plan α σ) (plan' : Plan α τ) (w : Walk α σ) (w' : Walk α τ) : Prop where
  /-- The points correspond. -/
  points : w'.points = w.points.map I.point
  /-- So do the ends. -/
  exit : w'.exit = w.exit.map I.exit
  /-- So do the states of the engines with their problems. -/
  state : (∀ f, w.exit ≠ some (.fault f)) → R w.engine w.problem w'.engine w'.problem
  /-- The next step that is kept will be judged alike. -/
  judged : w.exit = none → ∀ (lam : α) (h : 0 < lam) (s : Solution α),
    plan.Asks w.points.length lam → (w.reply plan lam h).outcome = .ok s →
      (s.status.ok = false → plan.config.policy ≠ .stop) →
        Walk.verdict? plan' w'.previous w.points.length (I.x s.x) =
          (Walk.verdict? plan w.previous w.points.length s.x).map I.exit

namespace Walk.Mirrors

/-- There are as many points. -/
theorem length_points (h : Walk.Mirrors I R plan plan' w w') :
    w'.points.length = w.points.length := by
  rw [h.points, List.length_map]

/-- Walks that are halted in corresponding ways correspond. -/
theorem halt (h : Walk.Mirrors I R plan plan' w w') (running : w.exit = none) (e : Exit α) :
    Walk.Mirrors I R plan plan' (w.halt e) (w'.halt (I.exit e)) where
  points := h.points
  exit := rfl
  state := fun _ => h.state fun f hf => by rw [running] at hf; cases hf
  judged := fun hexit => absurd hexit (Option.some_ne_none e)

end Walk.Mirrors

namespace Plan.Mirrors

variable (h : plan.Mirrors I R Good plan')

include h

/-- A penalty that one plan reaches is the image of one that the other reaches. -/
theorem asks {i : Nat} {lam : α} (hasks : plan.Asks i lam) : plan'.Asks i (I.lam lam) where
  lt_count := by
    rw [h.schedule.count]
    exact hasks.lt_count
  entry := by
    rw [h.schedule.entry i hasks.lt_count, hasks.entry, Option.map_some]
  capped := by
    rw [h.capped]
    exact hasks.capped

variable (hw : Walk.Mirrors I R plan plan' w w') (running : w.exit = none)

include hw running

/-- The replies to the next step. -/
theorem replies_next {lam : α} (hpos : 0 < lam) (hpos' : 0 < I.lam lam) :
    plan.Replies I R Good plan' w.engine (plan.pose w.problem lam hpos) w'.engine
      (plan'.pose w'.problem (I.lam lam) hpos') :=
  h.replies _ _ _ _ (hw.state fun f hf => by rw [running] at hf; cases hf) lam hpos hpos'

/-- A step that breaks off after its call. -/
theorem step_of_breaks {lam : α} (hpos : 0 < lam) (hpos' : 0 < I.lam lam)
    (hasks : plan.Asks w.points.length lam) {f : Fault α}
    (hbreaks : Walk.Breaks plan w.points.length lam (w.reply plan lam hpos).outcome f) :
    Walk.Mirrors I R plan plan' (w.step plan) (w'.step plan') := by
  have hreplies := h.replies_next hw running hpos hpos'
  have hbreaks' : Walk.Breaks plan' w'.points.length (I.lam lam)
      (w'.reply plan' (I.lam lam) hpos').outcome (I.fault f) := by
    rcases hbreaks with herror | ⟨s, hok, hunsolved, hstop, rfl⟩
    · exact .inl (hreplies.outcome.trans (congrArg (I.outcome I.solution) herror))
    · refine .inr ⟨I.solution s, ?_, hunsolved, h.policy.trans hstop, ?_⟩
      · exact hreplies.outcome.trans (congrArg (I.outcome I.solution) hok)
      · rw [hw.length_points]
        rfl
  have hasks' : plan'.Asks w'.points.length (I.lam lam) := by
    rw [hw.length_points]
    exact h.asks hasks
  rw [Walk.step_of_asks hpos hasks, Walk.call_of_breaks hpos hbreaks,
    Walk.step_of_asks hpos' hasks', Walk.call_of_breaks hpos' hbreaks']
  exact ⟨hw.points, rfl, fun hexit => absurd rfl (hexit f),
    fun hexit => absurd hexit (Option.some_ne_none _)⟩

/-- A step that is kept. -/
theorem step_of_kept {lam : α} (hpos : 0 < lam) (hpos' : 0 < I.lam lam)
    (hasks : plan.Asks w.points.length lam) {s : Solution α}
    (hreply : (w.reply plan lam hpos).outcome = .ok s)
    (hpolicy : s.status.ok = false → plan.config.policy ≠ .stop) :
    Walk.Mirrors I R plan plan' (w.step plan) (w'.step plan') := by
  have hreplies := h.replies_next hw running hpos hpos'
  obtain ⟨hgood, hstate⟩ := hreplies.next s hreply
  have hreply' : (w'.reply plan' (I.lam lam) hpos').outcome = .ok (I.solution s) :=
    hreplies.outcome.trans (congrArg (I.outcome I.solution) hreply)
  have hpolicy' : (I.solution s).status.ok = false → plan'.config.policy ≠ .stop :=
    fun hunsolved => h.policy ▸ hpolicy hunsolved
  have hasks' : plan'.Asks w'.points.length (I.lam lam) := by
    rw [hw.length_points]
    exact h.asks hasks
  have running' : w'.exit = none := by
    rw [hw.exit, running]
    rfl
  have hverdict := hw.judged running lam hpos s hasks hreply hpolicy
  have hexit : ((w.asked plan lam hpos).keep plan w.points.length lam s).exit =
      Walk.verdict? plan w.previous w.points.length s.x :=
    Walk.keep_exit (w := w.asked plan lam hpos) running _ _ _
  have hexit' : ((w'.asked plan' (I.lam lam) hpos').keep plan' w'.points.length (I.lam lam)
      (I.solution s)).exit = Walk.verdict? plan' w'.previous w.points.length (I.x s.x) := by
    rw [hw.length_points]
    exact Walk.keep_exit (w := w'.asked plan' (I.lam lam) hpos') running' _ _ _
  rw [Walk.step_of_asks hpos hasks, Walk.call_of_kept hpos hreply hpolicy,
    Walk.step_of_asks hpos' hasks', Walk.call_of_kept hpos' hreply' hpolicy']
  constructor
  case points =>
    rw [Walk.keep_points, Walk.keep_points, Walk.asked_points, Walk.asked_points, hw.length_points,
      hw.points, List.map_append]
    rfl
  case exit => rw [hexit, hexit', hverdict]
  case state =>
    intro _
    rw [Walk.keep_engine, Walk.keep_engine, Walk.keep_problem, Walk.keep_problem]
    exact hstate
  case judged =>
    intro hnone lam₂ hpos₂ s₂ hasks₂ hreply₂ _
    rw [hexit] at hnone
    -- The walk goes on from an iterate that the next one can be compared with.
    have hnone' : Walk.verdict? plan' w'.previous w.points.length (I.x s.x) = none := by
      rw [hverdict, hnone]
      rfl
    rw [← hw.length_points] at hnone'
    rw [Walk.keep_previous (w := w.asked plan lam hpos) lam hnone,
      Walk.keep_previous (w := w'.asked plan' (I.lam lam) hpos') (s := I.solution s) (I.lam lam)
        hnone']
    refine h.verdict _ _ ?_ hgood _
    rw [Walk.reply, Walk.keep_engine, Walk.keep_problem] at hreply₂
    exact ((h.replies _ _ _ _ hstate lam₂ hpos₂ ((h.pos lam₂).2 hpos₂)).next s₂ hreply₂).1

/-- One step of walks that correspond. -/
theorem step : Walk.Mirrors I R plan plan' (w.step plan) (w'.step plan') := by
  have hcount : plan'.schedule.count ≤ w'.points.length ↔
      plan.schedule.count ≤ w.points.length := by
    rw [h.schedule.count, hw.length_points]
  by_cases hspent : plan.schedule.count ≤ w.points.length
  · rw [Walk.step_of_count_le hspent, Walk.step_of_count_le (hcount.2 hspent)]
    exact hw.halt running _
  have hlt := Nat.lt_of_not_le hspent
  have hlt' : w'.points.length < plan'.schedule.count :=
    Nat.lt_of_not_le fun hle => hspent (hcount.1 hle)
  have hentry' := h.schedule.entry w.points.length hlt
  rw [← hw.length_points] at hentry'
  cases hentry : plan.schedule.entry? w.points.length with
  | none =>
    rw [hw.length_points, hentry, Option.map_none, ← hw.length_points] at hentry'
    rw [Walk.step_of_refused hlt (.inl ⟨hentry, rfl⟩),
      Walk.step_of_refused hlt' (.inl ⟨hentry', rfl⟩)]
    exact hw.halt running (.fault .overflow)
  | some lam =>
    rw [hw.length_points, hentry, Option.map_some, ← hw.length_points] at hentry'
    by_cases hcapped : Walk.capped plan.config w.points.length = true
    · have hcapped' : Walk.capped plan'.config w'.points.length = true := by
        rw [h.capped, hw.length_points, hcapped]
      rw [Walk.step_of_capped hlt hentry hcapped, Walk.step_of_capped hlt' hentry' hcapped']
      exact hw.halt running _
    have hasks : plan.Asks w.points.length lam := ⟨hlt, hentry, Bool.eq_false_iff.2 hcapped⟩
    have hasks' : plan'.Asks w'.points.length (I.lam lam) := by
      rw [hw.length_points]
      exact h.asks hasks
    by_cases hpos : 0 < lam
    · have hpos' := (h.pos lam).2 hpos
      cases hreply : (w.reply plan lam hpos).outcome with
      | error f => exact h.step_of_breaks hw running hpos hpos' hasks (.inl hreply)
      | ok s =>
        by_cases hstop : s.status.ok = false ∧ plan.config.policy = .stop
        · exact h.step_of_breaks hw running hpos hpos' hasks
            (.inr ⟨s, hreply, hstop.1, hstop.2, rfl⟩)
        · exact h.step_of_kept hw running hpos hpos' hasks hreply
            fun hunsolved hpolicy => hstop ⟨hunsolved, hpolicy⟩
    · have hpos' : ¬ 0 < I.lam lam := fun hlam => hpos ((h.pos lam).1 hlam)
      rw [Walk.step_of_refused hlt (.inr ⟨lam, hasks, hpos, rfl⟩),
        Walk.step_of_refused hlt' (.inr ⟨I.lam lam, hasks', hpos', rfl⟩)]
      exact hw.halt running (.fault (.penaltyNotPositive lam))

omit running in
/-- Any number of steps. -/
theorem advanceBy (n : Nat) :
    Walk.Mirrors I R plan plan' (w.advanceBy plan n) (w'.advanceBy plan' n) := by
  induction n generalizing w w' with
  | zero => exact hw
  | succ n ih =>
    cases hexit : w.exit with
    | some e =>
      have hexit' : w'.exit = some (I.exit e) := by
        rw [hw.exit, hexit]
        rfl
      rw [Walk.advanceBy_of_exit plan _ hexit, Walk.advanceBy_of_exit plan' _ hexit']
      exact hw
    | none =>
      have hexit' : w'.exit = none := by
        rw [hw.exit, hexit]
        rfl
      rw [Walk.advanceBy_succ, Walk.advanceBy_succ, Walk.advance_of_none plan hexit,
        Walk.advance_of_none plan' hexit']
      exact ih (h.step hw hexit)

omit running in
/-- All steps. -/
theorem finish : Walk.Mirrors I R plan plan' (w.finish plan) (w'.finish plan') := by
  rw [Walk.finish, Walk.finish, h.schedule.count]
  exact h.advanceBy hw _

end Plan.Mirrors

/-! ### Whole paths -/

/-- Walks that correspond conclude in the same way. -/
theorem Driver.conclude_of_mirrors {schedule schedule' : Schedule α}
    (hschedule : schedule.Mirrors I schedule')
    (hvectors : ∀ e p e' p', R e p e' p' → p'.x = I.x p.x ∧ p'.y = I.y p.y)
    (hw : Walk.Mirrors I R plan plan' w w') (d : Driver α σ) (d' : Driver α τ)
    (opening opening' : List (Event α)) :
    (d'.conclude schedule' opening' w').outcome =
      I.outcome I.result (d.conclude schedule opening w).outcome := by
  unfold conclude
  cases hexit : w.exit with
  | none =>
    have hexit' : w'.exit = none := by rw [hw.exit, hexit]; rfl
    simp only [hexit']
    rfl
  | some exit =>
    have hexit' : w'.exit = some (I.exit exit) := by rw [hw.exit, hexit]; rfl
    cases exit with
    | fault f =>
      simp only [hexit', Image.exit]
      rfl
    | phase phase =>
      obtain ⟨hx, hy⟩ := hvectors _ _ _ _ (hw.state fun f hf => by rw [hexit] at hf; cases hf)
      simp only [hexit', Image.exit, hschedule.grid_eq, hschedule.top, hw.points, hx, hy]
      cases schedule.grid with
      | error f => rfl
      | ok lambdas => rfl

/-- Paths with schedules return corresponding results if their walks correspond. -/
theorem Driver.run_of_mirrors {s : Setup α σ} {s' : Setup α τ} {d : Driver α σ} {d' : Driver α τ}
    {p p' : Problem α} {pinned pinned' : Option α} {schedule schedule' : Schedule α}
    (hs : s.schedule? p pinned = some schedule) (hs' : s'.schedule? p' pinned' = some schedule')
    (h : (s.plan schedule).Mirrors I R Good (s'.plan schedule'))
    (hw : Walk.Mirrors I R (s.plan schedule) (s'.plan schedule') (.start d.engine p)
      (.start d'.engine p')) :
    (d'.run s' p' pinned').outcome = I.outcome I.result (d.run s p pinned).outcome := by
  rw [run_of_schedule? hs, run_of_schedule? hs']
  exact conclude_of_mirrors h.schedule h.vectors (h.finish hw) d d' _ _

end Path

/-! ### Exact arithmetic -/

/-- The schedule from a multiple of its top has the multiples of its entries: each logarithm is a
    weighted mean, to which the logarithm of the factor is added. -/
theorem Schedule.exists_mirrors {I : Image ℝ} {c : ℝ} (hc : 0 < c) (hlam : ∀ l, I.lam l = c * l)
    {top ratio : ℝ} {count : ℤ} {s : Schedule ℝ} (h : make top count ratio = .ok s) :
    ∃ s', make (c * top) count ratio = .ok s' ∧ s.Mirrors I s' := by
  obtain ⟨htop, hcount, hratio⟩ := make_ok h
  obtain ⟨s', h'⟩ := exists_make (mul_pos hc (htop ▸ s.top_pos)) s.count_pos (hratio ▸ s.ratio_mem)
  rw [hcount] at h'
  obtain ⟨htop', hcount', hratio'⟩ := make_ok h'
  have hsize : s'.count = s.count := Int.ofNat_inj.1 (hcount'.trans hcount.symm)
  have hlogTop : s'.logTop = Real.log c + s.logTop := by
    rw [Option.some.inj (s'.logTop_eq.symm.trans (Scalar.log?_of_pos s'.top_pos)),
      Option.some.inj (s.logTop_eq.symm.trans (Scalar.log?_of_pos s.top_pos)), htop', ← htop,
      Real.log_mul (ne_of_gt hc) (ne_of_gt s.top_pos)]
  have hlogBottom : s'.logBottom = Real.log c + s.logBottom := by
    have hbottom := mul_pos s.ratio_mem.1 s.top_pos
    rw [Option.some.inj (s'.logBottom_eq.symm.trans
        (Scalar.log?_of_pos (mul_pos s'.ratio_mem.1 s'.top_pos))),
      Option.some.inj (s.logBottom_eq.symm.trans (Scalar.log?_of_pos hbottom)), htop', hratio',
      ← htop, ← hratio, mul_left_comm, Real.log_mul (ne_of_gt hc) (ne_of_gt hbottom)]
  refine ⟨s', h', ⟨?_, hsize, fun i hi => ?_⟩⟩
  · rw [htop', hlam, htop]
  · unfold entry?
    rw [hsize]
    by_cases hone : s.count = 1
    · rw [if_pos hone, if_pos hone, Option.map_some, hlam, htop', htop]
    · have hne : ((s.count - 1 : ℕ) : ℝ) ≠ 0 := Nat.cast_ne_zero.2 (by omega)
      have hweights : ((s.count - 1 - i : ℕ) : ℝ) + (i : ℝ) = ((s.count - 1 : ℕ) : ℝ) := by
        rw [← Nat.cast_add, Nat.sub_add_cancel (by omega)]
      have hlog : s'.logEntry i = Real.log c + s.logEntry i := by
        have hsum : (Real.log c + s.logTop) * ((s.count - 1 - i : ℕ) : ℝ) +
            (Real.log c + s.logBottom) * (i : ℝ) = Real.log c * ((s.count - 1 : ℕ) : ℝ) +
              (s.logTop * ((s.count - 1 - i : ℕ) : ℝ) + s.logBottom * (i : ℝ)) := by
          rw [← hweights]
          ring
        rw [logEntry, logEntry, hsize, hlogTop, hlogBottom, hsum, add_div,
          mul_div_cancel_right₀ _ hne]
      rw [if_neg hone, if_neg hone, Scalar.exp?_real, Scalar.exp?_real, Option.map_some, hlam, hlog,
        Real.exp_add, Real.exp_log hc]

namespace Path

/-- The path agreed with the vector that stands for the iterate before the first one. -/
def Result.StopsAtOnce {α : Type} (r : Result α) : Prop :=
  r.phase = .converged ∧ r.points.length = 1

variable {σ τ : Type}

namespace Driver

/-- Without a time limit a first step that is kept does not end the walk, if its iterate can be
    compared and the path does not stop at once, for which it would have to be allowed to stop
    early. -/
theorem verdict?_of_first {s : Setup ℝ σ} {d : Driver ℝ σ} {p : Problem ℝ} {pinned : Option ℝ}
    {schedule : Schedule ℝ} (hs : s.schedule? p pinned = some schedule)
    (huntimed : s.config.maxTime = none)
    (hrun : s.config.earlyStop = true →
      ∀ r, (d.run s p pinned).outcome = .ok r → ¬ r.StopsAtOnce) {lam : ℝ} (hpos : 0 < lam)
    (hasks : (s.plan schedule).Asks 0 lam) {a : Solution ℝ}
    (hreply : ((Walk.start d.engine p).reply (s.plan schedule) lam hpos).outcome = .ok a)
    (hpolicy : a.status.ok = false → s.config.policy ≠ .stop) (hlength : a.x.length = p.width) :
    Walk.verdict? (s.plan schedule) (Walk.start d.engine p).previous 0 a.x = none := by
  have hlate : ∀ i, Walk.late (s.plan schedule) i = none := fun i => by
    rw [Walk.late, show (s.plan schedule).config.maxTime = none from huntimed, Option.filter_none]
  cases hverdict : Walk.verdict? (s.plan schedule) (Walk.start d.engine p).previous 0 a.x with
  | none => rfl
  | some exit =>
    cases exit with
    | fault f =>
      have hlen : a.x.length = (Walk.start d.engine p).previous.length := by
        rw [hlength]
        exact List.length_replicate.symm
      exact absurd hverdict (Walk.verdict?_ne_fault 0 hlen f)
    | phase phase =>
      obtain ⟨hagrees, rfl⟩ | ⟨-, hsome, -⟩ := Walk.verdict?_eq_phase.1 hverdict
      · have hearly : s.config.earlyStop = true := by
          unfold Walk.agrees? at hagrees
          split at hagrees
          · rename_i hearly
            exact hearly.1
          · cases hagrees
        -- The walk has ended with this step, so that the path stops at once.
        have htrail := Trail.next hpos .start rfl hasks hreply hpolicy
        have hexit : (Walk.keep (s.plan schedule)
            ((Walk.start d.engine p).asked (s.plan schedule) lam hpos) 0 lam a).exit =
              some (.phase .converged) :=
          (Walk.keep_exit rfl 0 lam a).trans hverdict
        have hwalk : d.walk s p schedule = Walk.keep (s.plan schedule)
            ((Walk.start d.engine p).asked (s.plan schedule) lam hpos) 0 lam a :=
          htrail.finish_of_exit fun hnone => absurd (hexit.symm.trans hnone) (by simp)
        obtain ⟨lambdas, hgrid⟩ := schedule.exists_grid
        obtain ⟨r, hok, hphase, hpoints⟩ : ∃ r, (d.run s p pinned).outcome = .ok r ∧
            r.phase = .converged ∧ r.points = (d.walk s p schedule).points := by
          rw [run_of_schedule? hs]
          exact ⟨_, conclude_ok.2
            ⟨.converged, lambdas, (congrArg Walk.exit hwalk).trans hexit, hgrid, rfl⟩, rfl, rfl⟩
        refine absurd ⟨hphase, ?_⟩ (hrun hearly r hok)
        rw [hpoints, hwalk, Walk.keep_points]
        rfl
      · rw [hlate] at hsome
        cases hsome

/-- Paths without time limits that do not stop at once, if their steps correspond. -/
theorem run_of_mirrors_untimed {I : Image ℝ} {R : σ → Problem ℝ → τ → Problem ℝ → Prop}
    {Good : List ℝ → Prop} {s : Setup ℝ σ} {s' : Setup ℝ τ} {d : Driver ℝ σ} {d' : Driver ℝ τ}
    {p p' : Problem ℝ} {pinned pinned' : Option ℝ} {schedule schedule' : Schedule ℝ}
    (hs : s.schedule? p pinned = some schedule) (hs' : s'.schedule? p' pinned' = some schedule')
    (h : (s.plan schedule).Mirrors I R Good (s'.plan schedule')) (hstart : R d.engine p d'.engine p')
    (huntimed : s.config.maxTime = none) (huntimed' : s'.config.maxTime = none)
    (hrun : s.config.earlyStop = true →
      ∀ r, (d.run s p pinned).outcome = .ok r → ¬ r.StopsAtOnce)
    (hrun' : s'.config.earlyStop = true →
      ∀ r, (d'.run s' p' pinned').outcome = .ok r → ¬ r.StopsAtOnce)
    (hgood : ∀ x, Good x → x.length = p.width ∧ (I.x x).length = p'.width) :
    (d'.run s' p' pinned').outcome = I.outcome I.result (d.run s p pinned).outcome := by
  refine run_of_mirrors hs hs' h ⟨rfl, rfl, fun _ => hstart, ?_⟩
  intro _ lam hpos a hasks hreply hpolicy
  have hpos' := (h.pos lam).2 hpos
  have hreplies := h.replies _ _ _ _ hstart lam hpos hpos'
  obtain ⟨hlength, hlength'⟩ := hgood _ (hreplies.next a hreply).1
  have hreply' : ((Walk.start d'.engine p').reply (s'.plan schedule') (I.lam lam) hpos').outcome =
      .ok (I.solution a) :=
    hreplies.outcome.trans (congrArg (I.outcome I.solution) hreply)
  have hpolicy' : (I.solution a).status.ok = false → s'.config.policy ≠ .stop :=
    fun hunsolved => Eq.trans_ne h.policy (hpolicy hunsolved)
  -- Neither first step ends its walk, whatever it is compared with.
  rw [show (Walk.start d.engine p).points.length = 0 from rfl,
    verdict?_of_first hs huntimed hrun hpos hasks hreply hpolicy hlength, Option.map_none]
  exact verdict?_of_first hs' huntimed' hrun' hpos' (h.asks hasks) hreply' hpolicy' hlength'

/-- Paths from corresponding tops, with the same lengths and ratios of their schedules: only their
    walks are left to compare. -/
theorem run_image {I : Image ℝ} {c : ℝ} (hc : 0 < c) (hlam : ∀ l, I.lam l = c * l)
    {s : Setup ℝ σ} {s' : Setup ℝ τ} {d : Driver ℝ σ} {d' : Driver ℝ τ} {p p' : Problem ℝ}
    {pinned pinned' : Option ℝ} {top : ℝ} (hcount : s'.config.count = s.config.count)
    (hratio : s'.config.ratio = s.config.ratio) (htop : IsTop p pinned top)
    (htop' : IsTop p' pinned' (c * top)) (hx : Vec.zeros p'.width = I.x (Vec.zeros p.width))
    (hy : Vec.zeros p'.height = I.y (Vec.zeros p.height))
    (hwalk : ∀ schedule schedule' : Schedule ℝ, s.schedule? p pinned = some schedule →
      s'.schedule? p' pinned' = some schedule' → schedule.Mirrors I schedule' →
        (d'.run s' p' pinned').outcome = I.outcome I.result (d.run s p pinned).outcome) :
    (d'.run s' p' pinned').outcome = I.outcome I.result (d.run s p pinned).outcome := by
  by_cases hle : top ≤ 0
  · have hle' : c * top ≤ 0 := mul_nonpos_of_nonneg_of_nonpos (le_of_lt hc) hle
    rw [run_degenerate htop hle, run_degenerate htop' hle']
    simp only [degenerate, Problem.reset, Image.outcome, Image.result, List.map_nil, hx, hy, hlam,
      mul_zero]
  · have hpos := not_le.1 hle
    have hle' : ¬ c * top ≤ 0 := not_le.2 (mul_pos hc hpos)
    obtain ⟨schedule, hmake⟩ :=
      Schedule.exists_make hpos s.config.count_pos s.config.ratio_mem
    obtain ⟨schedule', hmake', hmirrors⟩ := Schedule.exists_mirrors hc hlam hmake
    by_cases hsize : schedule.count ≤ Schedule.largestSize
    · refine hwalk schedule schedule' (schedule?_eq_some.2
        ⟨top, htop, hle, hmake, Schedule.exists_ends hsize⟩) (schedule?_eq_some.2
          ⟨c * top, htop', hle', ?_, Schedule.exists_ends (hmirrors.count ▸ hsize)⟩) hmirrors
      rw [hcount, hratio]
      exact hmake'
    · -- The size cannot be reported.
      have hsize' : ¬ schedule'.count ≤ Schedule.largestSize := hmirrors.count ▸ hsize
      have hends : ∀ sch : Schedule ℝ, ¬ sch.count ≤ Schedule.largestSize →
          sch.ends = .error .overflow := by
        intro sch hsch
        simp only [Schedule.ends, Schedule.size, if_neg hsch]
      rw [run_eq_finish htop, run_eq_finish htop', start, start, if_neg hle, if_neg hle', hcount,
        hratio]
      simp only [hmake, hmake', hends _ hsize, hends _ hsize']
      rfl

end Driver

end Path

end RegPath
