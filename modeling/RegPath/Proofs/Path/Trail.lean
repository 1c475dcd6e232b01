import RegPath.Proofs.Path.Moves

namespace RegPath.Path

/-!
# Trails

The kept steps of a walk, each with its call of the engine.  Every walk ends with a kept step or is
halted after one, so that what holds along trails is known of every path.

* `Turn` — a kept step with its call;
* `Trail` — the walks all of whose steps were kept, with their turns;
* `iterateBefore` — what the iterate of a step is compared with;
* `Trail.point_asks`, `Trail.verdict_eq` — what is known of each point;
* `Trail.pose_problem`, `Trail.vectors_eq` — what a next step would ask;
* `Trail.before` — a trail up to one of its turns;
* `Walk.Ends`, `Walk.finish_ends` — every walk is a trail that ends by itself or is halted;
* `Walk.finish_reaches_of_trail` — so is what is left of a walk after a trail.
-/

variable {α : Type} [Scalar α] {σ : Type}

/-- A kept step with its call of the engine. -/
structure Turn (α : Type) [Scalar α] where
  /-- The penalty. -/
  lam : α
  /-- What the engine was asked. -/
  request : Request α
  /-- What it replied. -/
  reply : Reply α
  /-- The solution in the reply. -/
  solution : Solution α

/-- What is kept of the turn at step `i`. -/
def Turn.point (i : Nat) (t : Turn α) : Point α :=
  ⟨i, t.lam, t.solution.x, t.solution.status, t.solution.iterations⟩

/-- The call of the turn. -/
def Turn.call (t : Turn α) : Request α × Reply α := (t.request, t.reply)

/-- The walks with a plan all of whose steps were kept, with their turns.  Only the last step may
    have ended the walk. -/
inductive Trail (plan : Plan α σ) (e : σ) (p : Problem α) : List (Turn α) → Walk α σ → Prop where
  /-- Before the first step. -/
  | start : Trail plan e p [] (.start e p)
  /-- After a kept step. -/
  | next {turns : List (Turn α)} {w : Walk α σ} {lam : α} {s : Solution α} (h : 0 < lam)
      (trail : Trail plan e p turns w) (running : w.exit = none)
      (asks : plan.Asks w.points.length lam) (reply : (w.reply plan lam h).outcome = .ok s)
      (policy : s.status.ok = false → plan.config.policy ≠ .stop) :
      Trail plan e p
        (turns ++ [⟨lam, (plan.pose w.problem lam h).request, w.reply plan lam h, s⟩])
        ((w.asked plan lam h).keep plan w.points.length lam s)

/-- The iterate that the one of step `i` is compared with, for vectors of `n` entries. -/
def iterateBefore (n : Nat) (points : List (Point α)) : Nat → List α
  | 0 => List.replicate n Scalar.largest
  | i + 1 => (points[i]?.map Point.x).getD []

/-- Later points do not change what an iterate is compared with. -/
theorem iterateBefore_append (n : Nat) {points : List (Point α)} (more : List (Point α)) {i : Nat}
    (h : i ≤ points.length) :
    iterateBefore n (points ++ more) i = iterateBefore n points i := by
  cases i with
  | zero => rfl
  | succ i => rw [iterateBefore, iterateBefore, List.getElem?_append_left h]

/-- What stands in a list with one more entry was there before or is the entry. -/
theorem getElem?_concat_eq_some {β : Type} {l : List β} {a b : β} {i : Nat} :
    (l ++ [a])[i]? = some b ↔ l[i]? = some b ∨ i = l.length ∧ a = b := by
  rw [List.getElem?_append]
  by_cases h : i < l.length
  · rw [if_pos h, or_iff_left fun hi => Nat.ne_of_lt h hi.1]
  · rw [if_neg h, List.getElem?_eq_none (Nat.le_of_not_lt h), List.getElem?_singleton]
    by_cases hi : i = l.length
    · simp [hi]
    · rw [if_neg (by omega)]
      simp [hi]

namespace Trail

variable {plan : Plan α σ} {e : σ} {p : Problem α} {turns : List (Turn α)} {w : Walk α σ}

/-! ### Points -/

/-- The points are those of the turns. -/
theorem points_eq (h : Trail plan e p turns w) : w.points = turns.mapIdx Turn.point := by
  induction h with
  | start => rfl
  | @next turns w lam s _ _ _ _ _ _ ih =>
    have hlen : w.points.length = turns.length := by rw [ih, List.length_mapIdx]
    rw [Walk.keep_points, Walk.asked_points, List.mapIdx_concat, ← ih, ← hlen]
    rfl

/-- Point `i` is the one of turn `i`. -/
theorem getElem?_points (h : Trail plan e p turns w) (i : Nat) :
    w.points[i]? = turns[i]?.map (Turn.point i) := by
  rw [h.points_eq, List.getElem?_mapIdx]

/-- Each point on a trail has its turn. -/
theorem exists_turn (h : Trail plan e p turns w) {i : Nat} {pt : Point α}
    (hi : w.points[i]? = some pt) : ∃ t, turns[i]? = some t ∧ pt = t.point i := by
  rw [h.getElem?_points] at hi
  obtain ⟨t, ht, rfl⟩ := Option.map_eq_some_iff.1 hi
  exact ⟨t, ht, rfl⟩

/-- More turns leave more points. -/
theorem points_prefix_points {plan' : Plan α σ} {e' : σ} {p' : Problem α} {turns' : List (Turn α)}
    {w' : Walk α σ} (h : Trail plan e p turns w) (h' : Trail plan' e' p' turns' w')
    (hmore : turns <+: turns') : w.points <+: w'.points := by
  obtain ⟨more, rfl⟩ := hmore
  rw [h.points_eq, h'.points_eq, List.mapIdx_append]
  exact List.prefix_append _ _

/-- There is a point for each turn. -/
theorem length_points (h : Trail plan e p turns w) : w.points.length = turns.length := by
  rw [h.points_eq, List.length_mapIdx]

/-- As long as the walk goes on, the next iterate is compared with the last one. -/
theorem previous_eq (h : Trail plan e p turns w) (hexit : w.exit = none) :
    w.previous = iterateBefore p.width w.points w.points.length := by
  cases h with
  | start => rfl
  | @next turns w lam s hpos _ running _ _ _ =>
    rw [Walk.keep_exit (w := w.asked plan lam hpos) running] at hexit
    rw [Walk.keep_previous lam hexit, Walk.keep_points, List.length_append, List.length_singleton,
      iterateBefore]
    simp

/-- Each point is the one of its step, which asked for its penalty. -/
theorem point_asks (h : Trail plan e p turns w) {i : Nat} {pt : Point α}
    (hi : w.points[i]? = some pt) : pt.step = i ∧ plan.Asks i pt.lam := by
  induction h with
  | start => simp [Walk.start] at hi
  | @next turns w lam s _ _ _ asks _ _ ih =>
    rw [Walk.keep_points, Walk.asked_points] at hi
    rcases getElem?_concat_eq_some.1 hi with hi | ⟨rfl, rfl⟩
    · exact ih hi
    · exact ⟨rfl, asks⟩

/-- The walk ended with the last step if that is its verdict, and with no earlier one. -/
theorem verdict_eq (h : Trail plan e p turns w) {i : Nat} {pt : Point α}
    (hi : w.points[i]? = some pt) :
    Walk.verdict? plan (iterateBefore p.width w.points i) i pt.x =
      if i + 1 = w.points.length then w.exit else none := by
  induction h with
  | start => simp [Walk.start] at hi
  | @next turns w lam s hpos trail running asks _ _ ih =>
    rw [Walk.keep_exit (w := w.asked plan lam hpos) running]
    rw [Walk.keep_points, Walk.asked_points] at hi ⊢
    rw [List.length_append, List.length_singleton]
    rcases getElem?_concat_eq_some.1 hi with hi | ⟨rfl, rfl⟩
    · -- An earlier step, after which the walk went on.
      have hlt := (List.getElem?_eq_some_iff.1 hi).1
      rw [iterateBefore_append _ _ (Nat.le_of_lt hlt), ih hi, running, ite_self, if_neg (by omega)]
    · -- The last step.
      rw [iterateBefore_append _ _ (Nat.le_refl _), ← trail.previous_eq running, if_pos rfl]
      rfl

/-- How the walk stands after its last step is the verdict on that. -/
theorem exit_eq (h : Trail plan e p turns w) {i : Nat} {pt : Point α}
    (hi : w.points[i]? = some pt) (hlast : i + 1 = w.points.length) :
    w.exit = Walk.verdict? plan (iterateBefore p.width w.points i) i pt.x := by
  rw [h.verdict_eq hi, if_pos hlast]

/-- A trail takes no more steps than the schedule has entries. -/
theorem length_le_count (h : Trail plan e p turns w) : w.points.length ≤ plan.schedule.count := by
  cases h with
  | start => exact Nat.zero_le _
  | next _ _ _ asks _ _ =>
    rw [Walk.keep_points, List.length_append, List.length_singleton]
    exact asks.lt_count

/-! ### Turns -/

/-- Each reply on a trail holds the solution of its turn. -/
theorem outcome_eq (h : Trail plan e p turns w) {t : Turn α} (ht : t ∈ turns) :
    t.reply.outcome = .ok t.solution := by
  induction h with
  | start => cases ht
  | next _ _ _ _ reply _ ih =>
    rcases List.mem_append.1 ht with ht | ht
    · exact ih ht
    · rw [List.mem_singleton.1 ht]
      exact reply

/-- What a next step would ask depends on the earlier ones by their vectors only. -/
theorem pose_problem (h : Trail plan e p turns w) {lam : α} (hlam : 0 < lam) :
    plan.pose w.problem lam hlam =
      plan.pose { p with x := w.problem.x, y := w.problem.y } lam hlam := by
  induction h generalizing lam with
  | start => rfl
  | @next turns w l s hpos _ _ _ _ _ ih =>
    rw [Walk.keep_problem]
    show plan.pose { plan.pose w.problem l hpos with x := s.x, y := s.y } lam hlam =
      plan.pose { p with x := s.x, y := s.y } lam hlam
    rw [ih hpos, plan.pose_pose]

/-- The vectors of the problem are those of the last solution. -/
theorem problem_eq (h : Trail plan e p turns w) {t : Turn α} (ht : turns.getLast? = some t) :
    w.problem.x = t.solution.x ∧ w.problem.y = t.solution.y := by
  cases h with
  | start => cases ht
  | next =>
    rw [List.getLast?_concat] at ht
    obtain rfl := Option.some.inj ht
    rw [Walk.keep_problem]
    exact ⟨rfl, rfl⟩

/-- The vectors before a step are those of the problem at first, and then those of the last
    solution. -/
theorem vectors_eq (h : Trail plan e p turns w) :
    (turns = [] → w.problem.x = p.x ∧ w.problem.y = p.y) ∧
      ∀ t, turns.getLast? = some t → w.problem.x = t.solution.x ∧ w.problem.y = t.solution.y := by
  refine ⟨?_, fun t ht => h.problem_eq ht⟩
  rintro rfl
  generalize hturns : ([] : List (Turn α)) = turns at h
  cases h with
  | start => exact ⟨rfl, rfl⟩
  | next => exact absurd (congrArg List.length hturns) (by simp)

/-- The trail up to a turn, from which the turn goes on. -/
theorem before (h : Trail plan e p turns w) {i : Nat} {t : Turn α} (ht : turns[i]? = some t) :
    ∃ v hpos, Trail plan e p (turns.take i) v ∧ v.exit = none ∧
      plan.Asks v.points.length t.lam ∧ (v.reply plan t.lam hpos).outcome = .ok t.solution ∧
      t.request = (plan.pose v.problem t.lam hpos).request := by
  induction h with
  | start => simp at ht
  | @next turns w lam s hpos trail running asks reply _ ih =>
    rcases getElem?_concat_eq_some.1 ht with ht | ⟨rfl, rfl⟩
    · -- An earlier turn.
      have hlt := (List.getElem?_eq_some_iff.1 ht).1
      rw [List.take_append_of_le_length (Nat.le_of_lt hlt)]
      exact ih ht
    · -- The last turn, with the whole trail before it.
      rw [List.take_left]
      exact ⟨w, hpos, trail, running, asks, reply, rfl⟩

/-- Each turn asked for its penalty. -/
theorem turn_asks (h : Trail plan e p turns w) {i : Nat} {t : Turn α} (ht : turns[i]? = some t) :
    plan.Asks i t.lam := by
  have hpt : w.points[i]? = some (t.point i) := by
    rw [h.getElem?_points, ht, Option.map_some]
  exact (h.point_asks hpt).2

/-- A trail is as many steps from the start as it has turns. -/
theorem advanceBy_eq (h : Trail plan e p turns w) :
    Walk.advanceBy plan turns.length (.start e p) = w := by
  induction h with
  | start => rfl
  | next hpos _ running asks reply policy ih =>
    rw [List.length_append, List.length_singleton, Walk.advanceBy_add, ih, Walk.advanceBy_succ,
      Walk.advance_of_none _ running, Walk.step_of_asks hpos asks,
      Walk.call_of_kept hpos reply policy]
    rfl

/-- The rest of a whole walk after a trail, which is one step at least. -/
theorem finish_eq (h : Trail plan e p turns w) :
    ∃ n, (Walk.start e p).finish plan = Walk.advanceBy plan (n + 1) w ∧
      plan.schedule.count < n + 1 + w.points.length := by
  have hle := h.length_le_count
  rw [h.length_points] at hle ⊢
  refine ⟨plan.schedule.count - turns.length, ?_, by omega⟩
  have hcount : plan.schedule.count + 1 =
      turns.length + (plan.schedule.count - turns.length + 1) := by
    omega
  rw [Walk.finish, hcount, Walk.advanceBy_add, h.advanceBy_eq]

/-- A trail that ended is a whole walk. -/
theorem finish_of_exit (h : Trail plan e p turns w) (hexit : w.exit ≠ none) :
    (Walk.start e p).finish plan = w := by
  obtain ⟨exit, hexit⟩ := Option.ne_none_iff_exists'.1 hexit
  obtain ⟨n, hn, -⟩ := h.finish_eq
  rw [hn, Walk.advanceBy_of_exit plan _ hexit]

/-- A trail whose next step ends is a whole walk with that step. -/
theorem finish_of_step (h : Trail plan e p turns w) (running : w.exit = none)
    (hexit : (w.step plan).exit ≠ none) : (Walk.start e p).finish plan = w.step plan := by
  obtain ⟨exit, hexit⟩ := Option.ne_none_iff_exists'.1 hexit
  obtain ⟨n, hn, -⟩ := h.finish_eq
  rw [hn, Walk.advanceBy_succ, Walk.advance_of_none plan running,
    Walk.advanceBy_of_exit plan _ hexit]

end Trail

/-! ### The whole walk -/

namespace Walk

variable {plan : Plan α σ} {e : σ} {p : Problem α} {turns : List (Turn α)} {w : Walk α σ}

/-- How a whole walk ends with its trail up to `w`: the last step ended it, or the next one halts
    it. -/
inductive Ends (plan : Plan α σ) (w : Walk α σ) : Walk α σ → Prop where
  /-- With the last step. -/
  | last (h : w.exit ≠ none) : Ends plan w w
  /-- Before another step was kept. -/
  | halted (running : w.exit = none) (h : Halt plan w (w.step plan)) : Ends plan w (w.step plan)

/-- Whatever is left of a walk ends with a longer trail. -/
theorem advanceBy_reaches (h : Trail plan e p turns w) {n : Nat}
    (hn : plan.schedule.count < n + w.points.length) :
    ∃ turns' w', turns <+: turns' ∧ Trail plan e p turns' w' ∧
      Ends plan w' (advanceBy plan n w) := by
  -- The steps that are left suffice, since each one that is kept uses up an entry of the schedule.
  induction n generalizing turns w with
  | zero =>
    have hle := h.length_le_count
    omega
  | succ n ih =>
    cases hexit : w.exit with
    | some exit =>
      rw [advanceBy_of_exit plan _ hexit]
      exact ⟨turns, w, List.prefix_rfl, h, .last (by rw [hexit]; exact Option.some_ne_none _)⟩
    | none =>
      rw [advanceBy_succ, advance_of_none plan hexit]
      have hmove := w.step_move plan
      generalize hw' : w.step plan = w' at hmove
      cases hmove with
      | halted _ hhalt =>
        obtain ⟨exit, he⟩ := Option.ne_none_iff_exists'.1 hhalt.exit_ne
        rw [advanceBy_of_exit plan n he]
        subst hw'
        exact ⟨turns, w, List.prefix_rfl, h, .halted hexit hhalt⟩
      | kept lam hpos s asks reply policy =>
        have hn' : plan.schedule.count <
            n + ((w.asked plan lam hpos).keep plan w.points.length lam s).points.length := by
          rw [keep_points, asked_points, List.length_append, List.length_singleton]
          omega
        obtain ⟨turns', w', hmore, htrail, hends⟩ :=
          ih (.next hpos h hexit asks reply policy) hn'
        exact ⟨turns', w', (List.prefix_append _ _).trans hmore, htrail, hends⟩

/-- A whole walk ends with a trail. -/
theorem finish_reaches (plan : Plan α σ) (e : σ) (p : Problem α) :
    ∃ turns w, Trail plan e p turns w ∧ Ends plan w ((Walk.start e p).finish plan) := by
  have hn : plan.schedule.count < plan.schedule.count + 1 + (Walk.start e p).points.length := by
    omega
  obtain ⟨turns, w, -, htrail, hends⟩ := advanceBy_reaches .start hn
  exact ⟨turns, w, htrail, hends⟩

/-- A whole walk ends with a trail that is longer than any other. -/
theorem finish_reaches_of_trail (h : Trail plan e p turns w) :
    ∃ turns' w', turns <+: turns' ∧ Trail plan e p turns' w' ∧
      Ends plan w' ((Walk.start e p).finish plan) := by
  obtain ⟨n, hfinish, hn⟩ := h.finish_eq
  rw [hfinish]
  exact advanceBy_reaches h hn

/-- A whole walk has ended. -/
theorem Ends.exit_ne {w' : Walk α σ} (h : Ends plan w w') : w'.exit ≠ none := by
  cases h with
  | last hexit => exact hexit
  | halted _ hhalt => exact hhalt.exit_ne

/-- A whole walk has the points of its trail. -/
theorem Ends.points_eq {w' : Walk α σ} (h : Ends plan w w') : w'.points = w.points := by
  cases h with
  | last => rfl
  | halted _ h => exact h.points_eq

/-- A whole walk is a trail that ends with its last step or is halted. -/
theorem finish_ends (plan : Plan α σ) (e : σ) (p : Problem α) :
    ∃ turns w, Trail plan e p turns w ∧
      (w.exit ≠ none ∧ (Walk.start e p).finish plan = w ∨
        w.exit = none ∧ Halt plan w ((Walk.start e p).finish plan)) := by
  obtain ⟨turns, w, htrail, hends⟩ := finish_reaches plan e p
  refine ⟨turns, w, htrail, ?_⟩
  generalize (Walk.start e p).finish plan = w' at hends
  cases hends with
  | last hexit => exact .inl ⟨hexit, rfl⟩
  | halted running hhalt => exact .inr ⟨running, hhalt⟩

end Walk

end RegPath.Path
