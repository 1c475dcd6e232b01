import RegPath.Proofs.Path.Trail

namespace RegPath.Path

/-!
# Walks that are cut short

A plan may stop earlier than another one and be the same otherwise.  Then its walk is the beginning
of the other walk: nothing that is computed depends on when a walk is going to stop.

* `Plan.Shortens` — a plan that goes on only where another one does;
* `Trail.lengthen` — its trails are trails of the other plan;
* `Plan.Shortens.points_prefix_points` — its points are the first points of the other walk;
* `Plan.Shortens.finish_fault` — it meets no fault that the other walk does not meet;
* `Plan.Shortens.points_eq_or_capped` — if both judge their steps alike, it ends where the other
  walk does or at the limit on its steps.
-/

variable {α : Type} [Scalar α] {σ : Type}

/-- The plan `B` asks the same engine for the same problems as `A`, and wherever `B` goes on `A`
    does so as well. -/
structure Plan.Shortens (B A : Plan α σ) : Prop where
  /-- The engines are the same. -/
  engine : B.engine = A.engine
  /-- The schedules are the same. -/
  schedule : B.schedule = A.schedule
  /-- Both or neither start warm. -/
  warmStart : B.config.warmStart = A.config.warmStart
  /-- The limit of `B` on the steps is not above the one of `A`. -/
  capped : ∀ i, Walk.capped A.config i = true → Walk.capped B.config i = true
  /-- A step after which `B` goes on does not end the walk of `A`. -/
  goes_on : ∀ previous i x, Walk.verdict? B previous i x = none →
    Walk.verdict? A previous i x = none
  /-- What `B` keeps `A` keeps. -/
  policy : A.config.policy = .stop → B.config.policy = .stop

/-- A step after which two walks go on leaves both in the same state. -/
theorem Walk.keep_congr {A B : Plan α σ} {w : Walk α σ} {i : Nat} (lam : α) {s : Solution α}
    (hA : verdict? A w.previous i s.x = none) (hB : verdict? B w.previous i s.x = none) :
    w.keep A i lam s = w.keep B i lam s := by
  obtain ⟨hagreesA, hlateA⟩ := verdict?_eq_none.1 hA
  obtain ⟨hagreesB, hlateB⟩ := verdict?_eq_none.1 hB
  unfold keep
  simp only [hagreesA, hlateA, hagreesB, hlateB]

namespace Plan.Shortens

variable {A B : Plan α σ} {w : Walk α σ}

/-- Both pose the same problems. -/
theorem pose_eq (h : B.Shortens A) (p : Problem α) (lam : α) (hpos : 0 < lam) :
    B.pose p lam hpos = A.pose p lam hpos := by
  unfold pose
  rw [h.warmStart]

/-- Both get the same replies. -/
theorem reply_eq (h : B.Shortens A) (w : Walk α σ) (lam : α) (hpos : 0 < lam) :
    w.reply B lam hpos = w.reply A lam hpos := by
  unfold Walk.reply
  rw [h.pose_eq, h.engine]

/-- Both are left in the same state by a call. -/
theorem asked_eq (h : B.Shortens A) (w : Walk α σ) (lam : α) (hpos : 0 < lam) :
    w.asked B lam hpos = w.asked A lam hpos := by
  unfold Walk.asked
  rw [h.reply_eq, h.pose_eq, h.engine]

/-- Where `B` asks for a penalty `A` does. -/
theorem asks (h : B.Shortens A) {i : Nat} {lam : α} (hasks : B.Asks i lam) : A.Asks i lam := by
  have hcapped : Walk.capped A.config i = false := by
    refine Bool.eq_false_iff.2 fun hA => ?_
    have hB := h.capped i hA
    rw [hasks.capped] at hB
    cases hB
  exact ⟨h.schedule ▸ hasks.lt_count, h.schedule ▸ hasks.entry, hcapped⟩

/-- A fault that halts `B` halts `A`, if both keep the same. -/
theorem halt_fault (h : B.Shortens A) (hpolicy : B.config.policy = A.config.policy)
    {w' : Walk α σ} {f : Fault α} (hhalt : Walk.Halt B w w') (hexit : w'.exit = some (.fault f)) :
    Walk.Halt A w w' := by
  cases hhalt with
  | spent => cases hexit
  | refused f hlt hf =>
    rw [h.schedule] at hlt hf
    refine .refused f hlt ?_
    rcases hf with hoverflow | ⟨lam, hasks, hpos, hf⟩
    · exact .inl hoverflow
    · exact .inr ⟨lam, h.asks hasks, hpos, hf⟩
  | broken lam hpos f hasks hbreaks =>
    rw [h.reply_eq] at hbreaks
    rw [h.asked_eq]
    refine .broken lam hpos f (h.asks hasks) ?_
    rcases hbreaks with herror | ⟨s, hok, hunsolved, hstop, hf⟩
    · exact .inl herror
    · exact .inr ⟨s, hok, hunsolved, hpolicy ▸ hstop, hf⟩

end Plan.Shortens

/-- The trails of the shorter plan are trails of the longer one.  As long as the shorter plan goes
    on the walks are the same, and when it stops both plans have judged the same step. -/
theorem Trail.lengthen {A B : Plan α σ} {e : σ} {p : Problem α} {turns : List (Turn α)}
    {w : Walk α σ} (h : Trail B e p turns w) (hBA : B.Shortens A) :
    ∃ w', Trail A e p turns w' ∧ (w.exit = none → w' = w) ∧
      (w.exit ≠ none → ∃ previous i x, w.exit = Walk.verdict? B previous i x ∧
        w'.exit = Walk.verdict? A previous i x) := by
  induction h with
  | start => exact ⟨_, .start, fun _ => rfl, fun hexit => absurd rfl hexit⟩
  | @next turns w lam s hpos _ running asks reply policy ih =>
    obtain ⟨v, hv, heq, -⟩ := ih
    obtain rfl := heq running
    rw [hBA.reply_eq] at reply ⊢
    rw [hBA.pose_eq, hBA.asked_eq]
    have hpolicy : s.status.ok = false → A.config.policy ≠ .stop :=
      fun hunsolved hstop => policy hunsolved (hBA.policy hstop)
    have hasked : (v.asked A lam hpos).exit = none := running
    refine ⟨_, .next hpos hv running (hBA.asks asks) reply hpolicy, fun hexit => ?_, fun _ =>
      ⟨_, _, _, Walk.keep_exit hasked _ _ _, Walk.keep_exit hasked _ _ _⟩⟩
    -- Both walks go on after the step.
    rw [Walk.keep_exit hasked] at hexit
    exact Walk.keep_congr lam (hBA.goes_on _ _ _ hexit) hexit

namespace Plan.Shortens

variable {A B : Plan α σ} {e : σ} {p : Problem α}

/-- The points of the shorter walk are the first points of the longer one. -/
theorem points_prefix_points (h : B.Shortens A) (e : σ) (p : Problem α) :
    ((Walk.start e p).finish B).points <+: ((Walk.start e p).finish A).points := by
  obtain ⟨turns, w, htrail, hends⟩ := Walk.finish_reaches B e p
  obtain ⟨v, hv, -⟩ := htrail.lengthen h
  obtain ⟨turns', w', hmore, htrail', hends'⟩ := Walk.finish_reaches_of_trail hv
  rw [hends.points_eq, hends'.points_eq]
  exact htrail.points_prefix_points htrail' hmore

/-- Where the shorter walk is halted by a fault the longer one is, if both keep the same. -/
theorem finish_of_halt (h : B.Shortens A) (hpolicy : B.config.policy = A.config.policy)
    {turns : List (Turn α)} {w w' : Walk α σ} (htrail : Trail A e p turns w)
    (running : w.exit = none) (hhalt : Walk.Halt B w w') {f : Fault α}
    (hexit : w'.exit = some (.fault f)) : (Walk.start e p).finish A = w' := by
  have hstep := (h.halt_fault hpolicy hhalt hexit).step_eq hexit
  have hend : (w.step A).exit ≠ none := by
    rw [hstep, hexit]
    exact Option.some_ne_none _
  rw [htrail.finish_of_step running hend, hstep]

/-- A fault of the shorter walk is one of the longer walk, if both keep the same and a step that
    breaks the shorter one off breaks the longer one off. -/
theorem finish_fault (h : B.Shortens A) (hpolicy : B.config.policy = A.config.policy)
    (hfault : ∀ previous i x f, Walk.verdict? B previous i x = some (.fault f) →
      Walk.verdict? A previous i x = some (.fault f))
    {f : Fault α} (hexit : ((Walk.start e p).finish B).exit = some (.fault f)) :
    ((Walk.start e p).finish A).exit = some (.fault f) := by
  obtain ⟨turns, w, htrail, hends⟩ := Walk.finish_reaches B e p
  obtain ⟨v, hv, heq, hjudged⟩ := htrail.lengthen h
  generalize (Walk.start e p).finish B = w' at hends hexit
  cases hends with
  | last hended =>
    obtain ⟨previous, i, x, hB, hA⟩ := hjudged hended
    have hvexit : v.exit = some (.fault f) := hA.trans (hfault _ _ _ _ (hB.symm.trans hexit))
    rw [hv.finish_of_exit (by rw [hvexit]; exact Option.some_ne_none _)]
    exact hvexit
  | halted running hhalt =>
    obtain rfl := heq running
    rw [h.finish_of_halt hpolicy hv running hhalt hexit]
    exact hexit

/-- If both plans judge their steps alike, the shorter walk takes all steps of the longer one or as
    many as it may. -/
theorem points_eq_or_capped (h : B.Shortens A) (hpolicy : B.config.policy = A.config.policy)
    (hverdict : ∀ previous i x, Walk.verdict? B previous i x = Walk.verdict? A previous i x)
    (e : σ) (p : Problem α) :
    ((Walk.start e p).finish B).points = ((Walk.start e p).finish A).points ∨
      Walk.capped B.config ((Walk.start e p).finish B).points.length = true := by
  obtain ⟨turns, w, htrail, hends⟩ := Walk.finish_reaches B e p
  obtain ⟨v, hv, heq, hjudged⟩ := htrail.lengthen h
  generalize hw' : (Walk.start e p).finish B = w' at hends ⊢
  cases hends with
  | last hended =>
    obtain ⟨previous, i, x, hB, hA⟩ := hjudged hended
    have hvexit : v.exit ≠ none := by
      rw [hA, ← hverdict, ← hB]
      exact hended
    rw [hv.finish_of_exit hvexit, hv.points_eq, htrail.points_eq]
    exact .inl rfl
  | halted running hhalt =>
    obtain rfl := heq running
    generalize v.step B = w' at hhalt ⊢
    cases hexit : w'.exit with
    | none => exact absurd hexit hhalt.exit_ne
    | some exit =>
      cases exit with
      | fault f => exact .inl (by rw [h.finish_of_halt hpolicy hv running hhalt hexit])
      | phase phase =>
        cases hhalt with
        | spent hspent =>
          rcases hspent with hcount | hcapped
          · rw [h.schedule] at hcount
            have hend : (v.step A).exit ≠ none := by
              rw [Walk.step_of_count_le hcount]
              exact Option.some_ne_none _
            rw [hv.finish_of_step running hend, Walk.step_of_count_le hcount]
            exact .inl rfl
          · exact .inr hcapped
        | refused => cases hexit
        | broken => cases hexit

end Plan.Shortens

end RegPath.Path
