import RegPath.Proofs.Path.Course
import RegPath.Proofs.Path.Outcome

namespace RegPath.Path

/-!
# Stopping changes nothing but the length

Early stopping, the limit on the steps and the tolerance say where a path stops.  They have no part
in what is computed until then: of two paths that differ in these one is the beginning of the other.

The common measure is the path without any of the three.  Every path is a beginning of that one, and
two beginnings of one list are comparable.  Where the paths can be told apart beforehand, because
one tolerance is larger or one limit is lower, the shorter path goes on only where the longer one
does, so that they are compared directly.

* `Setup.Alike` — setups that differ in nothing but the three;
* `Setup.unstopped` — the setup without any of them;
* `PrefixLaw`, `Driver.run_prefixLaw` — how the paths of two such setups compare.
-/

variable {α : Type} [Scalar α] {σ : Type}

/-! ### Setups -/

/-- Two setups that know no time limit and differ only in early stopping, in the limit on the steps
    and in the tolerance. -/
structure Setup.Alike (s s' : Setup α σ) : Prop where
  /-- The engines are the same. -/
  engine : s'.engine = s.engine
  /-- The schedules have the same length. -/
  count : s'.config.count = s.config.count
  /-- They have the same ratio. -/
  ratio : s'.config.ratio = s.config.ratio
  /-- Both or neither start warm. -/
  warmStart : s'.config.warmStart = s.config.warmStart
  /-- Both keep unsolved steps or break off with them. -/
  policy : s'.config.policy = s.config.policy
  /-- The first knows no time limit. -/
  untimed : s.config.maxTime = none
  /-- Nor does the second. -/
  untimed' : s'.config.maxTime = none

/-- No limit on the steps is an acceptable one. -/
theorem Config.maxSteps_pos_of_none : ∀ k ∈ (none : Option Nat), 0 < k :=
  fun _ h => absurd h (Option.not_mem_none _)

/-- The setup without early stopping and without a limit on the steps. -/
def Setup.unstopped (s : Setup α σ) : Setup α σ where
  config := { s.config with
    earlyStop := false
    maxSteps := none
    maxSteps_pos := Config.maxSteps_pos_of_none }
  engine := s.engine
  elapsed := s.elapsed

/-- A setup without a time limit is like itself. -/
theorem Setup.Alike.refl {s : Setup α σ} (h : s.config.maxTime = none) : s.Alike s :=
  ⟨rfl, rfl, rfl, rfl, rfl, h, h⟩

/-! ### Verdicts -/

namespace Walk

/-- Without a time limit no step is late. -/
theorem late_eq_none {plan : Plan α σ} (h : plan.config.maxTime = none) (i : Nat) :
    late plan i = none := by
  rw [late, h, Option.filter_none]

/-- A test that finds no agreement finds none with a smaller tolerance, and a test that cannot be
    made cannot be made with any tolerance. -/
theorem agrees?_of_tol_le (hmono : Scalar.MulMono α) {c c' : Config α}
    (hearly : c'.earlyStop = c.earlyStop) (htol : c.tol ≤ c'.tol) (x previous : List α) :
    (agrees? c' x previous = some false → agrees? c x previous = some false) ∧
      (agrees? c' x previous = none → agrees? c x previous = none) := by
  unfold agrees?
  rw [hearly]
  by_cases hjudged : c.earlyStop = true ∧ 0 < Vec.norm1 x
  · rw [if_pos hjudged, if_pos hjudged]
    unfold converged?
    cases largestChange? x previous with
    | none => exact ⟨fun h => (by cases h), fun _ => rfl⟩
    | some change =>
      simp only [Option.map_some, Option.some.injEq, decide_eq_false_iff_not, reduceCtorEq,
        false_implies, and_true]
      exact fun hlarge hsmall => hlarge (hmono _ _ _ _ c.tol_nonneg htol hjudged.2 hsmall)
  · rw [if_neg hjudged, if_neg hjudged]
    exact ⟨fun _ => rfl, fun h => (by cases h)⟩

end Walk

/-! ### Plans -/

namespace Setup.Alike

variable {s s' : Setup α σ}

/-- Without early stopping and limits a setup is like any other. -/
theorem unstopped (h : s.Alike s') : s.unstopped.Alike s' :=
  ⟨h.engine, h.count, h.ratio, h.warmStart, h.policy, h.untimed, h.untimed'⟩

/-- A plan shortens another one if its limit is not above the other one's and it finds agreement
    wherever the other one does. -/
theorem shortens (h : s.Alike s')
    (hcapped : ∀ i, Walk.capped s.config i = true → Walk.capped s'.config i = true)
    (hagrees : ∀ x previous, Walk.agrees? s'.config x previous = some false →
      Walk.agrees? s.config x previous = some false) (schedule : Schedule α) :
    (s'.plan schedule).Shortens (s.plan schedule) where
  engine := h.engine
  schedule := rfl
  warmStart := h.warmStart
  capped := hcapped
  goes_on := fun previous i x hgoes => Walk.verdict?_eq_none.2
    ⟨hagrees x previous (Walk.verdict?_eq_none.1 hgoes).1, Walk.late_eq_none h.untimed i⟩
  policy := fun hstop => h.policy.trans hstop

/-- Every plan shortens the one without stopping. -/
theorem shortens_unstopped (h : s.Alike s') (schedule : Schedule α) :
    (s'.plan schedule).Shortens (s.unstopped.plan schedule) := by
  refine h.unstopped.shortens (fun i hcapped => ?_) (fun x previous _ => ?_) schedule
  · cases hcapped
  · exact if_neg fun hearly => Bool.false_ne_true hearly.1

/-- A larger tolerance shortens a plan. -/
theorem shortens_of_tol_le (h : s.Alike s') (hmono : Scalar.MulMono α)
    (hearly : s'.config.earlyStop = s.config.earlyStop)
    (hsteps : s'.config.maxSteps = s.config.maxSteps) (htol : s.config.tol ≤ s'.config.tol)
    (schedule : Schedule α) : (s'.plan schedule).Shortens (s.plan schedule) := by
  refine h.shortens (fun i hcapped => ?_) (fun x previous => ?_) schedule
  · rw [Walk.capped, hsteps]
    exact hcapped
  · exact (Walk.agrees?_of_tol_le hmono hearly htol x previous).1

/-- With the same parameters of the test both make the same test. -/
theorem agrees?_eq (hearly : s'.config.earlyStop = s.config.earlyStop)
    (htol : s'.config.tol = s.config.tol) (x previous : List α) :
    Walk.agrees? s'.config x previous = Walk.agrees? s.config x previous := by
  unfold Walk.agrees?
  rw [hearly, htol]

/-- A lower limit shortens a plan. -/
theorem shortens_of_maxSteps_le (h : s.Alike s')
    (hearly : s'.config.earlyStop = s.config.earlyStop) (htol : s'.config.tol = s.config.tol)
    {k : Nat} (hk : s'.config.maxSteps = some k)
    (hle : ∀ k', s.config.maxSteps = some k' → k ≤ k') (schedule : Schedule α) :
    (s'.plan schedule).Shortens (s.plan schedule) := by
  refine h.shortens (fun i hcapped => ?_) (fun x previous hagrees => ?_) schedule
  · rw [Walk.capped] at hcapped ⊢
    cases hk' : s.config.maxSteps with
    | none =>
      rw [hk'] at hcapped
      cases hcapped
    | some k' =>
      rw [hk'] at hcapped
      rw [hk]
      exact decide_eq_true ((hle k' hk').trans (of_decide_eq_true hcapped))
  · rw [← agrees?_eq hearly htol]
    exact hagrees

/-- With the same test both plans judge a step alike. -/
theorem verdict?_eq (h : s.Alike s') (hearly : s'.config.earlyStop = s.config.earlyStop)
    (htol : s'.config.tol = s.config.tol) (schedule : Schedule α) (previous : List α) (i : Nat)
    (x : List α) :
    Walk.verdict? (s'.plan schedule) previous i x =
      Walk.verdict? (s.plan schedule) previous i x := by
  have hlate : Walk.late (s'.plan schedule) i = Walk.late (s.plan schedule) i :=
    (Walk.late_eq_none h.untimed' i).trans (Walk.late_eq_none h.untimed i).symm
  exact Walk.verdict?_congr (agrees?_eq hearly htol x previous) hlate

end Setup.Alike

/-! ### Paths -/

namespace Driver

variable {s s' : Setup α σ} {d : Driver α σ} {p : Problem α} {pinned : Option α}

/-- A path whose plan shortens another one takes the first steps of the other path. -/
theorem steps_prefix_steps (hschedule : s'.schedule? p pinned = s.schedule? p pinned)
    (h : ∀ schedule, (s'.plan schedule).Shortens (s.plan schedule)) :
    d.steps s' p pinned <+: d.steps s p pinned := by
  cases hs : s.schedule? p pinned with
  | none =>
    rw [steps_of_none hs, steps_of_none (hschedule.trans hs)]
  | some schedule =>
    rw [steps_of_schedule? hs, steps_of_schedule? (hschedule.trans hs)]
    exact (h schedule).points_prefix_points d.engine p

/-- If a path returns, so does every path whose plan shortens it and meets no fault of its own. -/
theorem returns_of_shortens (hlike : s.Alike s')
    (h : ∀ schedule, (s'.plan schedule).Shortens (s.plan schedule))
    (hfault : ∀ schedule previous i x f,
      Walk.verdict? (s'.plan schedule) previous i x = some (.fault f) →
        Walk.verdict? (s.plan schedule) previous i x = some (.fault f))
    {r : Result α} (hr : (d.run s p pinned).outcome = .ok r) :
    ∃ r', (d.run s' p pinned).outcome = .ok r' := by
  have hschedule := schedule?_congr hlike.count hlike.ratio p pinned
  cases hs : s.schedule? p pinned with
  | none =>
    rw [run_congr_of_none hlike.count hlike.ratio hs]
    exact ⟨r, hr⟩
  | some schedule =>
    rw [run_of_schedule? hs, conclude_ok] at hr
    rw [run_of_schedule? (hschedule.trans hs)]
    obtain ⟨phase, lambdas, hphase, hgrid, -⟩ := hr
    -- The shorter walk has ended, and not by a fault.
    obtain ⟨turns, w, -, hends⟩ := Walk.finish_reaches (s'.plan schedule) d.engine p
    obtain ⟨exit, hexit⟩ := Option.ne_none_iff_exists'.1 hends.exit_ne
    cases exit with
    | phase phase' => exact ⟨_, conclude_ok.2 ⟨phase', lambdas, hexit, hgrid, rfl⟩⟩
    | fault f =>
      have hlonger := (h schedule).finish_fault hlike.policy (hfault schedule) hexit
      rw [walk, hlonger] at hphase
      cases hphase

/-- Two setups that are alike report the same schedule. -/
theorem lambdas_eq (hlike : s.Alike s') {r r' : Result α}
    (hr : (d.run s p pinned).outcome = .ok r) (hr' : (d.run s' p pinned).outcome = .ok r') :
    r'.lambdas = r.lambdas := by
  have hschedule := schedule?_congr hlike.count hlike.ratio p pinned
  cases hs : s.schedule? p pinned with
  | none =>
    rw [run_congr_of_none hlike.count hlike.ratio hs, hr] at hr'
    obtain rfl := Except.ok.inj hr'
    rfl
  | some schedule =>
    rw [run_of_schedule? hs, conclude_ok] at hr
    rw [run_of_schedule? (hschedule.trans hs), conclude_ok] at hr'
    obtain ⟨phase, lambdas, -, hgrid, rfl⟩ := hr
    obtain ⟨phase', lambdas', -, hgrid', rfl⟩ := hr'
    exact Except.ok.inj (hgrid'.symm.trans hgrid)

/-- A path with a limit takes no more steps than that. -/
theorem length_steps_le {k : Nat} (hk : s.config.maxSteps = some k) :
    (d.steps s p pinned).length ≤ k := by
  by_contra hlt
  have hlt := Nat.lt_of_not_le hlt
  cases hs : s.schedule? p pinned with
  | none =>
    rw [steps_of_none hs] at hlt
    exact Nat.not_lt_zero k hlt
  | some schedule =>
    obtain ⟨turns, w, htrail, -, hsteps⟩ := d.exists_trail hs
    rw [hsteps] at hlt
    -- The step at the limit would have been refused.
    have hasks := (htrail.point_asks (List.getElem?_eq_getElem hlt)).2
    have hcapped : Walk.capped s.config k = true := by
      rw [Walk.capped, hk]
      exact decide_eq_true (Nat.le_refl k)
    exact Bool.false_ne_true (hasks.capped.symm.trans hcapped)

end Driver

/-- How the paths of two setups that are alike compare.  Steps are known of every path, also of one
    that the engine breaks off. -/
structure PrefixLaw (s s' : Setup α σ) (d : Driver α σ) (p : Problem α) (pinned : Option α) :
    Prop where
  /-- One path is the beginning of the other. -/
  comparable : d.steps s' p pinned <+: d.steps s p pinned ∨
    d.steps s p pinned <+: d.steps s' p pinned
  /-- Paths that return return their steps, and both report the same penalties. -/
  returned : ∀ r r', (d.run s p pinned).outcome = .ok r → (d.run s' p pinned).outcome = .ok r' →
    r.points = d.steps s p pinned ∧ r'.points = d.steps s' p pinned ∧ r'.lambdas = r.lambdas
  /-- A larger tolerance never gives more steps, and no fault. -/
  larger_tol : Scalar.MulMono α → s'.config.earlyStop = s.config.earlyStop →
    s'.config.maxSteps = s.config.maxSteps → s.config.tol ≤ s'.config.tol →
      d.steps s' p pinned <+: d.steps s p pinned ∧
        ∀ r, (d.run s p pinned).outcome = .ok r →
          ∃ r', (d.run s' p pinned).outcome = .ok r' ∧ r'.points.length ≤ r.points.length
  /-- A lower limit gives just the first steps, and no fault. -/
  fewer_steps : ∀ k, s'.config.earlyStop = s.config.earlyStop → s'.config.tol = s.config.tol →
    s'.config.maxSteps = some k → (∀ k', s.config.maxSteps = some k' → k ≤ k') →
      d.steps s' p pinned = (d.steps s p pinned).take k ∧
        ∀ r, (d.run s p pinned).outcome = .ok r →
          ∃ r', (d.run s' p pinned).outcome = .ok r' ∧ r'.points = r.points.take k

namespace Driver

variable {s s' : Setup α σ} {d : Driver α σ} {p : Problem α} {pinned : Option α}

/-- A lower limit gives just the first steps. -/
theorem steps_eq_take (hlike : s.Alike s') {k : Nat}
    (hearly : s'.config.earlyStop = s.config.earlyStop) (htol : s'.config.tol = s.config.tol)
    (hk : s'.config.maxSteps = some k) (hle : ∀ k', s.config.maxSteps = some k' → k ≤ k') :
    d.steps s' p pinned = (d.steps s p pinned).take k := by
  have hschedule := schedule?_congr hlike.count hlike.ratio p pinned
  have hshortens := hlike.shortens_of_maxSteps_le hearly htol hk hle
  have hlength : (d.steps s' p pinned).length ≤ k := length_steps_le hk
  have hfirst := List.prefix_iff_eq_take.1 (steps_prefix_steps (d := d) hschedule hshortens)
  cases hs : s.schedule? p pinned with
  | none =>
    rw [steps_of_none hs, steps_of_none (hschedule.trans hs), List.take_nil]
  | some schedule =>
    -- The shorter path took all steps or as many as it may.
    rcases (hshortens schedule).points_eq_or_capped hlike.policy
      (hlike.verdict?_eq hearly htol schedule) d.engine p with hall | hcapped
    · have heq : d.steps s' p pinned = d.steps s p pinned := by
        rw [steps_of_schedule? hs, steps_of_schedule? (hschedule.trans hs)]
        exact hall
      rw [heq] at hlength
      rw [heq, List.take_of_length_le hlength]
    · change Walk.capped s'.config (d.walk s' p schedule).points.length = true at hcapped
      rw [← steps_of_schedule? (hschedule.trans hs), Walk.capped, hk] at hcapped
      have hge : k ≤ (d.steps s' p pinned).length := of_decide_eq_true hcapped
      rwa [Nat.le_antisymm hlength hge] at hfirst

/-- Stopping never changes what is computed. -/
theorem run_prefixLaw (hlike : s.Alike s') (d : Driver α σ) (p : Problem α)
    (pinned : Option α) : PrefixLaw s s' d p pinned := by
  have hschedule := schedule?_congr hlike.count hlike.ratio p pinned
  constructor
  case comparable =>
    have hcount : ∀ s₁ : Setup α σ, s₁.config.count = s.config.count →
        s₁.config.ratio = s.config.ratio →
          s₁.schedule? p pinned = s.unstopped.schedule? p pinned :=
      fun s₁ hcount hratio => schedule?_congr hcount hratio p pinned
    -- Both paths are beginnings of the one that is not stopped.
    have hfirst := steps_prefix_steps (d := d) (hcount s rfl rfl)
      (Setup.Alike.refl hlike.untimed).shortens_unstopped
    have hsecond := steps_prefix_steps (d := d) (hcount s' hlike.count hlike.ratio)
      hlike.shortens_unstopped
    exact List.prefix_or_prefix_of_prefix hsecond hfirst
  case returned =>
    intro r r' hr hr'
    exact ⟨points_eq_steps hr, points_eq_steps hr', lambdas_eq hlike hr hr'⟩
  case larger_tol =>
    intro hmono hearly hsteps htol
    have hshortens := hlike.shortens_of_tol_le hmono hearly hsteps htol
    have hfirst := steps_prefix_steps (d := d) hschedule hshortens
    -- Iterates that cannot be compared break both paths off.
    have hfault : ∀ schedule previous i x f,
        Walk.verdict? (s'.plan schedule) previous i x = some (.fault f) →
          Walk.verdict? (s.plan schedule) previous i x = some (.fault f) := by
      intro schedule previous i x f hfault
      obtain ⟨hnone, hf⟩ := Walk.verdict?_eq_fault.1 hfault
      have hnone' := (Walk.agrees?_of_tol_le hmono hearly htol x previous).2 hnone
      exact Walk.verdict?_eq_fault.2 ⟨hnone', hf⟩
    refine ⟨hfirst, ?_⟩
    intro r hr
    obtain ⟨r', hr'⟩ := returns_of_shortens hlike hshortens hfault hr
    refine ⟨r', hr', ?_⟩
    rw [points_eq_steps hr, points_eq_steps hr']
    exact hfirst.length_le
  case fewer_steps =>
    intro k hearly htol hk hle
    have hshortens := hlike.shortens_of_maxSteps_le hearly htol hk hle
    have htake : d.steps s' p pinned = (d.steps s p pinned).take k :=
      steps_eq_take hlike hearly htol hk hle
    have hfault : ∀ schedule previous i x f,
        Walk.verdict? (s'.plan schedule) previous i x = some (.fault f) →
          Walk.verdict? (s.plan schedule) previous i x = some (.fault f) := by
      intro schedule previous i x f hfault
      rwa [← hlike.verdict?_eq hearly htol schedule previous i x]
    refine ⟨htake, ?_⟩
    intro r hr
    obtain ⟨r', hr'⟩ := returns_of_shortens hlike hshortens hfault hr
    refine ⟨r', hr', ?_⟩
    rw [points_eq_steps hr, points_eq_steps hr', htake]

end Driver

/-- Three penalties without a time limit, and a limit of two steps. -/
noncomputable def shortConfig : Config ℝ :=
  { untimedConfig with
    maxSteps := some 2
    maxSteps_pos := by rintro k ⟨⟩; exact Nat.two_pos }

/-- Three penalties without a time limit, and a tolerance of one. -/
noncomputable def looseConfig : Config ℝ :=
  { untimedConfig with
    tol := 1
    tol_nonneg := not_lt.2 zero_le_one }

/-- The path of a single number takes the first two of its three steps with a limit of two, and no
    more than three with a larger tolerance. -/
theorem Driver.run_prefixLaw_brief :
    ∃ r r' r'',
      (Driver.run ⟨untimedConfig, zeroEngine, fun i => (i : ℝ)⟩ (.new ()) briefProblem
        (some 1)).outcome = .ok r ∧
      (Driver.run ⟨shortConfig, zeroEngine, fun _ => 0⟩ (.new ()) briefProblem
        (some 1)).outcome = .ok r' ∧
      (Driver.run ⟨looseConfig, zeroEngine, fun i => (i : ℝ)⟩ (.new ()) briefProblem
        (some 1)).outcome = .ok r'' ∧
      r'.points = r.points.take 2 ∧ r''.points.length ≤ r.points.length := by
  obtain ⟨r, hr⟩ : ∃ r, (Driver.run ⟨untimedConfig, zeroEngine, fun i => (i : ℝ)⟩ (.new ())
      briefProblem (some 1)).outcome = .ok r :=
    Driver.run_returns (.inl rfl) (zeroEngine_serves _) briefProblem_wellFormed rfl
      (by show 3 ≤ Schedule.largestSize; decide)
  have hshort : Setup.Alike ⟨untimedConfig, zeroEngine, fun i => (i : ℝ)⟩
      ⟨shortConfig, zeroEngine, fun _ => 0⟩ :=
    ⟨rfl, rfl, rfl, rfl, rfl, rfl, rfl⟩
  have hloose : Setup.Alike ⟨untimedConfig, zeroEngine, fun i => (i : ℝ)⟩
      ⟨looseConfig, zeroEngine, fun i => (i : ℝ)⟩ :=
    ⟨rfl, rfl, rfl, rfl, rfl, rfl, rfl⟩
  have hfewer := (Driver.run_prefixLaw hshort (.new ()) briefProblem (some 1)).fewer_steps 2
    rfl rfl rfl (fun k hk => by cases hk)
  have hlarger := (Driver.run_prefixLaw hloose (.new ()) briefProblem (some 1)).larger_tol
    Scalar.mulMono_real rfl rfl zero_le_one
  obtain ⟨r', hr', htake⟩ := hfewer.2 r hr
  obtain ⟨r'', hr'', hle⟩ := hlarger.2 r hr
  exact ⟨r, r', r'', hr, hr', hr'', htake, hle⟩

end RegPath.Path
