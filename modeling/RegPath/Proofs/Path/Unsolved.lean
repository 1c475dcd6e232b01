import RegPath.Proofs.Coordinates
import RegPath.Proofs.Path.Dialogue
import RegPath.Proofs.Path.Idle
import RegPath.Proofs.Path.Stopping

namespace RegPath

/-!
# Unsolved steps and convergence

Whether a path has converged is judged by its iterates alone: the status of a step is written down,
but has no say in it.  So an iterate that repeats the one before ends the path as converged.  This
is what an engine brings about that fails and gives its guess back, since with a warm start the
guess is the iterate before.

* `largestChange?_self` — an iterate does not differ from itself;
* `Path.Stopping.converged_of_repeat` — a repeated iterate ends a path as converged;
* `Path.Driver.converged_of_givesBack` — an engine that solves nothing at all gives a path that has
  converged, and `Path.idle_converged` is such a path;
* `Path.Driver.converged_of_guess` — a single guess that is given back is enough, whatever its
  status.
-/

/-- An iterate does not differ from itself. -/
theorem largestChange?_self (x : List ℝ) : largestChange? x x = some 0 := by
  have hnorm : Vec.normInf (Vec.sub x x) ≤ 0 := by
    refine (Vec.normInf_le_iff le_rfl).2 fun d hd => ?_
    rw [Vec.sub, List.zipWith_self] at hd
    obtain ⟨b, -, rfl⟩ := List.mem_map.1 hd
    rw [sub_self, abs_zero]
  rw [largestChange?_of_length rfl, le_antisymm hnorm (Vec.normInf_nonneg _)]

namespace Path

variable {σ : Type}

/-! ### Repeated iterates -/

/-- A path that may stop early may end with an iterate that repeats the one before. -/
theorem Config.agrees_self {c : Config ℝ} (hearly : c.earlyStop = true) {x : List ℝ}
    (hx : 0 < Vec.norm1 x) : c.Agrees x x := by
  refine ⟨hearly, hx, ?_⟩
  have hbound : 0 ≤ c.tol * Vec.norm1 x := mul_nonneg (not_lt.1 c.tol_nonneg) (le_of_lt hx)
  rw [converged?, largestChange?_self, Option.map_some, decide_eq_true hbound]

namespace Stopping

variable {s : Setup ℝ σ} {p : Problem ℝ} {schedule : Schedule ℝ}
  {calls : List (Request ℝ × Reply ℝ)} {r : Result ℝ}

/-- A path that may stop early has converged as soon as an iterate repeats the one before. -/
theorem converged_of_repeat (h : Stopping s p schedule calls r)
    (hearly : s.config.earlyStop = true) {i : ℕ} {pt pt' : Point ℝ}
    (hi : r.points[i]? = some pt) (hi' : r.points[i + 1]? = some pt') (hx : pt'.x = pt.x)
    (hpos : 0 < Vec.norm1 pt.x) : r.phase = .converged ∧ r.points.length = i + 2 := by
  have hbefore : iterateBefore p.width r.points (i + 1) = pt.x := by
    rw [iterateBefore, hi, Option.map_some, Option.getD_some]
  have hagrees : s.config.Agrees pt'.x (iterateBefore p.width r.points (i + 1)) := by
    rw [hbefore, hx]
    exact Config.agrees_self hearly hpos
  have hlt := (List.getElem?_eq_some_iff.1 hi').1
  have hlength : r.points.length = i + 2 := by
    by_contra hne
    exact (h.goes_on (i + 1) pt' hi' (by omega)).1 hagrees
  have hlast : r.points.length - 1 = i + 1 := by omega
  refine ⟨h.converged.2 ?_, hlength⟩
  rw [h.x_eq_last (by rw [hlast, hi']), hlast]
  exact hagrees

end Stopping

/-! ### Engines that solve nothing -/

/-- A path with this configuration keeps what its engine returns, carries it on to the next step,
    and stops before the end of the schedule only if two iterates agree. -/
structure Config.Persistent {α : Type} [Scalar α] (c : Config α) : Prop where
  /-- Unsolved steps are kept. -/
  policy : c.policy = .keep
  /-- Each step starts from the last one. -/
  warmStart : c.warmStart = true
  /-- The path may end when two iterates agree. -/
  earlyStop : c.earlyStop = true
  /-- There is no time limit. -/
  untimed : c.maxTime = none
  /-- At least two steps are asked for. -/
  two_le_stepLimit : 2 ≤ c.stepLimit

namespace Driver

variable {s : Setup ℝ σ} {p : Problem ℝ} {pinned : Option ℝ}

/-- A persistent path from vectors other than zero has converged after two steps if its engine
    solves nothing and gives every guess back, unless it takes the first iterate for one that agrees
    with the sentinel. -/
theorem converged_of_givesBack {top : ℝ} (htop : IsTop p pinned top) (hpos : 0 < top)
    (hE : s.engine.GivesBack p) (hp : p.WellFormed) (hx : 0 < Vec.norm1 p.x)
    (hconfig : s.config.Persistent) (hcount : s.config.count ≤ Schedule.largestSize)
    (hsentinel : ¬ s.config.Agrees p.x (List.replicate p.width Scalar.largest))
    (d : Driver ℝ σ) :
    ∃ r, (d.run s p pinned).outcome = .ok r ∧ r.phase = .converged ∧ r.points.length = 2 ∧
      ∀ pt ∈ r.points, pt.x = p.x ∧ pt.status = .failed := by
  obtain ⟨r, hr⟩ := run_returns (d := d) htop hE.serves hp hconfig.policy hcount
  obtain ⟨schedule, hschedule, -⟩ := exists_schedule? htop (not_le.2 hpos) hr
  have hstopping := Stopping.of_run hschedule hr
  have hpoints : ∀ pt ∈ r.points, pt.x = p.x ∧ pt.status = .failed := by
    rw [points_eq_steps hr]
    exact fun pt hpt => steps_of_givesBack hE hp hconfig.warmStart d hpt
  have hpt := List.getElem?_eq_getElem hstopping.pos
  have hpt_x := (hpoints _ (List.mem_of_getElem? hpt)).1
  -- The first step is not the last one: there was no reason to stop after it.
  have hlt : 1 < r.points.length := by
    by_contra hle
    have hone : r.points.length = 1 := Nat.le_antisymm (Nat.le_of_not_lt hle) hstopping.pos
    have hlast : r.points.length - 1 = 0 := by omega
    have hrx : r.x = p.x := by
      rw [hstopping.x_eq_last (by rw [hlast, hpt]), hpt_x]
    rcases hstopping.phase with hconverged | htimedOut | hexhausted
    · have hagrees := hstopping.converged.1 hconverged
      rw [hrx, hlast] at hagrees
      exact hsentinel hagrees
    · obtain ⟨⟨limit, hsome, -⟩, -⟩ := hstopping.timedOut.1 htimedOut
      rw [hconfig.untimed] at hsome
      cases hsome
    · have hall := (hstopping.exhausted.1 hexhausted).2.2
      have htwo := hconfig.two_le_stepLimit
      omega
  have hpt' := List.getElem?_eq_getElem hlt
  have hpt_x' := (hpoints _ (List.mem_of_getElem? hpt')).1
  obtain ⟨hphase, hlength⟩ := hstopping.converged_of_repeat hconfig.earlyStop hpt hpt'
    (hpt_x'.trans hpt_x.symm) (by rw [hpt_x]; exact hx)
  exact ⟨r, hr, hphase, hlength, hpoints⟩

end Driver

/-! ### A path without a solver -/

/-- One has an absolute sum. -/
theorem norm1_one_pos : 0 < Vec.norm1 ([1] : List ℝ) := by
  show (0 : ℝ) < ([1].map Scalar.abs).sum
  simp

/-- The first iterate does not agree with the sentinel. -/
theorem not_agrees_sentinel :
    ¬ untimedConfig.Agrees [1] (List.replicate 1 (Scalar.largest : ℝ)) := by
  rintro ⟨-, -, hconverged⟩
  have hchange : largestChange? [1] (List.replicate 1 (Scalar.largest : ℝ)) =
      some (Vec.normInf [1 - Scalar.largest]) := rfl
  rw [converged?, hchange, Option.map_some, Option.some.injEq, decide_eq_true_iff, Vec.normInf_cons,
    show untimedConfig.tol = 0 from rfl, zero_mul] at hconverged
  have hzero := abs_nonpos_iff.1 ((le_max_left _ _).trans hconverged)
  linarith [Scalar.one_lt_largest]

/-- The path without a solver converges although none of its steps is solved. -/
theorem idle_converged : ∃ r, (Driver.run idleSetup (.new none) startedProblem (some 1)).outcome =
    .ok r ∧ r.phase = .converged ∧ r.points.length = 2 ∧
      ∀ pt ∈ r.points, pt.x = [1] ∧ pt.status = .failed := by
  have hconfig : untimedConfig.Persistent := ⟨rfl, rfl, rfl, rfl, by show 2 ≤ 3; decide⟩
  exact Driver.converged_of_givesBack (.inl rfl) one_pos idleEngine_givesBack
    startedProblem_wellFormed norm1_one_pos hconfig (by show 3 ≤ Schedule.largestSize; decide)
    not_agrees_sentinel (.new none)

/-! ### Guesses that are given back -/

namespace Driver

variable {s : Setup ℝ σ} {d : Driver ℝ σ} {p : Problem ℝ} {pinned : Option ℝ}
  {schedule : Schedule ℝ} {r : Result ℝ}

/-- With a warm start the guess of a call after the first one is the iterate before. -/
theorem guess_eq_of_warm (h : Stopping s p schedule (d.calls s p pinned) r)
    (hwarm : s.config.warmStart = true) {i : ℕ} {pt : Point ℝ} {c : Request ℝ × Reply ℝ}
    (hpt : r.points[i]? = some pt) (hc : (d.calls s p pinned)[i + 1]? = some c) :
    c.1.x = pt.x := by
  obtain ⟨c', a, hc', ha, hx, -⟩ := (dialogue s d p pinned).later_warm hwarm i c hc
  exact hx.trans (h.x_eq_of_call hpt hc' ha).symm

/-- A path that may stop early and starts warm has converged as soon as a call after the first one
    is answered with its guess, also if the answer is unsolved and the policy is to go on after
    such. -/
theorem converged_of_guess (hr : (d.run s p pinned).outcome = .ok r)
    (hearly : s.config.earlyStop = true) (hwarm : s.config.warmStart = true) {i : ℕ}
    {q : Request ℝ} {reply : Reply ℝ} {a : Solution ℝ}
    (hc : (d.calls s p pinned)[i + 1]? = some (q, reply)) (ha : reply.outcome = .ok a)
    (hx : a.x = q.x) (hpos : 0 < Vec.norm1 a.x) :
    r.phase = .converged ∧ r.points.length = i + 2 := by
  obtain ⟨schedule, hschedule, -⟩ := exists_askedAt hc
  have hstopping := Stopping.of_run hschedule hr
  have hlt : i + 1 < r.points.length :=
    hstopping.length_calls ▸ (List.getElem?_eq_some_iff.1 hc).1
  have hpt := List.getElem?_eq_getElem (Nat.lt_of_succ_lt hlt)
  have hpt' := List.getElem?_eq_getElem hlt
  have hguess : q.x = (r.points[i]).x := guess_eq_of_warm hstopping hwarm hpt hc
  have hrepeat : (r.points[i + 1]).x = (r.points[i]).x := by
    rw [hstopping.x_eq_of_call hpt' hc ha, hx, hguess]
  refine hstopping.converged_of_repeat hearly hpt hpt' hrepeat ?_
  rw [← hguess, ← hx]
  exact hpos

end Driver

/-- Without a solver the second call is answered with its guess, unsolved, and so ends the path. -/
theorem Driver.converged_of_guess_idle :
    ∃ r q reply a,
      (Driver.run idleSetup (.new none) startedProblem (some 1)).outcome = .ok r ∧
      (Driver.calls idleSetup (.new none) startedProblem (some 1))[1]? = some (q, reply) ∧
      reply.outcome = .ok a ∧ a.x = q.x ∧ a.status = .failed ∧
      r.phase = .converged ∧ r.points.length = 2 := by
  obtain ⟨r, hr, -, hlength, hpoints⟩ := idle_converged
  obtain ⟨schedule, hschedule, -⟩ := Driver.exists_schedule? (.inl rfl) (not_le.2 one_pos) hr
  have hstopping := Stopping.of_run hschedule hr
  have hpt := List.getElem?_eq_getElem hstopping.pos
  have hpt' := List.getElem?_eq_getElem (show 1 < r.points.length by omega)
  obtain ⟨hx, -⟩ := hpoints _ (List.mem_of_getElem? hpt)
  obtain ⟨hx', hstatus⟩ := hpoints _ (List.mem_of_getElem? hpt')
  obtain ⟨q, reply, a, hc, ha, hax, has, -⟩ := hstopping.answer 1 _ hpt'
  have hguess : q.x = [1] := (Driver.guess_eq_of_warm hstopping rfl hpt hc).trans hx
  have hanswer : a.x = [1] := hax.symm.trans hx'
  have hpos : 0 < Vec.norm1 a.x := by
    rw [hanswer]
    exact norm1_one_pos
  obtain ⟨hphase, -⟩ :=
    Driver.converged_of_guess hr rfl rfl hc ha (hanswer.trans hguess.symm) hpos
  exact ⟨r, q, reply, a, hr, hc, ha, hanswer.trans hguess.symm, has.symm.trans hstatus, hphase,
    hlength⟩

/-- A path that goes on after unsolved steps and has converged need not have solved one of its last
    two steps. -/
theorem converged_unsolved :
    ¬ ∀ (s : Setup ℝ (Conic.Cache ℝ)) (d : Driver ℝ (Conic.Cache ℝ)) (p : Problem ℝ)
      (pinned : Option ℝ) (r : Result ℝ), s.config.policy = .keep → s.config.earlyStop = true →
        (d.run s p pinned).outcome = .ok r → r.phase = .converged →
          ∀ (i : ℕ) (pt : Point ℝ), r.points[i]? = some pt → r.points.length ≤ i + 2 →
            pt.status.ok = true := by
  intro hclaim
  obtain ⟨r, hr, hphase, hlength, hpoints⟩ := idle_converged
  have hpt := List.getElem?_eq_getElem (show 1 < r.points.length by omega)
  have hok := hclaim idleSetup _ _ _ r rfl rfl hr hphase 1 _ hpt (by omega)
  rw [(hpoints _ (List.mem_of_getElem? hpt)).2] at hok
  cases hok

end Path

end RegPath
