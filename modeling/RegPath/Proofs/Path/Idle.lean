import RegPath.Proofs.Conic

namespace RegPath.Path

/-!
# Paths of engines that solve nothing

An engine that gives every guess back leaves a path with warm starts where it started, with an
unsolved step for each penalty.

* `Trail.points_of_givesBack`, `Driver.steps_of_givesBack` — every step repeats the first vectors;
* `idleEngine` — the conic engine without its solver, with a problem that it does not solve.
-/

variable {α : Type} [Scalar α] {σ : Type}

/-- With an engine that gives every guess back a warm trail stays where it started, unsolved. -/
theorem Trail.points_of_givesBack {plan : Plan α σ} {e : σ} {p : Problem α}
    {turns : List (Turn α)} {w : Walk α σ} (h : Trail plan e p turns w)
    (hE : plan.engine.GivesBack p) (hp : p.WellFormed) (hwarm : plan.config.warmStart = true) :
    w.problem.x = p.x ∧ w.problem.y = p.y ∧
      ∀ pt ∈ w.points, pt.x = p.x ∧ pt.status = .failed := by
  induction h with
  | start => exact ⟨rfl, rfl, fun pt hpt => by cases hpt⟩
  | @next turns w lam s hpos trail _ _ reply _ ih =>
    obtain ⟨hx, hy, hpoints⟩ := ih
    obtain ⟨a, ha, hax, hay, hstatus⟩ :=
      hE w.engine _ (trail.isAbout_next (hE.serves.servesFrom _) hp hpos)
    obtain rfl := Except.ok.inj (reply.symm.trans ha)
    have hguess := Plan.pose_warm hwarm w.problem hpos
    have hsx : s.x = p.x := hax.trans (hguess.1.trans hx)
    have hsy : s.y = p.y := hay.trans (hguess.2.trans hy)
    rw [Walk.keep_problem, Walk.keep_points, Walk.asked_points]
    refine ⟨hsx, hsy, fun pt hpt => ?_⟩
    rcases List.mem_append.1 hpt with hpt | hpt
    · exact hpoints pt hpt
    · rw [List.mem_singleton.1 hpt]
      exact ⟨hsx, hstatus⟩

namespace Driver

variable {s : Setup α σ} {p : Problem α} {pinned : Option α}

/-- So do all steps of the path. -/
theorem steps_of_givesBack (hE : s.engine.GivesBack p) (hp : p.WellFormed)
    (hwarm : s.config.warmStart = true) (d : Driver α σ) {pt : Point α}
    (hpt : pt ∈ d.steps s p pinned) : pt.x = p.x ∧ pt.status = .failed := by
  obtain ⟨schedule, turns, w, htrail, hmem⟩ := exists_trail_of_step hpt
  exact (htrail.points_of_givesBack hE hp hwarm).2.2 pt hmem

end Driver

/-- The lasso of a single number, started from one. -/
noncomputable def startedProblem : Problem ℝ := { briefProblem with x := [1], y := [1] }

/-- The conic engine with a solver that is not installed. -/
noncomputable def idleEngine : Engine ℝ (Conic.Cache ℝ) :=
  Conic.engine (.interior fun a b => decide (a ≤ b ∧ b ≤ a)) ⟨"MOSEK", false⟩

/-- Its setup, with three penalties and no time limit. -/
noncomputable def idleSetup : Setup ℝ (Conic.Cache ℝ) :=
  ⟨untimedConfig, idleEngine, fun i => (i : ℝ)⟩

/-- The problem is well formed. -/
theorem startedProblem_wellFormed : startedProblem.WellFormed := ⟨rfl, rfl, rfl, rfl, rfl⟩

/-- The engine gives every guess at it back. -/
theorem idleEngine_givesBack : idleEngine.GivesBack startedProblem :=
  Conic.givesBack_of_not_installed _ rfl startedProblem_wellFormed

/-- Its path returns, since unsolved steps are kept. -/
theorem idle_returns (d : Driver ℝ (Conic.Cache ℝ)) :
    ∃ r, (d.run idleSetup startedProblem (some 1)).outcome = .ok r :=
  Driver.run_returns (.inl rfl) idleEngine_givesBack.serves startedProblem_wellFormed rfl
    (by show 3 ≤ Schedule.largestSize; decide)

end RegPath.Path
