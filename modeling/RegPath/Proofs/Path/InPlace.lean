import RegPath.Proofs.Path.Cells
import RegPath.Proofs.Path.Outcome
import RegPath.Engine.Replay

namespace RegPath.Path

/-!
# Engines that work in place

An engine may overwrite the vectors of its guess and hand them back, or hand back new ones.  As long
as no step is broken off for its status, a path over shared vectors is the path of the same engine
without them, whichever way the engine takes: what it returns, what it leaves behind and what its
engine is asked.  In every step the iterate that the new one is compared with is a copy in a cell of
its own, and holds the iterate of the step before.

* `CellWalk.becomes_advanceBy` — any number of steps over cells;
* `Driver.Begun.finishInCells_eq`, `Driver.runBy_finishInCells` — whole paths;
* `CellWalk.Compares`, `CellWalk.exists_compares` — what the test of a kept step looks at;
* `Driver.AlikeInCells`, `Driver.alike_inCells` — paths of engines that work in place.
-/

variable {α : Type} [Scalar α] {σ : Type}

/-! ### Any number of steps -/

namespace CellWalk

variable {w w' : CellWalk α σ} {v : Walk α σ}

/-- Over cells a walk stands as the walk that they hold. -/
theorem Becomes.exit_eq (h : Becomes w w' v) : w'.exit = v.exit :=
  congrArg Walk.exit h.view_eq

/-- Any number of steps over cells, none of which is broken off, are steps of the walk that they
    hold. -/
theorem becomes_advanceBy (h : Becomes w w' v) (handing : Handing) (plan : Plan α σ) (n : ℕ)
    (hquiet : plan.config.policy = .stop → ∀ i lam status,
      (v.advanceBy plan n).exit ≠ some (.fault (.solverFailure i lam status))) :
    Becomes w (w'.advanceBy handing plan n) (v.advanceBy plan n) := by
  induction n generalizing w' v with
  | zero => exact h
  | succ n ih =>
    have hsame := h.exit_eq
    cases hexit : v.exit with
    | some e =>
      simp only [advanceBy, Walk.advanceBy, hsame, hexit]
      exact h
    | none =>
      simp only [advanceBy, Walk.advanceBy, hsame, hexit] at hquiet ⊢
      refine ih (becomes_step h handing plan fun hstop i lam status hbroken => ?_) hquiet
      -- What breaks a walk off stays its end.
      rw [Walk.advanceBy_of_exit plan n hbroken] at hquiet
      exact hquiet hstop i lam status hbroken

/-- A walk that begins in cells of its own holds its beginning. -/
theorem becomes_ofStart (hpoints : v.points = []) : Becomes (ofStart v) (ofStart v) v := by
  have hstart : ofStart v = startIn ⟨[]⟩ v := rfl
  have hbegun := Becomes.refl (separate_startIn ⟨[]⟩ v)
  rw [view_startIn _ hpoints] at hbegun
  rw [hstart]
  exact hbegun

/-! ### The test of a step -/

/-- A step keeps its solution in the walk `u`, where it is compared with `previous`: the solution
    and the iterate before it are in different cells. -/
structure Compares (handing : Handing) (plan : Plan α σ) (w : CellWalk α σ) (previous : List α)
    (pt : Point α) (u : CellWalk α σ) : Prop where
  /-- The step of the walk. -/
  step_eq : w.step handing plan = u.keep plan pt.step pt.lam pt.status pt.iterations
  /-- The solution is not where the iterate before it is. -/
  x_ne : u.x ≠ u.previous
  /-- Nor are its rows. -/
  y_ne : u.y ≠ u.previous
  /-- The first cell holds the solution. -/
  read_x : u.cells.read u.x = pt.x
  /-- The second holds the iterate before it. -/
  read_previous : u.cells.read u.previous = previous

/-- A step that reaches its penalty calls the engine on the problem that it poses. -/
theorem exists_posed (h : Becomes w w' v) (handing : Handing) {plan : Plan α σ} {lam : α}
    (hpos : 0 < lam) (hasks : plan.Asks v.points.length lam) :
    ∃ u, Becomes w u { v with problem := plan.pose v.problem lam hpos } ∧
      w'.step handing plan = u.call handing plan v.points.length lam := by
  have hrescaled := h.rescale (v.problem.colTerms.map fun t => t.withScale lam hpos)
  obtain ⟨-, -, rfl⟩ := h
  have hlength : w'.view.points.length = w'.points.length := List.length_map _
  have hterms : w'.view.problem.colTerms = w'.problem.colTerms := rfl
  rw [hlength] at hasks ⊢
  rw [hterms] at hrescaled
  unfold step
  simp only [if_neg (Nat.not_le.2 hasks.lt_count), hasks.entry, hasks.capped,
    Problem.withPenalty?, Term.withPenalty?_of_pos _ hpos, Except.map]
  unfold Plan.pose
  cases plan.config.warmStart with
  | true => exact ⟨_, hrescaled, rfl⟩
  | false => exact ⟨_, becomes_reset hrescaled, rfl⟩

/-- A call whose solution the policy admits keeps it where the engine has put it. -/
theorem exists_placed (h : Becomes w w' v) (handing : Handing) {plan : Plan α σ} {i : ℕ} {lam : α}
    {s : Solution α} (hreply : (plan.engine.solve v.engine v.problem.request).1.outcome = .ok s)
    (hpolicy : s.status.ok = false → plan.config.policy ≠ .stop) :
    ∃ u : CellWalk α σ, u.Separate ∧ u.cells.read u.x = s.x ∧ u.cells.read u.previous = v.previous ∧
      w'.call handing plan i lam = u.keep plan i lam s.status s.iterations := by
  have hkept : ¬ (s.status.ok = false ∧ plan.config.policy = .stop) :=
    fun hstop => hpolicy hstop.1 hstop.2
  have hplaced := becomes_placed (h.relabel
    (plan.engine.solve v.engine v.problem.request).2
    (v.events ++ (plan.engine.solve v.engine v.problem.request).1.events) v.exit) handing s.x s.y
  obtain ⟨-, -, rfl⟩ := h
  have hrequest : w'.view.problem.request = w'.present.request := rfl
  have hengine : w'.view.engine = w'.engine := rfl
  rw [hrequest, hengine] at hreply hplaced
  refine ⟨_, hplaced.separate, congrArg (fun v => v.problem.x) hplaced.view_eq,
    congrArg Walk.previous hplaced.view_eq, ?_⟩
  unfold call
  simp only [hreply, if_neg hkept]
  rfl

/-- A kept step compares its solution with what the walk holds for this, in another cell. -/
theorem exists_compares (h : Becomes w w' v) (handing : Handing) {plan : Plan α σ} {lam : α}
    (hpos : 0 < lam) (hasks : plan.Asks v.points.length lam) {s : Solution α}
    (hreply : (v.reply plan lam hpos).outcome = .ok s)
    (hpolicy : s.status.ok = false → plan.config.policy ≠ .stop) :
    ∃ u, Compares handing plan w' v.previous
      ⟨v.points.length, lam, s.x, s.status, s.iterations⟩ u := by
  obtain ⟨posed, hposed, hstep⟩ := exists_posed h handing hpos hasks
  obtain ⟨u, hseparate, hx, hprevious, hcall⟩ := exists_placed hposed handing hreply hpolicy
  exact ⟨u, hstep.trans hcall, (hseparate.kept_ne_x _ List.mem_cons_self).symm,
    (hseparate.kept_ne_y _ List.mem_cons_self).symm, hx, hprevious⟩

end CellWalk

/-! ### Whole paths -/

namespace Driver

variable {s : Setup α σ} {d : Driver α σ} {p : Problem α} {pinned : Option α}

/-- A walk that is broken off breaks its path off. -/
theorem outcome_of_fault {schedule : Schedule α} {opening : List (Event α)} {w : Walk α σ}
    {f : Fault α} (h : w.exit = some (.fault f)) :
    (d.conclude schedule opening w).outcome = .error f := by
  rw [conclude, h]

/-- A path that has not made a step ends over cells as it ends without them. -/
theorem Begun.finishInCells_eq {b : Begun α σ} (handing : Handing)
    (hbegun : ∀ j, b = .walking j → j.walk.points = [])
    (hquiet : ∀ i lam status, b.finish.outcome ≠ .error (.solverFailure i lam status)) :
    b.finishInCells handing = b.finish := by
  cases b with
  | closed r => rfl
  | walking j =>
    have hstart := CellWalk.becomes_ofStart (hbegun j rfl)
    have hfinish := CellWalk.becomes_advanceBy hstart handing j.plan (j.plan.schedule.count + 1)
      fun _ i lam status hbroken => hquiet i lam status (outcome_of_fault hbroken)
    exact congrArg (j.driver.conclude j.plan.schedule j.opening) hfinish.view_eq

/-- A path that begins has not made a step. -/
theorem points_of_start {top : α} {j : Journey α σ} (h : d.start s p top = .walking j) :
    j.walk.points = [] := by
  unfold start at h
  split at h
  · cases h
  · split at h
    · cases h
    · split at h
      · cases h
      · cases h
        rfl

/-- A path over cells is the path without them. -/
theorem runBy_finishInCells (handing : Handing)
    (hquiet : ∀ i lam status, (d.run s p pinned).outcome ≠ .error (.solverFailure i lam status)) :
    d.runBy (Begun.finishInCells handing) s p pinned = d.run s p pinned := by
  unfold run at hquiet ⊢
  unfold runBy at hquiet ⊢
  cases pinned with
  | some top => exact Begun.finishInCells_eq handing (fun _ => points_of_start) hquiet
  | none =>
    cases hmax : lambdaMax p.design.matrix p.observations with
    | error f => rfl
    | ok top =>
      simp only [hmax] at hquiet
      exact Begun.finishInCells_eq handing (fun _ => points_of_start) hquiet

/-- The calls of a path over cells, each with its reply, in order. -/
def callsInCells (handing : Handing) (s : Setup α σ) (d : Driver α σ) (p : Problem α)
    (pinned : Option α) : List (Request α × Reply α) :=
  (d.recorded.runBy (Begun.finishInCells handing) s.recorded p pinned).driver.engine.2

/-- A path over cells is the path without them. -/
structure AlikeInCells (s : Setup α σ) (d : Driver α σ) (p : Problem α) (pinned : Option α)
    (handing : Handing) : Prop where
  /-- It has the same result or fault, and leaves the same driver, events and problem. -/
  run_eq : d.runBy (Begun.finishInCells handing) s p pinned = d.run s p pinned
  /-- It asks the engine the same. -/
  calls_eq : d.callsInCells handing s p pinned = d.calls s p pinned
  /-- In each of its steps it compares the solution with the iterate of the step before, which is in
      another cell. -/
  compares : ∀ schedule, s.schedule? p pinned = some schedule →
    ∀ (i : ℕ) (pt : Point α), (d.steps s p pinned)[i]? = some pt →
      ∃ u, CellWalk.Compares handing (s.plan schedule)
        ((CellWalk.ofStart (.start d.engine p)).advanceBy handing (s.plan schedule) i)
        (iterateBefore p.width (d.steps s p pinned) i) pt u

/-- Each step of a path over cells compares its solution with a copy of the iterate before. -/
theorem exists_compares (d : Driver α σ) (handing : Handing) {schedule : Schedule α}
    (hschedule : s.schedule? p pinned = some schedule) {i : ℕ} {pt : Point α}
    (hpt : (d.steps s p pinned)[i]? = some pt) :
    ∃ u, CellWalk.Compares handing (s.plan schedule)
      ((CellWalk.ofStart (.start d.engine p)).advanceBy handing (s.plan schedule) i)
      (iterateBefore p.width (d.steps s p pinned) i) pt u := by
  obtain ⟨turns, w, htrail, -, hsteps⟩ := d.exists_trail hschedule
  rw [hsteps] at hpt ⊢
  obtain ⟨t, ht, rfl⟩ := htrail.exists_turn hpt
  obtain ⟨v, hpos, hbefore, hexit, hasks, hreply, -⟩ := htrail.before ht
  have hpolicy : t.solution.status.ok = false → (s.plan schedule).config.policy ≠ .stop := by
    intro hunsolved hstop
    have hsolved := htrail.solved_of_stop hstop t (List.mem_of_getElem? ht)
    rw [hunsolved] at hsolved
    cases hsolved
  -- The walk before the step holds the points before it.
  have hlength : (turns.take i).length = i :=
    List.length_take_of_le (Nat.le_of_lt (List.getElem?_eq_some_iff.1 ht).1)
  have hpoints : v.points.length = i := hbefore.length_points.trans hlength
  have hprevious : v.previous = iterateBefore p.width w.points i := by
    obtain ⟨more, hmore⟩ := hbefore.points_prefix_points htrail (List.take_prefix i turns)
    rw [hbefore.previous_eq hexit, hpoints, ← hmore,
      iterateBefore_append _ _ (Nat.le_of_eq hpoints.symm)]
  have hwalk := hbefore.advanceBy_eq
  rw [hlength] at hwalk
  have hcells := CellWalk.becomes_advanceBy (CellWalk.becomes_ofStart rfl) handing
    (s.plan schedule) i (v := .start d.engine p) fun _ _ _ _ hbroken => by
      rw [hwalk, hexit] at hbroken
      cases hbroken
  rw [hwalk] at hcells
  have hcompares := CellWalk.exists_compares hcells handing hpos hasks hreply hpolicy
  rw [hprevious, hpoints] at hcompares
  exact hcompares

/-- Whether an engine overwrites its guess or not, as long as no step is broken off for its status
    the path over the cells that the engine shares is the path without them. -/
theorem alike_inCells (s : Setup α σ) (d : Driver α σ) (p : Problem α) (pinned : Option α)
    (hquiet : ∀ i lam status, (d.run s p pinned).outcome ≠ .error (.solverFailure i lam status))
    (handing : Handing) : d.AlikeInCells s p pinned handing where
  run_eq := runBy_finishInCells handing hquiet
  calls_eq := by
    have houtcome : (d.recorded.run s.recorded p pinned).outcome = (d.run s p pinned).outcome :=
      congrArg Run.outcome (run_recorded s d p pinned)
    rw [callsInCells, calls, runBy_finishInCells handing (by rw [houtcome]; exact hquiet)]
  compares _ hschedule _ _ hpt := d.exists_compares handing hschedule hpt

end Driver

/-! ### Replaying engines -/

/-- There is an element at every position of a list that is repeated from its last element on. -/
theorem exists_nth? {β : Type} {l : List β} (h : l ≠ []) (k : ℕ) :
    ∃ a ∈ l, Replay.nth? l k = some a := by
  have hlt : min k (l.length - 1) < l.length := by
    have hpos := List.length_pos_iff.2 h
    omega
  exact ⟨_, List.getElem_mem hlt, List.getElem?_eq_getElem hlt⟩

/-- A script of vectors of the right length serves the problem. -/
theorem replay_serves {script : Replay.Script α} {p : Problem α} (hiterates : script.iterates ≠ [])
    (hstatuses : script.statuses ≠ []) (hlength : ∀ x ∈ script.iterates, x.length = p.width) :
    (Replay.engine script).Serves p := by
  intro calls q hq
  obtain ⟨x, hmem, hx⟩ := exists_nth? hiterates calls.length
  obtain ⟨status, -, hstatus⟩ := exists_nth? hstatuses calls.length
  have hwidth : x.length = q.width := (hlength x hmem).trans hq.width.symm
  refine ⟨⟨x, q.design.matrix.mulVec x, status, calls.length + 1⟩, ?_, hlength x hmem, ?_⟩
  · simp [Replay.engine, Replay.answer, Reply.quiet, hx, hstatus, hwidth]
  · exact (q.design.matrix.length_mulVec x).trans hq.height

/-- An engine that always answers one. -/
noncomputable def steadyScript : Replay.Script ℝ := ⟨[[1]], [.success]⟩

/-- Its setup, with three penalties and no time limit. -/
noncomputable def steadySetup : Setup ℝ (List (Replay.Call ℝ)) :=
  ⟨untimedConfig, Replay.engine steadyScript, fun i => (i : ℝ)⟩

/-- Its path is the same if it writes into its guess, where the second step finds what the first
    has left. -/
theorem steady_alike_inCells :
    (∀ i lam status, ((Driver.new []).run steadySetup briefProblem (some 1)).outcome ≠
        .error (.solverFailure i lam status)) ∧
      (Driver.new []).AlikeInCells steadySetup briefProblem (some 1) .inPlace := by
  have hserves : steadySetup.engine.Serves briefProblem :=
    replay_serves (List.cons_ne_nil _ _) (List.cons_ne_nil _ _)
      (by simp [steadyScript, briefProblem, Problem.width, RowMatrix.identity])
  have htop : Driver.IsTop briefProblem (some 1) 1 := .inl rfl
  obtain ⟨r, hr⟩ := Driver.run_returns (d := .new []) htop hserves briefProblem_wellFormed rfl
    (by show 3 ≤ Schedule.largestSize; decide)
  have hquiet : ∀ i lam status, ((Driver.new []).run steadySetup briefProblem (some 1)).outcome ≠
      .error (.solverFailure i lam status) := by
    intro i lam status hbroken
    cases hr.symm.trans hbroken
  exact ⟨hquiet, Driver.alike_inCells steadySetup (.new []) briefProblem (some 1) hquiet .inPlace⟩

end RegPath.Path
