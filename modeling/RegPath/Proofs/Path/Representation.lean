import RegPath.Proofs.Lasso.Fit
import RegPath.Proofs.Path.Image
import RegPath.Proofs.Splitting.Representation

namespace RegPath

/-!
# Paths do not see how a matrix is stored

A path with a splitting engine touches its matrix in two places: where it looks for the top of its
schedule, and in the calls of its engine.  So problems on matrices with the same entries have the
same path, fault for fault.

* `Problem.SameEntries` — problems that differ in how their matrix is stored;
* `Path.Plan.mirrors_of_sameEntries` — their steps correspond, nothing being changed by the image;
* `Path.Driver.run_of_sameEntries`, `Path.Driver.fitLasso_of_sameEntries` — so do their paths.
-/

/-- The problems are the same, but for the way in which their matrix is stored. -/
structure Problem.SameEntries (p p' : Problem ℝ) : Prop where
  /-- The matrices have the same entries. -/
  matrix : p.design.matrix.SameEntries p'.design.matrix
  /-- All else is the same. -/
  rest : p' = { p with design := p'.design }

namespace Problem.SameEntries

variable {p p' : Problem ℝ}

/-- The problems have the same number of columns. -/
theorem width (h : p.SameEntries p') : p'.width = p.width := h.matrix.cols

/-- They have the same number of rows. -/
theorem height (h : p.SameEntries p') : p'.height = p.height := h.matrix.height

/-- They have the same observations. -/
theorem observations (h : p.SameEntries p') : p'.observations = p.observations := by
  rw [h.rest]

/-- They have the same vectors. -/
theorem vectors (h : p.SameEntries p') : p'.x = p.x ∧ p'.y = p.y := by
  rw [h.rest]
  exact ⟨rfl, rfl⟩

/-- A step poses problems that differ in the same way. -/
theorem pose {σ : Type} (h : p.SameEntries p') (plan : Path.Plan ℝ σ) {lam : ℝ} (hpos : 0 < lam) :
    (plan.pose p lam hpos).SameEntries (plan.pose p' lam hpos) := by
  constructor
  · rw [plan.pose_design, plan.pose_design]
    exact h.matrix
  · rw [h.rest]
    unfold Path.Plan.pose
    cases plan.config.warmStart with
    | true => rfl
    | false =>
      simp only [Bool.false_eq_true, if_false, Problem.reset, Problem.width, Problem.height]
      rw [h.matrix.cols, h.matrix.height]

/-- They differ in the same way with other vectors. -/
theorem install (h : p.SameEntries p') (x y : List ℝ) :
    { p with x := x, y := y }.SameEntries { p' with x := x, y := y } := by
  refine ⟨h.matrix, ?_⟩
  rw [h.rest]

/-- The lassos on two matrices with the same entries. -/
theorem ofLasso {d d' : Design ℝ} (h : d.matrix.SameEntries d'.matrix) (b : List ℝ) :
    (Problem.ofLasso d b).SameEntries (.ofLasso d' b) := by
  refine ⟨h, ?_⟩
  unfold Problem.ofLasso
  rw [h.cols, h.height]

end Problem.SameEntries

namespace Path

/-- States of two splitting engines with problems that differ in how their matrix is stored: neither
    engine holds anything wrong for its matrix. -/
structure Stored (F : Factorization ℝ) (e : Admm.Cache ℝ) (p : Problem ℝ) (e' : Admm.Cache ℝ)
    (p' : Problem ℝ) : Prop where
  /-- The problems differ in nothing else. -/
  problem : p.SameEntries p'
  /-- The first engine is intact. -/
  intact : e.Intact F p.design
  /-- So is the second. -/
  intact' : e'.Intact F p'.design

variable {F : Factorization ℝ} {S : Admm.Settings ℝ}

/-- The steps of one plan on two such problems correspond, and nothing changes. -/
theorem Plan.mirrors_of_sameEntries {plan : Plan ℝ (Admm.Cache ℝ)}
    (hengine : plan.engine = Admm.engine F S) :
    plan.Mirrors .same (Stored F) (fun _ => True) plan where
  schedule :=
    { top := rfl
      count := rfl
      entry := fun i _ => (Option.map_id_apply).symm }
  pos := fun _ => Iff.rfl
  capped := fun _ => rfl
  policy := rfl
  vectors := fun _ _ _ _ h => h.problem.vectors
  replies := by
    intro e p e' p' h lam hpos hpos'
    have hposed := h.problem.pose plan hpos
    have hintact : e.Intact F (plan.pose p lam hpos).request.design := by
      rw [Problem.request, plan.pose_design]
      exact h.intact
    have hintact' : e'.Intact F (plan.pose p' lam hpos).request.design := by
      rw [Problem.request, plan.pose_design]
      exact h.intact'
    have hrequest : (plan.pose p' lam hpos).request =
        { (plan.pose p lam hpos).request with design := (plan.pose p' lam hpos).design } :=
      congrArg Problem.request hposed.rest
    constructor
    case outcome =>
      rw [Image.outcome_same_solution, hengine]
      refine (hintact'.outcome S).trans (Eq.trans ?_ (hintact.outcome S).symm)
      rw [hrequest]
      exact Admm.freshAnswer_of_sameEntries F S hposed.matrix
    case next =>
      intro s _
      rw [hengine]
      exact ⟨trivial, hposed.install s.x s.y, hintact.solve S, hintact'.solve S⟩
  verdict := fun x previous _ _ i => by
    have hid : (Image.same : Image ℝ).exit = id := funext Image.exit_same
    rw [hid, Option.map_id]
    rfl

namespace Driver

variable {d d' : Driver ℝ (Admm.Cache ℝ)} {p p' : Problem ℝ}

/-- Paths on two such problems have the same outcome. -/
theorem run_of_sameEntries (config : Config ℝ) (S : Admm.Settings ℝ) (elapsed : ℕ → ℝ)
    (h : Stored F d.engine p d'.engine p') (pinned : Option ℝ) :
    (d'.run ⟨config, Admm.engine F S, elapsed⟩ p' pinned).outcome =
      (d.run ⟨config, Admm.engine F S, elapsed⟩ p pinned).outcome := by
  have hmax : lambdaMax p'.design.matrix p'.observations =
      lambdaMax p.design.matrix p.observations := by
    rw [h.problem.observations, lambdaMax_eq_of_sameEntries h.problem.matrix]
  cases htop : pinned.elim (lambdaMax p.design.matrix p.observations) .ok with
  | error f =>
    cases pinned with
    | some top => cases htop
    | none =>
      have hf : lambdaMax p.design.matrix p.observations = .error f := htop
      simp only [run, runBy, hmax, hf]
  | ok top =>
    have htop' : IsTop p' pinned (1 * top) := by
      rw [isTop_iff, hmax, one_mul]
      exact htop
    rw [run_image (I := .same) one_pos (fun l => (one_mul l).symm) rfl rfl (isTop_iff.2 htop) htop'
      (congrArg Vec.zeros h.problem.width) (congrArg Vec.zeros h.problem.height) ?_,
      Image.outcome_same]
    intro schedule schedule' hs hs' _
    have heq : schedule' = schedule := by
      have hschedule : Setup.schedule? ⟨config, Admm.engine F S, elapsed⟩ p' pinned =
          Setup.schedule? ⟨config, Admm.engine F S, elapsed⟩ p pinned := by
        unfold Setup.schedule?
        rw [hmax]
      exact Option.some.inj (hs'.symm.trans (hschedule.trans hs))
    subst heq
    refine run_of_mirrors hs hs' (Plan.mirrors_of_sameEntries rfl) ⟨rfl, rfl, fun _ => h, ?_⟩
    intro _ lam hpos s _ _ _
    -- The vector before the first iterate has the same length in both.
    have hid : (Image.same : Image ℝ).exit = id := funext Image.exit_same
    rw [hid, Option.map_id, Walk.start, Walk.start, h.problem.width]
    rfl

/-- Paths on the lassos of two matrices with the same entries have the same outcome. -/
theorem fitLasso_of_sameEntries (config : Config ℝ) (S : Admm.Settings ℝ) (elapsed : ℕ → ℝ)
    (D D' : Design ℝ) (hD : D.matrix.SameEntries D'.matrix) (hd : d.engine.Intact F D)
    (hd' : d'.engine.Intact F D') (b : List ℝ) :
    (d'.fitLasso ⟨config, Admm.engine F S, elapsed⟩ D' b).outcome =
      (d.fitLasso ⟨config, Admm.engine F S, elapsed⟩ D b).outcome := by
  by_cases hb : b.length = D.matrix.height
  · have hb' : b.length = D'.matrix.height := hb.trans hD.height.symm
    simp only [fitLasso, fitLassoBy, Problem.lasso_eq hb, Problem.lasso_eq hb']
    exact run_of_sameEntries config S elapsed ⟨.ofLasso hD b, hd, hd'⟩ none
  · simp only [fitLasso, fitLassoBy, Problem.lasso, Problem.make, ne_eq, hD.height, if_pos hb]

end Driver

end Path

end RegPath
