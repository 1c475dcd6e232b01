import RegPath.Proofs.Conic
import RegPath.Proofs.Path.Transcript
import RegPath.Proofs.Splitting.Service

namespace RegPath

/-!
# Warm starts stay on the graph

The present vectors of a problem are written in several places: they are forgotten by a reset, by a
path without a positive penalty and by each step of a cold path, and replaced by every answer that
is kept.  If they start with `y = A x`, and each answer of the engine satisfies `y = A x` or gives
the guess back, no path leaves this relation, however it ends.

* `RowMatrix.OnGraph` — a vector with its product;
* `Engine.KeepsGraph` — engines whose answers are on the graph or give the guess back;
* `Admm.Cache.Intact.keepsGraph`, `Conic.keepsGraph` — the engines of this library;
* `Path.OnGraph` — what holds of a walk between two steps and at its end;
* `Path.Operation` — the operations on one problem, and `Path.Operation.onGraph` what holds of each.
-/

/-- The row values are the product of the matrix with the columns. -/
structure RowMatrix.OnGraph (A : RowMatrix ℝ) (x y : List ℝ) : Prop where
  /-- One entry for each column. -/
  length : x.length = A.cols
  /-- The product. -/
  product : y = A.mulVec x

/-- Zero is on the graph. -/
theorem RowMatrix.onGraph_zeros (A : RowMatrix ℝ) :
    A.OnGraph (Vec.zeros A.cols) (Vec.zeros A.height) :=
  ⟨Vec.length_zeros _, A.mulVec_zeros.symm⟩

/-! ### Engines -/

/-- In every state that the engine can reach from a fresh one by requests about the problem, its
    answer to such a request is on the graph of the matrix, or it is the guess. -/
def Engine.KeepsGraph {σ : Type} (E : Engine ℝ σ) (fresh : σ) (p : Problem ℝ) : Prop :=
  ∀ e, E.Reaches p fresh e → ∀ q, q.IsAbout p → ∀ a, (E.solve e q).1.outcome = .ok a →
    p.design.matrix.OnGraph a.x a.y ∨ a.x = q.x ∧ a.y = q.y

/-- The splitting engine answers with a vector and its product. -/
theorem Admm.Cache.Intact.keepsGraph {F : Factorization ℝ} {c : Admm.Cache ℝ} {p : Problem ℝ}
    (h : c.Intact F p.design) (hF : F.Exact) (S : Admm.Settings ℝ) (hp : p.WellFormed) :
    (Admm.engine F S).KeepsGraph c p := by
  intro e he q hq a ha
  obtain ⟨a', ha', hx, hy, -⟩ := (h.of_reaches he).exists_answer hF S hp hq
  obtain rfl := Except.ok.inj (ha.symm.trans ha')
  exact .inl ⟨hx, hy⟩

/-- The conic engine answers with a point and its product or, at both of its exits without a point
    and without its solver, with the guess. -/
theorem Conic.keepsGraph {B : Conic.Backend ℝ} (hB : B.Shaped) (solver : Conic.Solver)
    {c : Conic.Cache ℝ} {p : Problem ℝ} (h : c.Intact p.design) :
    (Conic.engine B solver).KeepsGraph c p := by
  intro e he q hq a ha
  have he' := h.of_reaches he
  rw [← hq.design] at he' ⊢
  rcases he'.answer hB ha with ⟨hx, hy⟩ | rfl
  · exact .inl ⟨hx, hy⟩
  · exact .inr ⟨rfl, rfl⟩

/-! ### Problems -/

/-- The present vectors of the problem are on the graph of its matrix. -/
def Problem.OnGraph (p : Problem ℝ) : Prop := p.design.matrix.OnGraph p.x p.y

/-- What has become of a problem `p`: its matrix and its row terms are still there, everything has
    the right length, and its vectors are on the graph. -/
structure Problem.Remains (p p' : Problem ℝ) : Prop where
  /-- The matrix is the same. -/
  design : p'.design = p.design
  /-- The row terms are the same. -/
  rowTerms : p'.rowTerms = p.rowTerms
  /-- The problem is well formed. -/
  wellFormed : p'.WellFormed
  /-- Its vectors are on the graph. -/
  onGraph : p'.OnGraph

namespace Problem.Remains

variable {p p' : Problem ℝ}

/-- What it asks of an engine is about the problem, and its guess is on the graph. -/
theorem request (h : p.Remains p') :
    p'.request.IsAbout p ∧ p.design.matrix.OnGraph p'.request.x p'.request.y := by
  have hwidth : p'.width = p.width := congrArg (fun d => d.matrix.cols) h.design
  have hheight : p'.height = p.height := congrArg (fun d => d.matrix.height) h.design
  have hgraph := h.onGraph
  rw [Problem.OnGraph, h.design] at hgraph
  exact ⟨⟨h.design, h.rowTerms, h.wellFormed.colTerms.trans hwidth, h.wellFormed.x.trans hwidth,
    h.wellFormed.y.trans hheight⟩, hgraph⟩

/-- Vectors on the graph may be installed. -/
theorem install (h : p.Remains p') {x y : List ℝ} (hxy : p.design.matrix.OnGraph x y) :
    p.Remains { p' with x := x, y := y } := by
  have hgraph : p'.design.matrix.OnGraph x y := by
    rw [h.design]
    exact hxy
  refine ⟨h.design, h.rowTerms, ⟨h.wellFormed.observations, h.wellFormed.rowTerms,
    h.wellFormed.colTerms, hgraph.length, ?_⟩, hgraph⟩
  show y.length = p'.design.matrix.height
  rw [hgraph.product]
  exact p'.design.matrix.length_mulVec x

/-- The vectors may be forgotten. -/
theorem reset (h : p.Remains p') : p.Remains p'.reset := by
  refine h.install ?_
  rw [Problem.width, Problem.height, h.design]
  exact p.design.matrix.onGraph_zeros

/-- A step may pose its problem. -/
theorem pose {σ : Type} (h : p.Remains p') (plan : Path.Plan ℝ σ) {lam : ℝ} (hpos : 0 < lam) :
    p.Remains (plan.pose p' lam hpos) := by
  have hscaled : p.Remains { p' with colTerms := p'.colTerms.map fun t => t.withScale lam hpos } :=
    ⟨h.design, h.rowTerms, ⟨h.wellFormed.observations, h.wellFormed.rowTerms,
      (List.length_map _).trans h.wellFormed.colTerms, h.wellFormed.x, h.wellFormed.y⟩, h.onGraph⟩
  unfold Path.Plan.pose
  cases plan.config.warmStart with
  | true => exact hscaled
  | false => exact hscaled.reset

end Problem.Remains

namespace Path

variable {σ : Type}

/-! ### Walks -/

/-- What holds of a walk on what has become of `p`, with the record of its calls: its engine was
    asked about `p` only, its problem is still on the graph, and so was each guess. -/
structure OnGraph (E : Engine ℝ σ) (fresh : σ) (p : Problem ℝ)
    (w : Walk ℝ (σ × List (Request ℝ × Reply ℝ))) : Prop where
  /-- The engine has been asked about the problem only. -/
  reached : E.Reaches p fresh w.engine.1
  /-- The problem is still on the graph. -/
  remains : p.Remains w.problem
  /-- Every guess was on the graph. -/
  guesses : ∀ c ∈ w.engine.2, c.1.IsAbout p ∧ p.design.matrix.OnGraph c.1.x c.1.y

variable {E : Engine ℝ σ} {fresh e : σ} {p p' : Problem ℝ} {plan : Plan ℝ σ}
  {w w' : Walk ℝ (σ × List (Request ℝ × Reply ℝ))}

namespace OnGraph

/-- A call of the engine leaves the problem of the step, whose vectors are the guess. -/
theorem asked (h : OnGraph plan.engine fresh p w) {lam : ℝ} (hpos : 0 < lam) :
    OnGraph plan.engine fresh p (w.asked plan.recorded lam hpos) := by
  have hposed := h.remains.pose plan.recorded hpos
  refine ⟨.after h.reached hposed.request.1, hposed, fun c hc => ?_⟩
  rcases List.mem_append.1 hc with hc | hc
  · exact h.guesses c hc
  · rw [List.mem_singleton.1 hc]
    exact hposed.request

/-- A kept answer is on the graph, or it is a guess that was. -/
theorem keep (h : OnGraph plan.engine fresh p w) (hE : plan.engine.KeepsGraph fresh p) {lam : ℝ}
    (hpos : 0 < lam) {a : Solution ℝ} (ha : (w.reply plan.recorded lam hpos).outcome = .ok a)
    (i : ℕ) :
    OnGraph plan.engine fresh p
      ((w.asked plan.recorded lam hpos).keep plan.recorded i lam a) := by
  have hasked := h.asked hpos
  obtain ⟨habout, hguess⟩ := (h.remains.pose plan.recorded hpos).request
  have hanswer : p.design.matrix.OnGraph a.x a.y := by
    rcases hE w.engine.1 h.reached _ habout a ha with hgraph | ⟨hx, hy⟩
    · exact hgraph
    · rw [hx, hy]
      exact hguess
  refine ⟨?_, ?_, ?_⟩
  · rw [Walk.keep_engine]
    exact hasked.reached
  · rw [Walk.keep_problem]
    exact hasked.remains.install hanswer
  · rw [Walk.keep_engine]
    exact hasked.guesses

end OnGraph

/-- Every trail stays on the graph. -/
theorem Trail.onGraph {turns : List (Turn ℝ)} (h : Trail plan.recorded (e, []) p' turns w)
    (hE : plan.engine.KeepsGraph fresh p) (he : plan.engine.Reaches p fresh e)
    (hp : p.Remains p') : OnGraph plan.engine fresh p w := by
  induction h with
  | start => exact ⟨he, hp, fun c hc => by cases hc⟩
  | next hpos _ _ _ reply _ ih => exact ih.keep hE hpos reply _

/-- So does the end of the walk, also if it breaks off between a reset and an answer. -/
theorem Walk.Ends.onGraph (hends : Walk.Ends plan.recorded w w')
    (h : OnGraph plan.engine fresh p w) : OnGraph plan.engine fresh p w' := by
  cases hends with
  | last => exact h
  | halted running hhalt =>
    generalize w.step plan.recorded = w' at hhalt ⊢
    cases hhalt with
    | spent => exact ⟨h.reached, h.remains, h.guesses⟩
    | refused => exact ⟨h.reached, h.remains, h.guesses⟩
    | broken lam hpos =>
      have hasked := h.asked hpos
      exact ⟨hasked.reached, hasked.remains, hasked.guesses⟩

/-! ### Paths -/

/-- What holds after a path, and of all that went on in it. -/
structure Driver.OnGraph (s : Setup ℝ σ) (d : Driver ℝ σ) (fresh : σ) (p p' : Problem ℝ)
    (pinned : Option ℝ) : Prop where
  /-- The engine has been asked about the problem only. -/
  reached : s.engine.Reaches p fresh (d.run s p' pinned).driver.engine
  /-- The problem is still on the graph. -/
  remains : ∃ p'', (d.run s p' pinned).problem = some p'' ∧ p.Remains p''
  /-- Every guess was on the graph. -/
  guesses : ∀ c ∈ d.calls s p' pinned, c.1.IsAbout p ∧ p.design.matrix.OnGraph c.1.x c.1.y
  /-- So is the result, if there is one. -/
  result : ∀ r, (d.run s p' pinned).outcome = .ok r → p.design.matrix.OnGraph r.x r.y

/-- Every path on what has become of the problem stays on the graph. -/
theorem Driver.onGraph {s : Setup ℝ σ} {d : Driver ℝ σ} (hE : s.engine.KeepsGraph fresh p)
    (hd : s.engine.Reaches p fresh d.engine) (hp : p.Remains p') (pinned : Option ℝ) :
    Driver.OnGraph s d fresh p p' pinned := by
  cases hschedule : s.schedule? p' pinned with
  | none =>
    have hguesses : ∀ c ∈ d.calls s p' pinned,
        c.1.IsAbout p ∧ p.design.matrix.OnGraph c.1.x c.1.y := by
      rw [calls_of_none hschedule]
      exact fun c hc => by cases hc
    rcases run_of_none (d := d) hschedule with ⟨f, hf⟩ | ⟨top, -, -, htop⟩
    · refine ⟨?_, ⟨p', ?_, hp⟩, hguesses, fun r hr => ?_⟩
      · rw [hf]
        exact hd
      · rw [hf]
      · rw [hf] at hr
        cases hr
    · refine ⟨?_, ⟨p'.reset, ?_, hp.reset⟩, hguesses, fun r hr => ?_⟩
      · rw [htop]
        exact hd
      · rw [htop]
        rfl
      · rw [htop] at hr
        obtain rfl := Except.ok.inj hr
        exact hp.reset.request.2
  | some schedule =>
    obtain ⟨turns, w, htrail, hends⟩ :=
      Walk.finish_reaches (s.plan schedule).recorded (d.engine, []) p'
    have hfinish := hends.onGraph (htrail.onGraph hE hd hp)
    -- The path leaves what its walk with the record leaves.
    have hwalk := forget_walk s d p' schedule
    have hproblem : (d.walk s p' schedule).problem =
        ((Walk.start (d.engine, []) p').finish (s.plan schedule).recorded).problem := by
      rw [← hwalk]
      rfl
    refine ⟨?_, ⟨_, ?_, hfinish.remains⟩, ?_, fun r hr => ?_⟩
    · rw [run_of_schedule? hschedule, conclude_engine, ← hwalk]
      exact hfinish.reached
    · rw [run_of_schedule? hschedule, conclude_problem, hproblem]
    · rw [calls_of_schedule? hschedule]
      exact hfinish.guesses
    · rw [run_of_schedule? hschedule, conclude_ok] at hr
      obtain ⟨phase, lambdas, -, -, rfl⟩ := hr
      rw [hproblem]
      exact hfinish.remains.request.2

/-! ### Operations on one problem -/

/-- What can be done with a problem. -/
inductive Operation (α : Type) [Scalar α] where
  /-- A path on it, whose top may be given. -/
  | run (config : Config α) (elapsed : ℕ → α) (pinned : Option α)
  /-- Its vectors are forgotten. -/
  | reset

namespace Operation

variable {α : Type} [Scalar α] {τ : Type}

/-- The driver and the problem after an operation with an engine. -/
def perform (E : Engine α τ) (s : Driver α τ × Problem α) : Operation α → Driver α τ × Problem α
  | run config elapsed pinned =>
    let r := s.1.run ⟨config, E, elapsed⟩ s.2 pinned
    (r.driver, r.problem.getD s.2)
  | reset => (s.1, s.2.reset)

/-- The calls of the engine during an operation. -/
def calls (E : Engine α τ) (s : Driver α τ × Problem α) :
    Operation α → List (Request α × Reply α)
  | run config elapsed pinned => s.1.calls ⟨config, E, elapsed⟩ s.2 pinned
  | reset => []

/-- How an operation ends, if it is a path. -/
def outcome? (E : Engine α τ) (s : Driver α τ × Problem α) :
    Operation α → Option (Except (Fault α) (Result α))
  | run config elapsed pinned => some (s.1.run ⟨config, E, elapsed⟩ s.2 pinned).outcome
  | reset => none

/-- An operation stays on the graph of the matrix: the problem afterwards, whether a path returned or
    broke off, every guess that the engine was given, and the result, if there is one. -/
structure StaysOnGraph (E : Engine ℝ σ) (D : Design ℝ) (s : Driver ℝ σ × Problem ℝ)
    (o : Operation ℝ) : Prop where
  /-- The problem afterwards has the matrix, and its vectors are on the graph. -/
  problem : (o.perform E s).2.design = D ∧
    D.matrix.OnGraph (o.perform E s).2.x (o.perform E s).2.y
  /-- The engine is given the matrix, and every guess is on the graph. -/
  guess : ∀ c ∈ o.calls E s, c.1.design = D ∧ D.matrix.OnGraph c.1.x c.1.y
  /-- The result is on the graph. -/
  result : ∀ r, o.outcome? E s = some (.ok r) → D.matrix.OnGraph r.x r.y

variable {s : Driver ℝ σ × Problem ℝ}

/-- One operation on what has become of the problem stays on the graph, and leaves what has become of
    it with an engine that was asked about nothing else. -/
theorem onGraph (hE : E.KeepsGraph fresh p) (hengine : E.Reaches p fresh s.1.engine)
    (hp : p.Remains s.2) (o : Operation ℝ) :
    o.StaysOnGraph E p.design s ∧ E.Reaches p fresh (o.perform E s).1.engine ∧
      p.Remains (o.perform E s).2 := by
  cases o with
  | run config elapsed pinned =>
    have hrun := Driver.onGraph (s := ⟨config, E, elapsed⟩) hE hengine hp pinned
    obtain ⟨p'', hp'', hremains⟩ := hrun.remains
    have hproblem : (perform E s (.run config elapsed pinned)).2 = p'' := by
      show (s.1.run ⟨config, E, elapsed⟩ s.2 pinned).problem.getD s.2 = p''
      rw [hp'', Option.getD_some]
    refine ⟨⟨?_, fun c hc => ?_, fun r hr => ?_⟩, hrun.reached, ?_⟩
    · rw [hproblem]
      exact ⟨hremains.design, hremains.request.2⟩
    · obtain ⟨habout, hguess⟩ := hrun.guesses c hc
      exact ⟨habout.design, hguess⟩
    · exact hrun.result r (Option.some.inj hr)
    · rw [hproblem]
      exact hremains
  | reset =>
    refine ⟨⟨⟨hp.design, hp.reset.request.2⟩, fun c hc => ?_, fun r hr => ?_⟩, hengine, hp.reset⟩
    · cases hc
    · cases hr

/-- So do any number of operations. -/
theorem onGraph_foldl (hE : E.KeepsGraph fresh p) (hengine : E.Reaches p fresh s.1.engine)
    (hp : p.Remains s.2) (os : List (Operation ℝ)) :
    E.Reaches p fresh (os.foldl (perform E) s).1.engine ∧
      p.Remains (os.foldl (perform E) s).2 := by
  induction os generalizing s with
  | nil => exact ⟨hengine, hp⟩
  | cons o os ih =>
    obtain ⟨-, hengine', hp'⟩ := onGraph hE hengine hp o
    exact ih hengine' hp'

/-- With an engine that answers with a vector and its product, or gives the guess back, every
    operation on a problem stays on the graph, after any others, if the problem started there.  The
    splitting engine and the conic engine are of this kind. -/
theorem staysOnGraph (E : Engine ℝ σ) (d : Driver ℝ σ) {p : Problem ℝ} (hp : p.WellFormed)
    (hgraph : p.OnGraph) :
    (E.KeepsGraph d.engine p → ∀ (os : List (Operation ℝ)) (o : Operation ℝ),
      o.StaysOnGraph E p.design (os.foldl (perform E) (d, p))) ∧
      (∀ (F : Factorization ℝ) (S : Admm.Settings ℝ) (c : Admm.Cache ℝ), F.Exact →
        c.Intact F p.design → (Admm.engine F S).KeepsGraph c p) ∧
      ∀ (B : Conic.Backend ℝ) (solver : Conic.Solver) (c : Conic.Cache ℝ), B.Shaped →
        c.Intact p.design → (Conic.engine B solver).KeepsGraph c p := by
  refine ⟨fun hE os o => ?_, fun F S c hF hc => hc.keepsGraph hF S hp, fun B solver c hB hc =>
    Conic.keepsGraph hB solver hc⟩
  obtain ⟨hengine, hremains⟩ :=
    onGraph_foldl hE (s := (d, p)) .fresh ⟨rfl, rfl, hp, hgraph⟩ os
  exact (onGraph hE hengine hremains o).1

/-- The problem of a single number, with one on both sides of its matrix. -/
noncomputable def unitProblem : Problem ℝ := { briefProblem with x := [1], y := [1] }

/-- Its vectors are on the graph. -/
theorem unitProblem_onGraph : unitProblem.OnGraph :=
  ⟨rfl, (Admm.mulVec_identity_one 1).symm⟩

/-- With the splitting engine the path of this problem stays on the graph, after another one and a
    reset. -/
theorem staysOnGraph_unit :
    (Operation.run briefConfig (fun i => (i : ℝ)) none).StaysOnGraph
      (Admm.engine .elimination (.plain 0 1 le_rfl one_pos)) unitProblem.design
      (List.foldl (perform (Admm.engine .elimination (.plain 0 1 le_rfl one_pos)))
        (.new .empty, unitProblem) [.run briefConfig (fun i => (i : ℝ)) (some 1), .reset]) :=
  (staysOnGraph (Admm.engine .elimination (.plain 0 1 le_rfl one_pos)) (.new .empty)
    ⟨rfl, rfl, rfl, rfl, rfl⟩ unitProblem_onGraph).1
      ((Admm.Cache.intact_empty _ _).keepsGraph Factorization.elimination_exact _
        ⟨rfl, rfl, rfl, rfl, rfl⟩) _ _

end Operation

end Path

end RegPath
