import RegPath.Proofs.Path.Outcome
import RegPath.Proofs.Splitting.Energy
import RegPath.Proofs.Splitting.Similar

namespace RegPath

/-!
# Splitting engines serve

An engine with an exact solver answers every request that fits together, as long as it holds nothing
wrong for the matrix.  In exact arithmetic the answer is on the graph of the matrix, and the only
way not to succeed is to reach the cap on the iterations.

* `Admm.Task.status_run` — how a run ends;
* `Admm.StartsAt` — the vectors that a guess stands for;
* `Admm.Cache.Intact.exists_task` — a call of an intact engine is a run of an exact task;
* `Admm.Cache.Intact.of_reaches` — requests about a problem leave the engine intact for it;
* `Admm.Cache.Intact.exists_answer` — each is answered;
* `Admm.Cache.Intact.servesFrom` — the engine serves the problem.
-/

namespace Admm

/-- In exact arithmetic a run succeeds or reaches its cap. -/
theorem Task.status_run (t : Task ℝ) (x y : List ℝ) :
    (t.run x y).status = .success ∨ (t.run x y).status = .maxIter := by
  obtain ⟨hends, -, -⟩ := t.run_ends x y
  rcases hends.exit with hexit | ⟨-, hstatus, -⟩
  · rcases t.settings.verdict?_real t.kernel.matrix.height t.kernel.matrix.cols
      (t.next^[(t.run x y).iterations] (.start x y)) with hsuccess | ⟨hnone, -⟩
    · exact .inl (Option.some.inj (hexit.symm.trans hsuccess))
    · exact absurd (hexit.symm.trans hnone) (by simp)
  · exact .inr hstatus

/-- The task that a call of the engine works on. -/
structure Cache.Poses (F : Factorization ℝ) (S : Settings ℝ) (c : Cache ℝ) (q : Request ℝ)
    (t : Task ℝ) : Prop where
  /-- The settings are those of the engine. -/
  settings : t.settings = S
  /-- The engine has or makes the kernel. -/
  kernel : (c.prepare F q.design).1 = .ok t.kernel
  /-- The terms of the rows are asked for. -/
  rowTerms : t.rowTerms = q.rowTerms
  /-- The terms of the columns are asked for. -/
  colTerms : t.colTerms = q.colTerms

/-- A request with a term for each row and each column, whose guess stands for `x` and `y`: a single
    entry of the guess stands for all of them. -/
structure StartsAt {α : Type} [Scalar α] (q : Request α) (x y : List α) : Prop where
  /-- One term for each row. -/
  rowTerms : q.rowTerms.length = q.height
  /-- One term for each column. -/
  colTerms : q.colTerms.length = q.width
  /-- What the guess at the columns stands for. -/
  guess_x : guess? q.width q.x = some x
  /-- One entry for each column. -/
  length_x : x.length = q.width
  /-- What the guess at the rows stands for. -/
  guess_y : guess? q.height q.y = some y
  /-- One entry for each row. -/
  length_y : y.length = q.height

/-- A request that fits together starts at its own guess. -/
theorem startsAt_of_fits {α : Type} [Scalar α] {q : Request α} (h : q.Fits) :
    StartsAt q q.x q.y :=
  ⟨h.rowTerms, h.colTerms, guess?_of_length h.x, h.x, guess?_of_length h.y, h.y⟩

/-- Such a request passes the checks. -/
theorem StartsAt.judge {α : Type} [Scalar α] {q : Request α} {x y : List α} (h : StartsAt q x y)
    {k : Kernel α} (hk : k.Fits) : judge k q = .ok (x, y) := by
  have hservesCols : Term.Serves q.colTerms x.length := .inr (h.colTerms.trans h.length_x.symm)
  have hservesRows : Term.Serves q.rowTerms y.length := .inr (h.rowTerms.trans h.length_y.symm)
  simp only [Admm.judge, h.guess_x, h.guess_y, not_true, hservesCols, hservesRows, if_false]
  rw [if_pos ⟨h.length_x, h.length_y, hk⟩]

/-- All four shapes on two numbers, from a guess off the graph whose one entry for the columns stands
    for both of them. -/
noncomputable def mixed : Request ℝ where
  design := ⟨0, RowMatrix.identity 2⟩
  rowTerms := [.unit .square 1, .unit .nonneg 0]
  colTerms := [.unit .zero 1, .unit .abs 1]
  x := [1]
  y := [0, 1]

/-- Where the iteration for it starts. -/
theorem startsAt_mixed : StartsAt mixed [1, 1] [0, 1] := ⟨rfl, rfl, rfl, rfl, rfl, rfl⟩

namespace Cache.Intact

variable {F : Factorization ℝ} {S : Settings ℝ} {c e : Cache ℝ} {p : Problem ℝ} {q : Request ℝ}
  {x y : List ℝ}

/-- An intact engine works with the kernel that a fresh one would make. -/
theorem prepare_eq {d : Design ℝ} (h : c.Intact F d) :
    (c.prepare F d).1 = ((Cache.empty : Cache ℝ).prepare F d).1 := by
  have hempty : (Cache.empty : Cache ℝ).factored = none := rfl
  cases hheld : c.factored.filter fun e => e.1 = d.key with
  | none =>
    simp only [Cache.prepare, hheld, hempty, Option.filter_none]
    split <;> rfl
  | some e =>
    obtain ⟨hfactored, hkey⟩ := Option.filter_eq_some_iff.1 hheld
    have hown : c.factored = some (d.key, e.2) := by
      rw [hfactored, ← of_decide_eq_true hkey]
    obtain ⟨htranspose, hsolver⟩ := h e.2 hown
    simp only [Cache.prepare, hheld, hempty, Option.filter_none, htranspose, hsolver]

/-- A request is answered by the run of an exact task from the vectors that its guess stands for. -/
theorem exists_task_from (h : c.Intact F q.design) (hF : F.Exact) (S : Settings ℝ)
    (hq : StartsAt q x y) :
    ∃ t, c.Poses F S q t ∧ t.Exact ∧ t.form = q.form ∧ t.Shaped (.start x y) ∧
      ((engine F S).solve c q).1.outcome = .ok (t.run x y) := by
  obtain ⟨k, hprepare, hmatrix, hexact, hform⟩ := exists_exact_task hF S hq.rowTerms hq.colTerms
  have hown := h.prepare_eq.trans hprepare
  refine ⟨_, ⟨rfl, hown, rfl, rfl⟩, hexact, hform, ?_,
    solve_of_judge S hown (hq.judge hexact.kernel.fits)⟩
  refine Task.shaped_start ?_ ?_
  · rw [hq.length_x, hmatrix]
    rfl
  · rw [hq.length_y, hmatrix]
    rfl

/-- A request that fits together is answered by the run of an exact task. -/
theorem exists_task (h : c.Intact F q.design) (hF : F.Exact) (S : Settings ℝ) (hq : q.Fits) :
    ∃ t, c.Poses F S q t ∧ t.Exact ∧ t.form = q.form ∧
      ((engine F S).solve c q).1.outcome = .ok (t.run q.x q.y) := by
  obtain ⟨t, hposes, hexact, hform, -, hanswer⟩ := h.exists_task_from hF S (startsAt_of_fits hq)
  exact ⟨t, hposes, hexact, hform, hanswer⟩

/-- Requests about a problem leave the engine intact for its matrix. -/
theorem of_reaches (h : c.Intact F p.design) (he : (engine F S).Reaches p c e) :
    e.Intact F p.design := by
  induction he with
  | fresh => exact h
  | after _ hq ih =>
    rw [← hq.design] at ih ⊢
    exact ih.solve S

/-- A request about a well-formed problem is answered with a vector and its product, after success
    or at the cap. -/
theorem exists_answer (h : c.Intact F p.design) (hF : F.Exact) (S : Settings ℝ)
    (hp : p.WellFormed) (hq : q.IsAbout p) :
    ∃ a, ((engine F S).solve c q).1.outcome = .ok a ∧ a.x.length = p.width ∧
      a.y = p.design.matrix.mulVec a.x ∧ (a.status = .success ∨ a.status = .maxIter) := by
  have hfits := hq.fits hp
  rw [← hq.design] at h
  obtain ⟨t, -, hexact, hform, hanswer⟩ := h.exists_task hF S hfits
  have hmatrix : t.kernel.matrix = q.design.matrix := congrArg GraphForm.matrix hform
  have hlength := hexact.length_run (hfits.x.trans (congrArg RowMatrix.cols hmatrix.symm))
    (hfits.y.trans (congrArg RowMatrix.height hmatrix.symm))
  obtain ⟨-, -, hproduct⟩ := t.run_ends q.x q.y
  refine ⟨_, hanswer, ?_, ?_, Task.status_run _ _ _⟩
  · rw [hlength, hmatrix, ← hq.width]
    rfl
  · rw [hproduct, hmatrix, hq.design]

/-- With an exact solver an intact engine serves every well-formed problem. -/
theorem servesFrom (h : c.Intact F p.design) (hF : F.Exact) (S : Settings ℝ) (hp : p.WellFormed) :
    (engine F S).ServesFrom c p := by
  intro e he q hq
  obtain ⟨a, ha, hx, hy, -⟩ := (h.of_reaches he).exists_answer hF S hp hq
  refine ⟨a, ha, hx, ?_⟩
  rw [hy]
  exact p.design.matrix.length_mulVec _

end Cache.Intact

end Admm

end RegPath
