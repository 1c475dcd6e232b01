import RegPath.Proofs.Path.Dialogue

namespace RegPath

/-!
# Fits

A fit is a path on the lasso of its matrix and observations.

* `Problem.ofLasso` — the problem of a fit;
* `Path.Driver.fit_outcome`, `Path.Driver.fitCalls` — a fit as a path on it;
* `GraphForm.withPenalty`, `Path.Plan.form_pose` — the problem that a step poses;
* `Path.Plan.form_pose_ofLasso`, `Path.Driver.form_of_call` — the problem of each step of a fit.
-/

variable {α : Type} [Scalar α] {σ : Type}

/-- An accepted layout is read as the matrix that it denotes. -/
theorem Csr.read_of_accepted {β : Type} {c : Csr β} (h : c.Accepted) :
    c.read = .ok (c.toRows h) := by
  have hflaw := c.flaw?_eq_none_iff.2 h
  unfold read
  split
  · rename_i flaw hsome
    rw [hflaw] at hsome
    cases hsome
  · rfl

/-- So it is when it is given as a form. -/
theorem MatrixForm.read_compressed {c : Csr α} (h : c.Accepted) :
    (MatrixForm.compressed c).read = .ok (c.toRows h) := by
  show c.read.mapError Fault.layout = _
  rw [Csr.read_of_accepted h]
  rfl

/-- The lasso on a matrix and observations, with zero starts. -/
def Problem.ofLasso (design : Design α) (b : List α) : Problem α where
  design := design
  observations := b
  rowTerms := Term.squaresAt b
  colTerms := Term.penalties design.matrix.cols
  x := Vec.zeros design.matrix.cols
  y := Vec.zeros design.matrix.height

/-- Observations of the right number make the lasso. -/
theorem Problem.lasso_eq {design : Design α} {b : List α} (hb : b.length = design.matrix.height) :
    Problem.lasso design b = .ok (.ofLasso design b) := by
  simp [lasso, make, ofLasso, hb]

/-- It is well formed. -/
theorem Problem.wellFormed_ofLasso {design : Design α} {b : List α}
    (hb : b.length = design.matrix.height) : (Problem.ofLasso design b).WellFormed :=
  Problem.wellFormed_of_make (Problem.lasso_eq hb)

/-- The problem in graph form with the scale `lam` on every column. -/
def GraphForm.withPenalty (P : GraphForm α) (lam : α) (h : 0 < lam) : GraphForm α :=
  { P with colTerms := P.colTerms.map fun t => t.withScale lam h }

namespace Path

/-- A step poses the problem with its penalty. -/
theorem Plan.form_pose (plan : Plan α σ) (p : Problem α) {lam : α} (h : 0 < lam) :
    (plan.pose p lam h).request.form = p.request.form.withPenalty lam h := by
  rw [Request.form, Problem.request, plan.pose_design, plan.pose_rowTerms, plan.pose_colTerms]
  rfl

/-- The problem of a step of a fit is the lasso with its penalty. -/
theorem Plan.form_pose_ofLasso (plan : Plan α σ) (key : Nat) (A : RowMatrix α) (b x y : List α)
    {lam : α} (h : 0 < lam) :
    (plan.pose { Problem.ofLasso ⟨key, A⟩ b with x := x, y := y } lam h).request.form =
      GraphForm.lasso A b lam h :=
  plan.form_pose _ h

namespace Driver

/-- The calls of a fit, each with its reply, in order. -/
def fitCalls (s : Setup α σ) (d : Driver α σ) (depth key : Nat) (form : MatrixForm α)
    (b : List α) : List (Request α × Reply α) :=
  (d.recorded.fit s.recorded depth key form b).driver.engine.2

/-- A fit returns what the path on its lasso does. -/
theorem fit_outcome (s : Setup α σ) (d : Driver α σ) (depth key : Nat) {form : MatrixForm α}
    {A : RowMatrix α} (hA : form.read = .ok A) {b : List α} (hb : b.length = A.height) :
    (d.fit s depth key form b).outcome = (d.run s (.ofLasso ⟨key, A⟩ b) none).outcome := by
  simp only [fit, fitBy, hA, fitLassoBy]
  rw [Problem.lasso_eq hb]
  rfl

/-- A fit makes the calls of the path on its lasso. -/
theorem fitCalls_eq (s : Setup α σ) (d : Driver α σ) (depth key : Nat) {form : MatrixForm α}
    {A : RowMatrix α} (hA : form.read = .ok A) {b : List α} (hb : b.length = A.height) :
    d.fitCalls s depth key form b = d.calls s (.ofLasso ⟨key, A⟩ b) none := by
  simp only [fitCalls, fit, fitBy, hA, fitLassoBy]
  rw [Problem.lasso_eq hb]
  rfl

/-- Observations of another number stop a fit before its path. -/
theorem fit_of_length_ne (s : Setup α σ) (d : Driver α σ) (depth key : Nat) {form : MatrixForm α}
    {A : RowMatrix α} (hA : form.read = .ok A) {b : List α} (hb : b.length ≠ A.height) :
    (d.fit s depth key form b).outcome = .error (.observationCount b.length A.height) ∧
      d.fitCalls s depth key form b = [] := by
  have hlasso : Problem.lasso ⟨key, A⟩ b = .error (.observationCount b.length A.height) := by
    rw [Problem.lasso, Problem.make]
    exact if_pos hb
  simp only [fitCalls, fit, fitBy, hA, fitLassoBy, hlasso]
  exact ⟨trivial, rfl⟩

/-- Each call of a path on a lasso poses the lasso with the penalty of its step. -/
theorem form_of_call {s : Setup α σ} {d : Driver α σ} {p : Problem α} {pinned : Option α}
    {A : RowMatrix α} {b : List α} (hp : (Problem.ofLasso ⟨0, A⟩ b).SameData p) {i : Nat}
    {c : Request α × Reply α} (hc : (d.calls s p pinned)[i]? = some c) :
    ∃ lam h, s.penalty? p pinned i = some lam ∧ c.1.form = GraphForm.lasso A b lam h := by
  obtain ⟨schedule, hschedule, lam, x, y, hasked⟩ := exists_askedAt hc
  obtain ⟨hpos, hrequest⟩ := hasked.request
  refine ⟨lam, hpos, (penalty?_of_schedule? hschedule i).trans hasked.asks.entry, ?_⟩
  rw [hrequest, Request.form, Problem.request, Plan.pose_design, Plan.pose_rowTerms,
    Plan.pose_colTerms, hp.matrix, hp.rowTerms, withScale_eq_of_map_eq hpos hp.kinds hp.offsets]
  rfl

end Driver

end Path

end RegPath
