import RegPath.Proofs.Matrix.SameEntries
import RegPath.Proofs.Splitting.Reuse

namespace RegPath

/-!
# The splitting does not see how a matrix is stored

A run of the splitting uses its matrix through two products, a solver and the shape.  Matrices with
the same entries have the same products and the same normal system, so that whatever solves that
system, exactly or not, leads to the same rounds.

* `Admm.Kernel.Alike`, `Admm.Task.run_of_alike` — kernels that a run cannot tell apart;
* `Admm.freshAnswer_of_sameEntries` — calls for matrices with the same entries;
* `Admm.Cache.Intact` — engines that have not been left with a transpose of another matrix.
-/

namespace Admm

/-! ### Runs -/

/-- The kernels have the same shape, the same products and the same solver. -/
structure Kernel.Alike {α : Type} [Scalar α] (k k' : Kernel α) : Prop where
  /-- The same number of rows. -/
  height : k'.matrix.height = k.matrix.height
  /-- The same number of columns. -/
  cols : k'.matrix.cols = k.matrix.cols
  /-- The same products with the matrix. -/
  mulVec : ∀ x, k'.matrix.mulVec x = k.matrix.mulVec x
  /-- The same products with its transpose. -/
  transpose : ∀ y, k'.transpose.mulVec y = k.transpose.mulVec y
  /-- The same solver. -/
  solve : k'.solve = k.solve

section Runs

variable {α : Type} [Scalar α] {S : Settings α} {k k' : Kernel α} {f g : List (Term α)}

/-- Both project to the same point. -/
theorem Kernel.Alike.project_eq (h : k.Alike k') (c d : List α) :
    k'.project c d = k.project c d := by
  simp only [project, h.transpose, h.solve, h.mulVec]

/-- Both make the same round. -/
theorem Task.next_of_alike (h : k.Alike k') (s : Iterate α) :
    Task.next ⟨S, k', f, g⟩ s = Task.next ⟨S, k, f, g⟩ s := by
  simp only [next, Iterate.next, h.project_eq]

/-- All rounds are the same, and so is the last one. -/
theorem Task.iterate_of_alike (h : k.Alike k') (s : Iterate α) (done fuel : ℕ) :
    Task.iterate ⟨S, k', f, g⟩ s done fuel = Task.iterate ⟨S, k, f, g⟩ s done fuel := by
  have hverdict : ∀ s, Task.verdict? ⟨S, k', f, g⟩ s = Task.verdict? ⟨S, k, f, g⟩ s := by
    intro s
    rw [verdict?, verdict?, h.height, h.cols]
  induction fuel generalizing s done with
  | zero => rfl
  | succ fuel ih =>
    rw [iterate, iterate]
    simp only [next_of_alike h, hverdict, ih]

/-- Both runs return the same. -/
theorem Task.run_of_alike (h : k.Alike k') (x y : List α) :
    Task.run ⟨S, k', f, g⟩ x y = Task.run ⟨S, k, f, g⟩ x y := by
  unfold run
  simp only [iterate_of_alike h, h.mulVec]

end Runs

/-! ### Calls -/

/-- The kernels of matrices with the same entries are alike. -/
theorem Kernel.alike_of_sameEntries {A A' : RowMatrix ℝ} (h : A.SameEntries A')
    (solve : List ℝ → List ℝ) :
    Kernel.Alike ⟨A, A.transpose, solve⟩ ⟨A', A'.transpose, solve⟩ :=
  ⟨h.height, h.cols, h.mulVec_eq, h.transpose_mulVec_eq, rfl⟩

/-- A matrix can be served by its own transpose. -/
theorem Kernel.fits_transpose {α : Type} (A : RowMatrix α) (solve : List α → List α) :
    Kernel.Fits ⟨A, A.transpose, solve⟩ :=
  ⟨A.cols_transpose, .inl A.height_transpose⟩

/-- What a call returns that has its matrix factored does not depend on how the matrix is stored, nor
    on the object that it is. -/
theorem freshAnswer_of_sameEntries (F : Factorization ℝ) (S : Settings ℝ) {q : Request ℝ}
    {d' : Design ℝ} (h : q.design.matrix.SameEntries d'.matrix) :
    freshAnswer F S { q with design := d' } = freshAnswer F S q := by
  unfold freshAnswer
  rw [show d'.matrix.normalTriangle = q.design.matrix.normalTriangle from h.normalTriangle_eq]
  cases F.solver? q.design.matrix.normalTriangle with
  | none => rfl
  | some solve =>
    have hjudge : judge ⟨d'.matrix, d'.matrix.transpose, solve⟩ { q with design := d' } =
        judge ⟨q.design.matrix, q.design.matrix.transpose, solve⟩ q := by
      have hwidth : Request.width { q with design := d' } = q.width := h.cols
      have hheight : Request.height { q with design := d' } = q.height := h.height
      simp only [judge, hwidth, hheight, Kernel.fits_transpose]
    simp only [Option.elim_some, answer, hjudge]
    congr 1
    funext guess
    exact Task.run_of_alike (Kernel.alike_of_sameEntries h solve) guess.1 guess.2

/-! ### Engines that have been used -/

section Intact

variable {α : Type} [Scalar α] {F : Factorization α} {S : Settings α} {c c' : Cache α}
  {q : Request α} {r : Reply α}

/-- If the cache holds a factor for the object, it is the one that a fresh engine would make, and the
    transpose beside it belongs to the object as well. -/
def Cache.Intact (F : Factorization α) (c : Cache α) (d : Design α) : Prop :=
  ∀ solve, c.factored = some (d.key, solve) →
    c.transpose = d.matrix.transpose ∧ F.solver? d.matrix.normalTriangle = some solve

/-- A fresh engine is intact. -/
theorem Cache.intact_empty (F : Factorization α) (d : Design α) : Cache.empty.Intact F d := by
  intro solve h
  cases h

/-- So is one that has served other calls, none of which was refused last. -/
theorem Cache.Follows.intact {record : List (Request α × Reply α)} {d : Design α}
    (h : c.Follows F record) (htried : lastTried record = lastFactored record)
    (hobjects : ∀ call ∈ record, call.1.design.key = d.key → call.1.design.matrix = d.matrix) :
    c.Intact F d := by
  intro solve hheld
  obtain ⟨t, hlast, -, hmatrix, hsolver⟩ :=
    h.exists_of_held (q := ⟨d, [], [], [], []⟩) hheld hobjects
  exact ⟨by rw [h.transpose t (htried.trans hlast), hmatrix], hsolver⟩

/-- With an exact solver no matrix is refused, so that an engine is intact whatever it has served, as
    long as the object was always the same matrix. -/
theorem Cache.intact_serve {F : Factorization ℝ} (hF : F.Exact) (S : Settings ℝ)
    (qs : List (Request ℝ)) (d : Design ℝ)
    (hobjects : ∀ q ∈ qs, q.design.key = d.key → q.design.matrix = d.matrix) :
    ((engine F S).serve .empty qs).1.Intact F d := by
  refine (follows_serve F S qs).intact (lastTried_eq_lastFactored fun call hcall => ?_)
    fun call hcall => hobjects call.1 (mem_of_mem_serve hcall)
  rw [Bool.eq_false_iff]
  intro hrefused
  obtain ⟨solve, hsolve, -⟩ := call.1.design.matrix.solve_normal hF
  rw [solver?_of_refused F S qs hcall hrefused] at hsolve
  cases hsolve

/-- What a call of an intact engine returns: its state has no part in it. -/
theorem Cache.Intact.outcome (h : c.Intact F q.design) (S : Settings α) :
    ((engine F S).solve c q).1.outcome = freshAnswer F S q := by
  by_cases hheld : ∃ solve, c.factored = some (q.design.key, solve)
  · obtain ⟨solve, hheld⟩ := hheld
    obtain ⟨htranspose, hsolver⟩ := h solve hheld
    rw [outcome_of_held S hheld, htranspose, freshAnswer, hsolver, Option.elim_some]
  · exact outcome_of_not_held S fun solve hsolve => hheld ⟨solve, hsolve⟩

/-- A call leaves the engine intact for its object. -/
theorem Cache.Intact.called (h : c.Intact F q.design) (hcall : Called F S c q r c') :
    c'.Intact F q.design := by
  cases hcall with
  | held => exact h
  | factored hkey hsolver =>
    rintro solve ⟨⟩
    exact ⟨rfl, hsolver⟩
  | refused hkey => exact fun solve hsolve => absurd hsolve (hkey solve)

/-- It is intact after the call. -/
theorem Cache.Intact.solve (h : c.Intact F q.design) (S : Settings α) :
    ((engine F S).solve c q).2.Intact F q.design :=
  h.called (engine_called F S c q)

end Intact

end Admm

end RegPath
