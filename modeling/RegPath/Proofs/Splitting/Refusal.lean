import RegPath.Proofs.Splitting.Reuse

namespace RegPath

/-!
# Splitting engines after a refusal

A matrix that cannot be factored leaves its transpose beside the factor that the engine holds.  The
next call for the object of the factor works with both, and returns something else than a fresh
engine.  Any other call, and every call after the next matrix that is factored, is as it should be.

* `Factorization.upTo` — a factorization that refuses some systems;
* `Admm.reused_serve` — the next call after any others;
* `Admm.not_forall_fresh_outcome` — it need not return what a fresh engine returns.
-/

/-- The factorization that refuses systems with a diagonal entry above the limit. -/
def Factorization.upTo {α : Type} [Scalar α] (F : Factorization α) (limit : α) :
    Factorization α where
  solver? t := if t.any fun r => decide (limit < r.1) then none else F.solver? t

namespace Admm

/-! ### The number two is refused -/

/-- The factorization that factors the number one but not the number two. -/
noncomputable def narrow : Factorization ℝ := Factorization.elimination.upTo (1 + 1)

/-- The factor of the number one. -/
theorem narrow_one : narrow.solver? one.matrix.normalTriangle =
    some (Factor.solve [⟨0, 1 + 1, [], []⟩]) := by
  simp [narrow, Factorization.upTo, one, RowMatrix.identity, RowMatrix.normalTriangle,
    RowMatrix.column, RowMatrix.columnDot, RowMatrix.storedAt, Factorization.elimination,
    Triangle.rows, Factor.ofRows?, Factor.largest?]

/-- The number two has none. -/
theorem narrow_two : narrow.solver? two.matrix.normalTriangle = none := by
  simp [narrow, Factorization.upTo, two, RowMatrix.normalTriangle, RowMatrix.column,
    RowMatrix.columnDot, RowMatrix.storedAt]
  norm_num

/-- After calls for both, the number one is the last that was factored. -/
theorem lastFactored_narrow (S : Settings ℝ) :
    lastFactored ((engine narrow S).serve .empty [centred one 2]).2 = some one ∧
      lastFactored ((engine narrow S).serve .empty [centred one 2, centred two 2]).2 =
        some one := by
  have hfirst : lastFactored ((engine narrow S).serve .empty ([] ++ [centred one 2])).2 =
      some one := by
    rw [Engine.serve_concat, lastFactored, lastDesign_concat, if_pos]
    · rfl
    · exact (factored_iff narrow S _ _).2 ⟨by rintro solve ⟨⟩, by simp [centred, narrow_one]⟩
  refine ⟨hfirst, ?_⟩
  show lastFactored ((engine narrow S).serve .empty ([centred one 2] ++ [centred two 2])).2 = _
  rw [Engine.serve_concat, lastFactored, lastDesign_concat, if_neg]
  · exact hfirst
  · rw [factored_iff]
    simp [centred, narrow_two]

/-- The number two is the last that was to be factored. -/
theorem lastTried_narrow (S : Settings ℝ) :
    lastTried ((engine narrow S).serve .empty [centred one 2, centred two 2]).2 = some two := by
  show lastTried ((engine narrow S).serve .empty ([centred one 2] ++ [centred two 2])).2 = _
  rw [Engine.serve_concat, lastTried, lastDesign_concat, if_pos]
  · rfl
  · rw [Bool.or_eq_true]
    refine .inr ((refused_iff narrow S _ _).2 ⟨?_, narrow_two⟩)
    -- The factor that is held belongs to the number one.
    obtain ⟨solve, -, hfactored⟩ :=
      (follows_serve narrow S [centred one 2]).factor one (lastFactored_narrow S).1
    rw [hfactored]
    rintro solve' ⟨⟩

/-- The kernel for the number one with the transpose of the matrix `d`. -/
noncomputable def oneWith (d : Design ℝ) : Kernel ℝ :=
  ⟨one.matrix, d.matrix.transpose, Factor.solve [⟨0, 1 + 1, [], []⟩]⟩

/-- With the transpose of the number two a round leaves the solution of the problem
    `(y - 2)² / 2 + |x - 2|`. -/
theorem next_oneWith_two (S : Settings ℝ) :
    (Task.mk S (oneWith two) [.unit .square 2] [.unit .abs 2]).next (.start [2] [2]) =
      ⟨[3], [3], [-1], [-1], [2], [2], [2], [2]⟩ := by
  have hrho : 1 + S.rho ≠ 0 := by linarith [S.rho_pos_real]
  have hsquare := prox_square_offset 2 hrho
  have habs := prox_abs_offset 2 S.rho
  simp [oneWith, one, two, Task.next, Iterate.next, Iterate.start, Kernel.project, Term.proxAll,
    hsquare, habs, Vec.zeros, Vec.sub, Vec.add, Factor.solve, addStretched, RowMatrix.identity,
    RowMatrix.transpose, RowMatrix.column, RowMatrix.mulVec, RowMatrix.rowDot, Factor.timesEntry]
  norm_num

/-- The kernel of a call that has the factor of the number one. -/
theorem answer_oneWith (d : Design ℝ) (S : Settings ℝ) (hfits : (oneWith d).Fits) :
    answer S (oneWith d) (centred one 2) =
      .ok (Task.run ⟨S, oneWith d, [.unit .square 2], [.unit .abs 2]⟩ [2] [2]) := by
  have hjudge : judge (oneWith d) (centred one 2) = .ok ([2], [2]) :=
    judge_of_length hfits rfl rfl rfl rfl
  rw [answer, hjudge]
  rfl

/-- After the refusal the solution of the problem is not recognised: the cap is reached. -/
theorem answer_oneWith_two :
    answer (.plain 0 1 le_rfl one_pos) (oneWith two) (centred one 2) =
      .ok ⟨[2], [2], .maxIter, 1⟩ := by
  -- The projection has moved away from the proximal point, so there is a residual.
  have hverdict : (Task.mk (.plain 0 1 le_rfl one_pos) (oneWith two) [.unit .square 2]
      [.unit .abs 2]).verdict? ⟨[3], [3], [-1], [-1], [2], [2], [2], [2]⟩ = none := by
    refine Settings.verdict?_eq_none.2 ⟨⟨Scalar.isFinite_real _, Scalar.isFinite_real _⟩, ?_⟩
    rintro ⟨hprimal, -⟩
    simp [Iterate.primal, Settings.primalBound, Settings.absPart, Settings.plain, Vec.pairNorm,
      Vec.sumSquares, Vec.sub] at hprimal
    norm_num at hprimal
    exact absurd hprimal (not_le.2 (Real.sqrt_pos.2 two_pos))
  rw [answer_oneWith two _ ⟨rfl, .inl rfl⟩, Task.run, show Settings.maxIter _ = 1 from rfl,
    Task.iterate]
  simp only [next_oneWith_two, hverdict, Task.iterate]
  simp [oneWith, one, RowMatrix.identity, RowMatrix.mulVec, RowMatrix.rowDot]

/-- A fresh engine solves it in one round. -/
theorem answer_oneWith_one :
    answer (.plain 0 1 le_rfl one_pos) (oneWith one) (centred one 2) =
      .ok ⟨[2], [2], .success, 1⟩ := by
  rw [← solve_centred, solve_single, answer_oneWith one _ ⟨rfl, .inl rfl⟩]
  rfl

/-- The next call of an engine that has had any calls, some of which may have failed because their
    matrix could not be factored.  It returns what a fresh engine returns, but for one case: it is
    for the object that was factored last, and the last matrix that was to be factored was refused.
    Then it works with the transpose of that matrix in place of its own. -/
theorem reused_serve {α : Type} [Scalar α] (F : Factorization α) (S : Settings α)
    {qs : List (Request α)} {q : Request α} (hobjects : SameObjects (qs ++ [q])) :
    Reused F S ((engine F S).serve .empty qs).2 ((engine F S).serve .empty qs).1 q :=
  (follows_serve F S qs).reused S hobjects.serve

/-- After a call for the number one and a refusal of the number two the next call for the number one
    works with the transpose of the number two. -/
theorem reused_serve_narrow :
    SameObjects ([centred one 2, centred two 2] ++ [centred one 2]) ∧
      Reused narrow (.plain 0 1 le_rfl one_pos)
        ((engine narrow (.plain 0 1 le_rfl one_pos)).serve .empty [centred one 2, centred two 2]).2
        ((engine narrow (.plain 0 1 le_rfl one_pos)).serve .empty [centred one 2, centred two 2]).1
        (centred one 2) := by
  have hobjects : SameObjects ([centred one 2, centred two 2] ++ [centred one 2]) :=
    sameObjects_of_one_or_two (by simp [centred])
  exact ⟨hobjects, reused_serve narrow _ hobjects⟩

/-- After a refusal the next call need not return what a fresh engine returns. -/
theorem not_forall_fresh_outcome :
    ¬ ∀ (F : Factorization ℝ) (S : Settings ℝ) (qs : List (Request ℝ)) (q : Request ℝ)
      (s : Solution ℝ), SameObjects (qs ++ [q]) →
        ((engine F S).solve ((engine F S).serve .empty qs).1 q).1.outcome = .ok s →
          ((engine F S).solve .empty q).1.outcome = .ok s := by
  intro hclaim
  let S : Settings ℝ := .plain 0 1 le_rfl one_pos
  have hobjects : SameObjects ([centred one 2, centred two 2] ++ [centred one 2]) :=
    sameObjects_of_one_or_two (by simp [centred])
  obtain ⟨solve, hsolver, hstale, hfresh⟩ :=
    ((follows_serve narrow S _).reused S hobjects.serve).held one two (lastFactored_narrow S).2 rfl
      (lastTried_narrow S)
  obtain rfl := Option.some.inj (narrow_one.symm.trans hsolver)
  have hsame := hclaim narrow S _ _ _ hobjects (hstale.trans answer_oneWith_two)
  cases (hfresh.trans answer_oneWith_one).symm.trans hsame

end Admm

end RegPath
