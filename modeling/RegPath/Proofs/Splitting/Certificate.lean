import RegPath.Proofs.Conic.Objective
import RegPath.Proofs.Splitting.Service

namespace RegPath

/-!
# What the tolerances of the splitting buy

Whatever the guess, the terms at the proximal pair of a round exceed those at any point of the graph
by no more than a slack: the length of the duals times the primal residual, in units of the penalty
parameter, and the dual residual times the distance of the proximal pair from the point.  A success
bounds both residuals by the thresholds of its round.

* `GraphForm.splitValue` — the sum of all terms at a pair, infinite where a half-line fails;
* `Admm.slack`, `Admm.Certified` — how far the proximal pair may be above the points of the graph;
* `Admm.Task.Exact.certified_next` — every round in exact arithmetic;
* `Admm.certified_solve` — the rounds of a call of the engine, and its success.
-/

/-! ### Terms at a pair -/

/-- The sum of the column terms at `x` and of the row terms at `y`, infinite if one of them is. -/
noncomputable def GraphForm.splitValue (P : GraphForm ℝ) (x y : List ℝ) : WithTop ℝ :=
  (List.zipWith (fun t a => extended (t.value? a)) P.rowTerms y).sum +
    (List.zipWith (fun t a => extended (t.value? a)) P.colTerms x).sum

namespace GraphForm

variable {P : GraphForm ℝ} {x y : List ℝ}

/-- On the graph it is the objective. -/
theorem splitValue_mulVec (P : GraphForm ℝ) (x : List ℝ) :
    P.splitValue x (P.matrix.mulVec x) = extended (P.value? x) :=
  (P.extended_value x).symm

/-- Where no term is infinite it is the sum of the costs. -/
theorem splitValue_of_admits (hcols : Term.AllAdmit P.colTerms x)
    (hrows : Term.AllAdmit P.rowTerms y) : P.splitValue x y = (P.splitCost x y : WithTop ℝ) := by
  rw [splitValue, Term.sum_extended, Term.sum_extended, if_pos hcols, if_pos hrows]
  rfl

/-- At a point that some term does not admit the objective is infinite. -/
theorem splitValue_of_not_admits (h : ¬ P.Admits x) : P.splitValue x (P.matrix.mulVec x) = ⊤ := by
  rw [splitValue_mulVec, value?, if_neg h]
  rfl

end GraphForm

/-- The length of a pair is not negative. -/
theorem Vec.pairNorm_nonneg (x y : List ℝ) : 0 ≤ pairNorm x y := Real.sqrt_nonneg _

namespace Admm

/-! ### Slack -/

/-- How far the proximal pair of a round may be above the point `z` of the graph, for bounds on the
    two residuals. -/
noncomputable def slack (A : RowMatrix ℝ) (rho : ℝ) (s : Iterate ℝ) (primal dual : ℝ)
    (z : List ℝ) : ℝ :=
  rho * Vec.pairNorm s.xDual s.yDual * primal +
    dual * Vec.pairNorm (Vec.sub s.xHalf z) (Vec.sub s.yHalf (A.mulVec z))

/-- The terms at the proximal pair are finite, and at no point of the graph are they below that by
    more than the slack for the given bounds on the residuals. -/
structure Certified (P : GraphForm ℝ) (rho : ℝ) (s : Iterate ℝ) (primal dual : ℝ) : Prop where
  /-- The terms at the proximal pair are finite. -/
  finite : P.splitValue s.xHalf s.yHalf ≠ ⊤
  /-- No point of the graph is better by more than the slack. -/
  le : ∀ z : List ℝ, z.length = P.matrix.cols → P.splitValue s.xHalf s.yHalf ≤
    P.splitValue z (P.matrix.mulVec z) + (slack P.matrix rho s primal dual z : WithTop ℝ)

/-- Larger bounds on the residuals only give more slack. -/
theorem Certified.mono {P : GraphForm ℝ} {rho primal primal' dual dual' : ℝ} {s : Iterate ℝ}
    (h : Certified P rho s primal dual) (hrho : 0 ≤ rho) (hprimal : primal ≤ primal')
    (hdual : dual ≤ dual') : Certified P rho s primal' dual' := by
  refine ⟨h.finite, fun z hz => le_trans (h.le z hz) ?_⟩
  have hslack : slack P.matrix rho s primal dual z ≤ slack P.matrix rho s primal' dual' z := by
    have hduals := mul_nonneg hrho (Vec.pairNorm_nonneg s.xDual s.yDual)
    have hapart := Vec.pairNorm_nonneg (Vec.sub s.xHalf z) (Vec.sub s.yHalf (P.matrix.mulVec z))
    exact add_le_add (mul_le_mul_of_nonneg_left hprimal hduals)
      (mul_le_mul_of_nonneg_right hdual hapart)
  exact add_le_add_right (WithTop.coe_le_coe.2 hslack) _

namespace Task

variable {t : Task ℝ} {s : Iterate ℝ}

/-! ### Rounds -/

/-- The slack of a round in the space of pairs. -/
theorem Exact.slack_eq (ht : t.Exact) (hs : t.Shaped s) (primal dual : ℝ) {z : List ℝ}
    (hz : z.length = t.kernel.matrix.cols) :
    slack t.kernel.matrix t.settings.rho (t.next s) primal dual z =
      t.settings.rho * ‖t.dualPoint (t.next s)‖ * primal +
        dual * ‖t.halfPoint (t.next s) - Vec.joint _ _ z (t.kernel.matrix.mulVec z)‖ := by
  have hx := (ht.half_x hs).1
  have hy := (ht.half_y hs).1
  have hnext := ht.shaped_next hs
  have hproduct := t.kernel.matrix.length_mulVec z
  rw [slack, Vec.pairNorm_eq_norm hnext.xDual hnext.yDual,
    Vec.pairNorm_eq_norm (Vec.length_sub_of_eq hx hz) (Vec.length_sub_of_eq hy hproduct),
    Vec.joint_sub hx hz hy hproduct]
  rfl

/-- Every round is certified with its own residuals. -/
theorem Exact.certified_next (ht : t.Exact) (hs : t.Shaped s) :
    Certified t.form t.settings.rho (t.next s) (t.next s).primal
      ((t.next s).dual t.settings.rho) := by
  have hvalue := GraphForm.splitValue_of_admits (P := t.form) (ht.half_x hs).2.admits
    (ht.half_y hs).2.admits
  constructor
  · rw [hvalue]
    exact WithTop.coe_ne_top
  · intro z hz
    by_cases hadm : t.form.Admits z
    · -- Where all terms are finite this is the certificate of the round.
      have hround := ht.splitCost_half_le hs hz hadm
      rw [add_assoc, ← ht.slack_eq hs _ _ hz] at hround
      rw [hvalue, GraphForm.splitValue_of_admits hadm.2 hadm.1]
      exact WithTop.coe_le_coe.2 hround
    · rw [GraphForm.splitValue_of_not_admits hadm, WithTop.top_add]
      exact le_top

/-- So is every round of a run, however it is started. -/
theorem Exact.certified_iterate (ht : t.Exact) (hs : t.Shaped s) (k : ℕ) :
    Certified t.form t.settings.rho (t.next^[k + 1] s) (t.next^[k + 1] s).primal
      ((t.next^[k + 1] s).dual t.settings.rho) := by
  rw [Function.iterate_succ_apply']
  exact ht.certified_next (ht.shaped_iterate hs k)

/-- The round of a success is certified with its thresholds. -/
theorem Exact.certified_success (ht : t.Exact) {x y : List ℝ} (hs : t.Shaped (.start x y))
    (hsuccess : (t.run x y).status = .success) :
    Certified t.form t.settings.rho (t.next^[(t.run x y).iterations] (.start x y))
      (t.settings.primalBound t.kernel.matrix.height t.kernel.matrix.cols
        (t.next^[(t.run x y).iterations] (.start x y)))
      (t.settings.dualBound t.kernel.matrix.height t.kernel.matrix.cols
        (t.next^[(t.run x y).iterations] (.start x y))) := by
  obtain ⟨hends, -, -⟩ := t.run_ends x y
  rw [hsuccess] at hends
  obtain ⟨hprimal, hdual⟩ := hends.passes
  obtain ⟨s, hs, hlast⟩ := ht.exists_last_round hs
  rw [hlast] at hprimal hdual ⊢
  exact (ht.certified_next hs).mono (le_of_lt t.settings.rho_pos_real) hprimal hdual

end Task

/-! ### Calls of the engine -/

/-- With exact solves a call is a run of rounds, each certified with its residuals, from whatever
    guess.  If it succeeds, its answer is the proximal point of a round that is certified with its
    thresholds. -/
theorem certified_solve {F : Factorization ℝ} (hF : F.Exact) (S : Settings ℝ) {c : Cache ℝ}
    {q : Request ℝ} (hc : c.Intact F q.design) {x y : List ℝ} (hq : StartsAt q x y) :
    ∃ t : Task ℝ, c.Poses F S q t ∧
      ((engine F S).solve c q).1.outcome = .ok (t.run x y) ∧
      (∀ k : ℕ, Certified q.form S.rho (t.next^[k + 1] (.start x y))
        (t.next^[k + 1] (.start x y)).primal ((t.next^[k + 1] (.start x y)).dual S.rho)) ∧
      ((t.run x y).status = .success → ∃ s, s = t.next^[(t.run x y).iterations] (.start x y) ∧
        (t.run x y).x = s.xHalf ∧ Certified q.form S.rho s
          (S.primalBound q.height q.width s) (S.dualBound q.height q.width s)) := by
  obtain ⟨t, hposes, hexact, hform, hshaped, hanswer⟩ := hc.exists_task_from hF S hq
  have hmatrix : t.kernel.matrix = q.design.matrix := congrArg GraphForm.matrix hform
  refine ⟨t, hposes, hanswer, fun k => ?_, fun hsuccess => ⟨_, rfl, (t.run_ends x y).2.1, ?_⟩⟩
  · rw [← hform, ← hposes.settings]
    exact hexact.certified_iterate hshaped k
  · have hround := hexact.certified_success hshaped hsuccess
    rw [hform, hposes.settings, hmatrix] at hround
    exact hround

/-- The rounds for all four shapes are certified. -/
theorem certified_solve_mixed :
    ∃ t : Task ℝ, Cache.empty.Poses .elimination (.plain 1 4 zero_le_one (by decide)) mixed t ∧
      ((engine .elimination (.plain 1 4 zero_le_one (by decide))).solve .empty mixed).1.outcome =
        .ok (t.run [1, 1] [0, 1]) ∧
      (∀ k : ℕ, Certified mixed.form 1 (t.next^[k + 1] (.start [1, 1] [0, 1]))
        (t.next^[k + 1] (.start [1, 1] [0, 1])).primal
        ((t.next^[k + 1] (.start [1, 1] [0, 1])).dual 1)) ∧
      ((t.run [1, 1] [0, 1]).status = .success →
        ∃ s, s = t.next^[(t.run [1, 1] [0, 1]).iterations] (.start [1, 1] [0, 1]) ∧
          (t.run [1, 1] [0, 1]).x = s.xHalf ∧ Certified mixed.form 1 s
            (Settings.primalBound (.plain 1 4 zero_le_one (by decide)) 2 2 s)
            (Settings.dualBound (.plain 1 4 zero_le_one (by decide)) 2 2 s)) :=
  certified_solve Factorization.elimination_exact (.plain 1 4 zero_le_one (by decide))
    (Cache.intact_empty _ _) startsAt_mixed

end Admm

end RegPath
