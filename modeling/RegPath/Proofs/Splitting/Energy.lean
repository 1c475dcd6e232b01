import RegPath.Proofs.Splitting.Optimality

namespace RegPath

open scoped RealInnerProductSpace

/-!
# Energy of the splitting

The squared distances of the projected pair and of the duals to an optimality point fall in every
round by the squares of the two residuals.  A round that does not pass has a residual above the
absolute threshold, so the starting energy pays for a bounded number of such rounds only.

* `Admm.Task.energy` — the squared distances;
* `Admm.Task.Exact.energy_next` — they fall in every round;
* `Admm.Settings.roundCost_lt` — what a round that does not pass takes from them;
* `Admm.success_of_energy` — a cap that the starting energy cannot pay for is never reached.
-/

namespace Admm

namespace Task

variable {t : Task ℝ} {s : Iterate ℝ}

/-- The squared distance of the projected pair and the duals to a point of the graph with duals. -/
noncomputable def energy (t : Task ℝ) (x u v : List ℝ) (s : Iterate ℝ) : ℝ :=
  Vec.sumSquares (Vec.sub s.x x) + Vec.sumSquares (Vec.sub s.y (t.kernel.matrix.mulVec x)) +
    Vec.sumSquares (Vec.sub s.xDual u) + Vec.sumSquares (Vec.sub s.yDual v)

/-- The energy is not negative. -/
theorem energy_nonneg (t : Task ℝ) (x u v : List ℝ) (s : Iterate ℝ) : 0 ≤ t.energy x u v s := by
  have h₁ := Vec.sumSquares_nonneg (Vec.sub s.x x)
  have h₂ := Vec.sumSquares_nonneg (Vec.sub s.y (t.kernel.matrix.mulVec x))
  have h₃ := Vec.sumSquares_nonneg (Vec.sub s.xDual u)
  have h₄ := Vec.sumSquares_nonneg (Vec.sub s.yDual v)
  rw [energy]
  linarith

/-- The energy in the space of pairs. -/
theorem energy_eq (hs : t.Shaped s) {x u v : List ℝ} (hx : x.length = t.kernel.matrix.cols)
    (hu : u.length = t.kernel.matrix.cols) (hv : v.length = t.kernel.matrix.height) :
    t.energy x u v s =
      ‖t.point s - Vec.joint _ _ x (t.kernel.matrix.mulVec x)‖ ^ 2 +
        ‖t.dualPoint s - Vec.joint _ _ u v‖ ^ 2 := by
  have hy := t.kernel.matrix.length_mulVec x
  rw [point, dualPoint, ← Vec.joint_sub hs.x hx hs.y hy, ← Vec.joint_sub hs.xDual hu hs.yDual hv,
    Vec.norm_joint_sq (Vec.length_sub_of_eq hs.x hx) (Vec.length_sub_of_eq hs.y hy),
    Vec.norm_joint_sq (Vec.length_sub_of_eq hs.xDual hu) (Vec.length_sub_of_eq hs.yDual hv), energy]
  ring

/-! ### One round -/

/-- The projected pair is on the graph, and the duals are orthogonal to it. -/
structure Balanced (t : Task ℝ) (s : Iterate ℝ) : Prop extends t.Shaped s where
  /-- The rows are the product of the columns. -/
  graph : t.point s ∈ t.kernel.matrix.graph
  /-- The duals of the columns balance those of the rows. -/
  dual : t.dualPoint s ∈ t.kernel.matrix.graphᗮ

/-- A guess on the graph is balanced, since its duals are zero. -/
theorem balanced_start {x : List ℝ} (hx : x.length = t.kernel.matrix.cols) :
    t.Balanced (.start x (t.kernel.matrix.mulVec x)) := by
  have hy := t.kernel.matrix.length_mulVec x
  refine ⟨shaped_start hx hy, t.kernel.matrix.mem_graph x, ?_⟩
  rw [dualPoint, Iterate.start, hx, hy, Vec.joint_zeros]
  exact zero_mem _

/-- Every round ends balanced. -/
theorem Exact.balanced_next (ht : t.Exact) (hs : t.Shaped s) : t.Balanced (t.next s) :=
  ⟨ht.shaped_next hs, (ht.turn hs).after, (ht.turn hs).dual⟩

/-- All rounds from a balanced iterate are balanced. -/
theorem Exact.balanced_iterate (ht : t.Exact) (hs : t.Balanced s) (k : ℕ) :
    t.Balanced (t.next^[k] s) := by
  induction k with
  | zero => exact hs
  | succ k ih =>
    rw [Function.iterate_succ_apply']
    exact ht.balanced_next ih.toShaped

/-- Along the way from an optimality point to the proximal pair the pull grows. -/
theorem Exact.pull_mono (ht : t.Exact) (hs : t.Shaped s) {x u v : List ℝ}
    (hopt : t.form.OptimalityPoint t.settings.rho x u v) :
    0 ≤ ⟪t.point s - t.dualPoint s - t.halfPoint (t.next s) + Vec.joint _ _ u v,
      t.halfPoint (t.next s) - Vec.joint _ _ x (t.kernel.matrix.mulVec x)⟫ := by
  obtain ⟨hx, hcols⟩ := ht.half_x hs
  obtain ⟨hy, hrows⟩ := ht.half_y hs
  have hapart := GraphForm.inner_subgradients_nonneg hcols hrows hopt.columns hopt.rows hx hy
    (ht.length_pullX hs) (ht.length_pullY hs) hopt.length_x (t.kernel.matrix.length_mulVec x)
    (by rw [Vec.length_scale, hopt.length_u]) (by rw [Vec.length_scale, hopt.length_v])
  have hscale : t.settings.rho • (t.point s - t.dualPoint s - t.halfPoint (t.next s)) -
      (-t.settings.rho) • Vec.joint _ _ u v =
        t.settings.rho • (t.point s - t.dualPoint s - t.halfPoint (t.next s) +
          Vec.joint _ _ u v) := by
    rw [neg_smul, sub_neg_eq_add, ← smul_add]
  rw [show t.form.matrix = t.kernel.matrix from rfl, ht.joint_pull hs, Vec.joint_scale, hscale,
    real_inner_smul_left] at hapart
  exact nonneg_of_mul_nonneg_right hapart t.settings.rho_pos_real

/-- A round takes the squares of its residuals from the energy. -/
theorem Exact.energy_next (ht : t.Exact) (hs : t.Balanced s) {x u v : List ℝ}
    (hopt : t.form.OptimalityPoint t.settings.rho x u v) :
    t.energy x u v (t.next s) ≤ t.energy x u v s - (t.next s).primal ^ 2 -
      ((t.next s).dual t.settings.rho / t.settings.rho) ^ 2 := by
  have hshaped := hs.toShaped
  rw [energy_eq (ht.shaped_next hshaped) hopt.length_x hopt.length_u hopt.length_v,
    energy_eq hshaped hopt.length_x hopt.length_u hopt.length_v, ht.primal_eq hshaped,
    ht.dual_eq hshaped, mul_div_cancel_left₀ _ (ne_of_gt t.settings.rho_pos_real)]
  exact (ht.turn hshaped).energy hs.graph hs.dual (t.kernel.matrix.mem_graph x)
    hopt.mem_orthogonal (ht.pull_mono hshaped hopt)

end Task

/-! ### Rounds that do not pass -/

namespace Settings

variable {S : Settings ℝ} {m n : ℕ} {s : Iterate ℝ}

/-- What a round that does not pass takes from the energy at least. -/
noncomputable def roundCost (S : Settings ℝ) (m n : ℕ) : ℝ :=
  ((m + n : ℕ) : ℝ) * S.absTol ^ 2 * min 1 (1 / S.rho ^ 2)

/-- The absolute tolerance is not negative. -/
theorem absTol_nonneg_real (S : Settings ℝ) : 0 ≤ S.absTol := not_lt.1 S.absTol_nonneg

/-- The relative tolerance is not negative. -/
theorem relTol_nonneg_real (S : Settings ℝ) : 0 ≤ S.relTol := not_lt.1 S.relTol_nonneg

/-- The absolute threshold is not negative. -/
theorem absPart_nonneg (S : Settings ℝ) (m n : ℕ) : 0 ≤ S.absPart m n :=
  mul_nonneg (Real.sqrt_nonneg _) S.absTol_nonneg_real

/-- The square of the absolute threshold. -/
theorem absPart_sq (S : Settings ℝ) (m n : ℕ) :
    S.absPart m n ^ 2 = ((m + n : ℕ) : ℝ) * S.absTol ^ 2 := by
  rw [absPart, Scalar.sqrt_real, mul_pow, Real.sq_sqrt (Nat.cast_nonneg _)]

/-- The relative part only loosens the primal threshold. -/
theorem absPart_le_primalBound (S : Settings ℝ) (m n : ℕ) (s : Iterate ℝ) :
    S.absPart m n ≤ S.primalBound m n s := by
  have hmax : 0 ≤ max (Vec.pairNorm s.xHalf s.yHalf) (Vec.pairNorm s.x s.y) :=
    le_max_of_le_left (Real.sqrt_nonneg _)
  rw [primalBound, Scalar.laterIfLarger_real]
  exact le_add_of_nonneg_right (mul_nonneg S.relTol_nonneg_real hmax)

/-- The relative part only loosens the dual threshold. -/
theorem absPart_le_dualBound (S : Settings ℝ) (m n : ℕ) (s : Iterate ℝ) :
    S.absPart m n ≤ S.dualBound m n s := by
  have hrel := mul_nonneg S.relTol_nonneg_real (le_of_lt S.rho_pos_real)
  exact le_add_of_nonneg_right (mul_nonneg hrel (Real.sqrt_nonneg _))

/-- A round that does not pass has a residual above the absolute threshold. -/
theorem roundCost_lt (h : ¬ S.Passes m n s) :
    S.roundCost m n < s.primal ^ 2 + (s.dual S.rho / S.rho) ^ 2 := by
  have hpart := S.absPart_nonneg m n
  have hpart_sq := S.absPart_sq m n
  have hrho := S.rho_pos_real
  have hnonneg : 0 ≤ ((m + n : ℕ) : ℝ) * S.absTol ^ 2 := by positivity
  rw [Passes, not_and_or, not_le, not_le] at h
  rcases h with hprimal | hdual
  · have hlarge := lt_of_le_of_lt (S.absPart_le_primalBound m n s) hprimal
    calc S.roundCost m n ≤ S.absPart m n ^ 2 := by
          rw [roundCost, hpart_sq]
          exact mul_le_of_le_one_right hnonneg (min_le_left _ _)
      _ < s.primal ^ 2 := by gcongr
      _ ≤ s.primal ^ 2 + (s.dual S.rho / S.rho) ^ 2 := le_add_of_nonneg_right (sq_nonneg _)
  · have hlarge := lt_of_le_of_lt (S.absPart_le_dualBound m n s) hdual
    calc S.roundCost m n ≤ (S.absPart m n / S.rho) ^ 2 := by
          rw [roundCost, div_pow, hpart_sq,
            div_eq_mul_one_div (((m + n : ℕ) : ℝ) * S.absTol ^ 2)]
          exact mul_le_mul_of_nonneg_left (min_le_right _ _) hnonneg
      _ < (s.dual S.rho / S.rho) ^ 2 := by gcongr
      _ ≤ s.primal ^ 2 + (s.dual S.rho / S.rho) ^ 2 := le_add_of_nonneg_left (sq_nonneg _)

/-- Over the real numbers no round fails: it passes or is followed by another. -/
theorem verdict?_real (S : Settings ℝ) (m n : ℕ) (s : Iterate ℝ) :
    S.verdict? m n s = some .success ∨ S.verdict? m n s = none ∧ ¬ S.Passes m n s := by
  have hhealthy : S.Healthy s := ⟨Scalar.isFinite_real _, Scalar.isFinite_real _⟩
  by_cases hpasses : S.Passes m n s
  · exact .inl (verdict?_eq_success.2 ⟨hhealthy, hpasses⟩)
  · exact .inr ⟨verdict?_eq_none.2 ⟨hhealthy, hpasses⟩, hpasses⟩

end Settings

namespace Task

variable {t : Task ℝ} {s : Iterate ℝ}

/-- Rounds that do not pass use the energy up. -/
theorem Exact.energy_iterate (ht : t.Exact) (hs : t.Balanced s) {x u v : List ℝ}
    (hopt : t.form.OptimalityPoint t.settings.rho x u v) (k : ℕ)
    (hfail : ∀ i, i ≤ k → ¬ t.settings.Passes t.kernel.matrix.height t.kernel.matrix.cols
      (t.next^[i + 1] s)) :
    t.energy x u v (t.next^[k + 1] s) + ((k + 1 : ℕ) : ℝ) *
      t.settings.roundCost t.kernel.matrix.height t.kernel.matrix.cols < t.energy x u v s := by
  induction k with
  | zero =>
    have hnext := ht.energy_next hs hopt
    have hcost := Settings.roundCost_lt (hfail 0 (Nat.le_refl 0))
    simp only [zero_add, Function.iterate_one, Nat.cast_one, one_mul] at hcost ⊢
    linarith
  | succ k ih =>
    have hbefore := ih fun i hi => hfail i (Nat.le_succ_of_le hi)
    have hnext := ht.energy_next (ht.balanced_iterate hs (k + 1)) hopt
    have hcost := Settings.roundCost_lt (hfail (k + 1) (Nat.le_refl _))
    rw [Function.iterate_succ_apply'] at hcost
    rw [Function.iterate_succ_apply' _ (k + 1), Nat.cast_succ, add_mul, one_mul]
    linarith

/-- A cap that the starting energy cannot pay for is not reached. -/
theorem Exact.run_success (ht : t.Exact) {x u v : List ℝ}
    (hopt : t.form.OptimalityPoint t.settings.rho x u v) {z : List ℝ}
    (hz : z.length = t.kernel.matrix.cols)
    (hcap : t.energy x u v (.start z (t.kernel.matrix.mulVec z)) ≤ (t.settings.maxIter : ℝ) *
      t.settings.roundCost t.kernel.matrix.height t.kernel.matrix.cols) :
    (t.run z (t.kernel.matrix.mulVec z)).status = .success := by
  obtain ⟨hends, -, -⟩ := t.run_ends z (t.kernel.matrix.mulVec z)
  generalize (t.run z (t.kernel.matrix.mulVec z)).status = status at hends
  generalize (t.run z (t.kernel.matrix.mulVec z)).iterations = k at hends
  rcases hends.exit with hexit | ⟨hk, -, hnone⟩
  · -- A verdict of the last round is a success.
    rcases t.settings.verdict?_real t.kernel.matrix.height t.kernel.matrix.cols
      (t.next^[k] (.start z (t.kernel.matrix.mulVec z))) with hsuccess | ⟨hnone, -⟩
    · exact Option.some.inj (hexit.symm.trans hsuccess)
    · exact absurd (hexit.symm.trans hnone) (by simp)
  · -- At the cap no round has passed, and the energy is used up.
    have hfail : ∀ i, i ≤ k - 1 → ¬ t.settings.Passes t.kernel.matrix.height t.kernel.matrix.cols
        (t.next^[i + 1] (.start z (t.kernel.matrix.mulVec z))) := by
      intro i hi
      have hpos := hends.pos
      have hverdict : t.verdict? (t.next^[i + 1] (.start z (t.kernel.matrix.mulVec z))) = none := by
        by_cases hlast : i + 1 = k
        · rw [hlast]
          exact hnone
        · exact hends.before (i + 1) (Nat.succ_pos i) (by omega)
      exact (Settings.verdict?_eq_none.1 hverdict).2
    have hused := ht.energy_iterate (balanced_start hz) hopt (k - 1) hfail
    have hleft := t.energy_nonneg x u v (t.next^[k - 1 + 1] (.start z (t.kernel.matrix.mulVec z)))
    rw [Nat.sub_add_cancel hends.pos, hk] at hused
    rw [Nat.sub_add_cancel hends.pos, hk] at hleft
    linarith

end Task

/-- The starting energy of a guess without duals. -/
theorem energy_start (t : Task ℝ) (x u v : List ℝ) {z y : List ℝ}
    (hu : u.length = z.length) (hv : v.length = y.length) :
    t.energy x u v (.start z y) =
      Vec.sumSquares (Vec.sub z x) + Vec.sumSquares (Vec.sub y (t.kernel.matrix.mulVec x)) +
        Vec.sumSquares u + Vec.sumSquares v := by
  have hzeros : ∀ w : List ℝ, Vec.sumSquares (Vec.sub (Vec.zeros w.length) w) =
      Vec.sumSquares w := by
    intro w
    rw [Vec.sumSquares_eq (Vec.length_sub_of_eq (Vec.length_zeros _) rfl), Vec.sumSquares_eq rfl,
      Vec.coords_sub (Vec.length_zeros _) rfl, Vec.coords_zeros]
    simp
  rw [Task.energy, Iterate.start]
  simp only [← hu, ← hv, hzeros]

/-- From a guess on the graph the engine succeeds, if the cap on its rounds is so large that the
    squared distances of the guess to an optimality point and of zero to its duals cannot pay for
    as many rounds above the absolute threshold. -/
theorem success_of_energy {F : Factorization ℝ} (hF : F.Exact) {S : Settings ℝ} {q : Request ℝ}
    (hrows : q.rowTerms.length = q.height) (hcols : q.colTerms.length = q.width)
    (hx : q.x.length = q.width) (hy : q.y = q.design.matrix.mulVec q.x) {x u v : List ℝ}
    (hopt : q.form.OptimalityPoint S.rho x u v)
    (hcap : Vec.sumSquares (Vec.sub q.x x) +
        Vec.sumSquares (Vec.sub q.y (q.design.matrix.mulVec x)) +
        Vec.sumSquares u + Vec.sumSquares v ≤
      S.maxIter * (((q.height + q.width : ℕ) : ℝ) * S.absTol ^ 2 * min 1 (1 / S.rho ^ 2))) :
    ∃ s, ((engine F S).solve .empty q).1.outcome = .ok s ∧ s.status = .success := by
  obtain ⟨k, hprepare, hmatrix, ht, hform⟩ := exists_exact_task hF S hrows hcols
  have hylen : q.y.length = q.height := by
    rw [hy]
    exact q.design.matrix.length_mulVec q.x
  refine ⟨_, solve_of_judge S hprepare (judge_of_length ht.kernel.fits hrows hcols hx hylen), ?_⟩
  rw [hy, ← hmatrix]
  refine ht.run_success (by rw [hform]; exact hopt) (by rw [hmatrix]; exact hx) ?_
  rw [energy_start _ _ _ _ (hopt.length_u.trans hx.symm)
    (hopt.length_v.trans ((congrArg RowMatrix.height hmatrix).symm.trans
      (k.matrix.length_mulVec q.x).symm))]
  simp only [hmatrix, ← hy]
  exact hcap

/-- The product with the matrix of a single number. -/
theorem mulVec_identity_one (a : ℝ) : (RowMatrix.identity 1).mulVec [a] = [a] := by
  simp [RowMatrix.identity, RowMatrix.mulVec, RowMatrix.rowDot]

/-- Zero duals show that the number `2` minimises `(y - 2)² / 2 + |x - 2|`. -/
theorem optimalityPoint_centred :
    (single (.unit .square 2) (.unit .abs 2) 0).form.OptimalityPoint 1 [2] [0] [0] := by
  have hsquare : (Term.unit .square (2 : ℝ)).IsSlope 2 0 := by
    have htangent := Term.isSlope_tangent (t := Term.unit .square (2 : ℝ)) rfl 2
    rwa [show (Term.unit .square (2 : ℝ)).offset = 2 from rfl, sub_self, mul_zero] at htangent
  have habs : (Term.unit .abs (2 : ℝ)).IsSlope 2 0 :=
    Term.isSlope_vertex rfl (by rw [abs_zero]; exact le_of_lt (Term.unit .abs (2 : ℝ)).scale_pos)
  have hscale : Vec.scale (-1) [0] = [0] := by simp [Vec.scale]
  refine ⟨rfl, rfl, rfl, ?_, ?_, ?_⟩
  · rw [hscale]
    exact .cons habs .nil
  · rw [hscale]
    rw [show (single (.unit .square 2) (.unit .abs 2) 0).form.matrix.mulVec [2] = [2] from
      mulVec_identity_one 2]
    exact .cons hsquare .nil
  · simp [single, Request.form, RowMatrix.identity, RowMatrix.transpose, RowMatrix.column,
      RowMatrix.mulVec, RowMatrix.rowDot, Vec.add, Vec.zeros]

/-- From zero the engine solves it within four rounds of tolerance one. -/
theorem success_of_energy_centred :
    ∃ s, ((engine .elimination (.plain 1 4 zero_le_one (by decide))).solve .empty
      (single (.unit .square 2) (.unit .abs 2) 0)).1.outcome = .ok s ∧ s.status = .success := by
  refine success_of_energy Factorization.elimination_exact rfl rfl rfl
    (mulVec_identity_one 0).symm optimalityPoint_centred ?_
  rw [show (single (.unit .square 2) (.unit .abs 2) 0).design.matrix.mulVec [2] = [2] from
    mulVec_identity_one 2]
  norm_num [single, Settings.plain, Vec.sumSquares, Vec.sub, Request.height, Request.width,
    RowMatrix.identity, RowMatrix.height]

end Admm

end RegPath
