import RegPath.Proofs.Splitting.Service

namespace RegPath

/-!
# Descent of the splitting

In exact arithmetic a call from a guess on the graph of the matrix comes closer to every optimality
point in each of its rounds, by the squares of the residuals that the round is judged by.

* `Admm.Task.Exact.energy_succ` — every round of a run;
* `Admm.Task.Exact.sum_residuals_le` — all residuals together are paid for by the starting energy;
* `Admm.energy_descends` — the rounds of a call of the engine.
-/

namespace Admm

namespace Task

variable {t : Task ℝ} {x u v z : List ℝ}

/-- Every round from a guess on the graph takes the squares of its residuals from the energy. -/
theorem Exact.energy_succ (ht : t.Exact) (hopt : t.form.OptimalityPoint t.settings.rho x u v)
    (hz : z.length = t.kernel.matrix.cols) (k : ℕ) :
    t.energy x u v (t.next^[k + 1] (.start z (t.kernel.matrix.mulVec z))) ≤
      t.energy x u v (t.next^[k] (.start z (t.kernel.matrix.mulVec z))) -
        (t.next^[k + 1] (.start z (t.kernel.matrix.mulVec z))).primal ^ 2 -
        ((t.next^[k + 1] (.start z (t.kernel.matrix.mulVec z))).dual t.settings.rho /
          t.settings.rho) ^ 2 := by
  rw [Function.iterate_succ_apply']
  exact ht.energy_next (ht.balanced_iterate (balanced_start hz) k) hopt

/-- The residuals of any number of rounds are paid for by the starting energy, so that they become
    arbitrarily small. -/
theorem Exact.sum_residuals_le (ht : t.Exact)
    (hopt : t.form.OptimalityPoint t.settings.rho x u v) (hz : z.length = t.kernel.matrix.cols)
    (n : ℕ) :
    ∑ k ∈ Finset.range n,
        ((t.next^[k + 1] (.start z (t.kernel.matrix.mulVec z))).primal ^ 2 +
          ((t.next^[k + 1] (.start z (t.kernel.matrix.mulVec z))).dual t.settings.rho /
            t.settings.rho) ^ 2) ≤
      t.energy x u v (.start z (t.kernel.matrix.mulVec z)) := by
  -- What is left of the energy after the rounds pays for the rounds to come.
  suffices hleft : _ + t.energy x u v (t.next^[n] (.start z (t.kernel.matrix.mulVec z))) ≤ _ from
    le_of_add_le_of_nonneg_left hleft (t.energy_nonneg x u v _)
  induction n with
  | zero => rw [Finset.sum_range_zero, zero_add, Function.iterate_zero_apply]
  | succ n ih =>
    have hround := ht.energy_succ hopt hz n
    rw [Finset.sum_range_succ]
    linarith

end Task

/-- With exact solves a call from a guess on the graph is a run of rounds, each of which takes the
    squares of its two residuals, the dual one relative to the penalty parameter, from the squared
    distances of the projected pair and the duals to any optimality point. -/
theorem energy_descends {F : Factorization ℝ} (hF : F.Exact) (S : Settings ℝ) {c : Cache ℝ}
    {q : Request ℝ} (hc : c.Intact F q.design) (hq : q.Fits)
    (hy : q.y = q.design.matrix.mulVec q.x) {x u v : List ℝ}
    (hopt : q.form.OptimalityPoint S.rho x u v) :
    ∃ t : Task ℝ, c.Poses F S q t ∧ t.kernel.matrix = q.design.matrix ∧
      ((engine F S).solve c q).1.outcome = .ok (t.run q.x q.y) ∧
      ∀ k : ℕ,
        t.energy x u v (t.next^[k + 1] (.start q.x q.y)) ≤
          t.energy x u v (t.next^[k] (.start q.x q.y)) -
            (t.next^[k + 1] (.start q.x q.y)).primal ^ 2 -
            ((t.next^[k + 1] (.start q.x q.y)).dual S.rho / S.rho) ^ 2 := by
  obtain ⟨t, hposes, hexact, hform, hanswer⟩ := hc.exists_task hF S hq
  have hmatrix : t.kernel.matrix = q.design.matrix := congrArg GraphForm.matrix hform
  refine ⟨t, hposes, hmatrix, hanswer, fun k => ?_⟩
  have hx : q.x.length = t.kernel.matrix.cols := hq.x.trans (congrArg RowMatrix.cols hmatrix.symm)
  rw [hy, ← hmatrix, ← hposes.settings]
  rw [← hform, ← hposes.settings] at hopt
  exact hexact.energy_succ hopt hx k

/-- The rounds for a single number come closer to its solution. -/
theorem energy_descends_centred :
    ∃ t : Task ℝ, Cache.empty.Poses .elimination (.plain 1 4 zero_le_one (by decide))
        (single (.unit .square 2) (.unit .abs 2) 0) t ∧ t.kernel.matrix = .identity 1 ∧
      ((engine .elimination (.plain 1 4 zero_le_one (by decide))).solve .empty
        (single (.unit .square 2) (.unit .abs 2) 0)).1.outcome = .ok (t.run [0] [0]) ∧
      ∀ k : ℕ,
        t.energy [2] [0] [0] (t.next^[k + 1] (.start [0] [0])) ≤
          t.energy [2] [0] [0] (t.next^[k] (.start [0] [0])) -
            (t.next^[k + 1] (.start [0] [0])).primal ^ 2 -
            ((t.next^[k + 1] (.start [0] [0])).dual 1 / 1) ^ 2 :=
  energy_descends Factorization.elimination_exact (.plain 1 4 zero_le_one (by decide))
    (Cache.intact_empty _ _) ⟨rfl, rfl, rfl, rfl⟩ (mulVec_identity_one 0).symm
    optimalityPoint_centred

end Admm

end RegPath
