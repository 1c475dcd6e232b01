import Mathlib.Logic.Function.Iterate
import RegPath.Engine.Admm

namespace RegPath

/-!
# Runs of the splitting

The iteration takes rounds until the first one that has a verdict, and gives up after its cap.  A
call of the engine that passes all checks is such a run from the guess.

* `Admm.Task.Ends` — which round is the last, and why;
* `Admm.Task.run_ends` — every run ends in this way;
* `Admm.solve_ok`, `Admm.solve_of_judge` — calls of the engine that return are runs.
-/

namespace Admm

variable {α : Type} [Scalar α]

/-- A success is a round whose residuals are finite and within their thresholds. -/
theorem Settings.verdict?_eq_success {S : Settings α} {m n : ℕ} {s : Iterate α} :
    S.verdict? m n s = some .success ↔ S.Healthy s ∧ S.Passes m n s := by
  unfold verdict?
  by_cases hhealthy : S.Healthy s
  · by_cases hpasses : S.Passes m n s
    · simp [hhealthy, hpasses]
    · simp [hhealthy, hpasses]
  · simp [hhealthy]

/-- A round is followed by another if its residuals are finite but not both within their
    thresholds. -/
theorem Settings.verdict?_eq_none {S : Settings α} {m n : ℕ} {s : Iterate α} :
    S.verdict? m n s = none ↔ S.Healthy s ∧ ¬ S.Passes m n s := by
  unfold verdict?
  by_cases hhealthy : S.Healthy s
  · by_cases hpasses : S.Passes m n s
    · simp [hhealthy, hpasses]
    · simp [hhealthy, hpasses]
  · simp [hhealthy]

namespace Task

/-! ### The last round -/

/-- The iteration from `s` with at most `cap` rounds ends after round `k` with status `status`. -/
structure Ends (t : Task α) (s : Iterate α) (cap : ℕ) (status : Status) (k : ℕ) : Prop where
  /-- There is a round. -/
  pos : 0 < k
  /-- The cap holds. -/
  le : k ≤ cap
  /-- No earlier round has a verdict. -/
  before : ∀ i, 0 < i → i < k → t.verdict? (t.next^[i] s) = none
  /-- The last round has a verdict, or it has none and the cap is reached. -/
  exit : t.verdict? (t.next^[k] s) = some status ∨
    k = cap ∧ status = .maxIter ∧ t.verdict? (t.next^[k] s) = none

/-- A success is the verdict of the last round. -/
theorem Ends.passes {t : Task α} {s : Iterate α} {cap k : ℕ} (h : t.Ends s cap .success k) :
    t.settings.Passes t.kernel.matrix.height t.kernel.matrix.cols (t.next^[k] s) := by
  rcases h.exit with hexit | ⟨_, hstatus, _⟩
  · exact (Settings.verdict?_eq_success.1 hexit).2
  · cases hstatus

/-- A first round without a verdict comes before the others. -/
theorem Ends.cons {t : Task α} {s : Iterate α} {cap k : ℕ} {status : Status}
    (hfirst : t.verdict? (t.next s) = none) (h : t.Ends (t.next s) cap status k) :
    t.Ends s (cap + 1) status (k + 1) := by
  refine ⟨Nat.succ_pos k, Nat.succ_le_succ h.le, fun i hi hik => ?_, ?_⟩
  · obtain ⟨i, rfl⟩ := Nat.exists_eq_succ_of_ne_zero (Nat.ne_of_gt hi)
    rw [Function.iterate_succ_apply]
    rcases Nat.eq_zero_or_pos i with rfl | hpos
    · exact hfirst
    · exact h.before i hpos (Nat.lt_of_succ_lt_succ hik)
  · rw [Function.iterate_succ_apply]
    rcases h.exit with hexit | ⟨hcap, hstatus, hnone⟩
    · exact .inl hexit
    · exact .inr ⟨congrArg (· + 1) hcap, hstatus, hnone⟩

/-- The iteration ends after the first round with a verdict, or at its cap. -/
theorem iterate_ends (t : Task α) (s : Iterate α) (done : ℕ) {cap : ℕ} (hcap : 0 < cap) :
    ∃ status k, t.iterate s done cap = (t.next^[k] s, status, done + k) ∧
      t.Ends s cap status k := by
  obtain ⟨cap, rfl⟩ := Nat.exists_eq_succ_of_ne_zero (Nat.ne_of_gt hcap)
  clear hcap
  induction cap generalizing s done with
  | zero =>
    cases hv : t.verdict? (t.next s) with
    | some status =>
      exact ⟨status, 1, by simp [iterate, hv], Nat.one_pos, Nat.le_refl 1,
        fun i hi hi' => by omega, .inl hv⟩
    | none =>
      exact ⟨.maxIter, 1, by simp [iterate, hv], Nat.one_pos, Nat.le_refl 1,
        fun i hi hi' => by omega, .inr ⟨rfl, rfl, hv⟩⟩
  | succ cap ih =>
    cases hv : t.verdict? (t.next s) with
    | some status =>
      exact ⟨status, 1, by simp [iterate, hv], Nat.one_pos, by omega,
        fun i hi hi' => by omega, .inl hv⟩
    | none =>
      obtain ⟨status, k, heq, hends⟩ := ih (t.next s) (done + 1)
      refine ⟨status, k + 1, ?_, hends.cons hv⟩
      rw [iterate]
      simp only [hv]
      rw [heq, Function.iterate_succ_apply, Nat.add_assoc, Nat.add_comm 1 k]

/-- Every run ends in this way, and its answer is the proximal point of the last round. -/
theorem run_ends (t : Task α) (x y : List α) :
    t.Ends (.start x y) t.settings.maxIter (t.run x y).status (t.run x y).iterations ∧
      (t.run x y).x = (t.next^[(t.run x y).iterations] (.start x y)).xHalf ∧
      (t.run x y).y = t.kernel.matrix.mulVec (t.run x y).x := by
  obtain ⟨status, k, heq, hends⟩ := t.iterate_ends (.start x y) 0 t.settings.maxIter_pos
  rw [Nat.zero_add] at heq
  have hrun : t.run x y = ⟨(t.next^[k] (.start x y)).xHalf,
      t.kernel.matrix.mulVec (t.next^[k] (.start x y)).xHalf, status, k⟩ := by
    rw [run, heq]
  rw [hrun]
  exact ⟨hends, rfl, rfl⟩

end Task

/-! ### Calls of the engine -/

/-- A guess with an entry for each unknown is taken as it is. -/
theorem guess?_of_length {β : Type} {n : ℕ} {x : List β} (h : x.length = n) :
    guess? n x = some x := by
  subst h
  rw [guess?, Vec.pair?_of_length_eq _ (List.length_replicate ..).symm]
  congr 1
  apply List.ext_getElem
  · rw [List.length_zipWith, List.length_replicate, Nat.min_self]
  · intro i h₁ h₂
    rw [List.getElem_zipWith]

/-- What passes the checks has an entry for each unknown. -/
theorem length_of_judge {k : Kernel α} {q : Request α} {x y : List α}
    (h : judge k q = .ok (x, y)) : x.length = q.width ∧ y.length = q.height := by
  unfold judge at h
  split at h
  · cases h
  · split at h
    · cases h
    · split at h
      · cases h
      · split at h
        · cases h
        · split at h
          · rename_i hshape
            cases h
            exact ⟨hshape.1, hshape.2.1⟩
          · cases h

/-- A guess and terms of the right lengths pass the checks. -/
theorem judge_of_length {k : Kernel α} {q : Request α} (hk : k.Fits)
    (hrows : q.rowTerms.length = q.height) (hcols : q.colTerms.length = q.width)
    (hx : q.x.length = q.width) (hy : q.y.length = q.height) :
    judge k q = .ok (q.x, q.y) := by
  have hservesCols : Term.Serves q.colTerms q.x.length := .inr (hcols.trans hx.symm)
  have hservesRows : Term.Serves q.rowTerms q.y.length := .inr (hrows.trans hy.symm)
  simp only [judge, guess?_of_length hx, guess?_of_length hy, not_true, hservesCols, hservesRows,
    if_false]
  rw [if_pos ⟨hx, hy, hk⟩]

/-- A call that returns is a run from what the checks made of the guess. -/
theorem solve_ok {F : Factorization α} {S : Settings α} {c : Cache α} {q : Request α}
    {s : Solution α} (h : ((engine F S).solve c q).1.outcome = .ok s) :
    ∃ k x y, (c.prepare F q.design).1 = .ok k ∧ judge k q = .ok (x, y) ∧
      s = Task.run ⟨S, k, q.rowTerms, q.colTerms⟩ x y := by
  simp only [engine] at h
  split at h
  · cases h
  · rename_i k events c' hprepare
    split at h
    · cases h
    · rename_i x y hjudge
      cases h
      exact ⟨k, x, y, by rw [hprepare], hjudge, rfl⟩

/-- A call whose matrix can be factored and that passes the checks returns. -/
theorem solve_of_judge {F : Factorization α} (S : Settings α) {c : Cache α} {q : Request α}
    {k : Kernel α} {x y : List α} (hk : (c.prepare F q.design).1 = .ok k)
    (hj : judge k q = .ok (x, y)) :
    ((engine F S).solve c q).1.outcome = .ok (Task.run ⟨S, k, q.rowTerms, q.colTerms⟩ x y) := by
  simp only [engine]
  split
  · rename_i fault events c' hprepare
    rw [hprepare] at hk
    cases hk
  · rename_i k' events c' hprepare
    rw [hprepare] at hk
    obtain rfl := Except.ok.inj hk
    rw [hj]

end Admm

end RegPath
