import RegPath.Proofs.Lasso.Cost
import RegPath.Proofs.Path.Fitting
import RegPath.Proofs.Path.Stopping
import RegPath.CrossValidation.Fit

namespace RegPath.CrossValidation

/-!
# Folds as paths

A fold is a path on the lasso of its training rows, from the top of the full data.  Its errors are
those of the points of that path, one after the other.

* `meanResidual`, `meanSquaredError_eq` — the error of coefficients that fit the matrix;
* `Settings.config_of_accept`, `Factory.driver_ok` — the driver of a path and its setup;
* `Fold.problem`, `Fold.calls` — the lasso of a fold, and what its engine is asked;
* `Fold.outcome_finish_start` — the errors of a fold, read off its path.
-/

variable {α : Type} [Scalar α] {σ : Type}

/-! ### Errors -/

/-- The mean residual of coefficients, zero without rows. -/
def meanResidual (A : RowMatrix α) (b x : List α) : α :=
  if A.height = 0 then 0 else A.residual b x / (A.height : α)

/-- The error of coefficients that fit the matrix is the mean residual. -/
theorem meanSquaredError_eq {A : RowMatrix α} {x b : List α} (hx : x.length = A.cols)
    (hb : b.length = A.height) : meanSquaredError A x b = .ok (meanResidual A b x) := by
  unfold meanSquaredError meanSquaredError? meanResidual
  by_cases hzero : A.height = 0
  · rw [if_pos hzero, if_pos hzero]
    rfl
  · have hlen : (A.mulVec x).length = b.length := by rw [A.length_mulVec, hb]
    have hsub : (Vec.sub (A.mulVec x) b).length = A.height := by
      rw [Vec.length_sub, A.length_mulVec, hb, Nat.min_self]
    have hproduct : A.mulVec? x = some (A.mulVec x) := if_pos hx
    rw [if_neg hzero, if_neg hzero, hproduct]
    simp only [Vec.pair?_of_length_eq _ hlen, Option.map_some, Option.elim_some]
    show Except.ok (Vec.mean ((Vec.sub (A.mulVec x) b).map fun a => a * a)) = _
    rw [Vec.mean, List.length_map, hsub]
    rfl

/-- What is computed for all elements of a list succeeds if it does for each, with their values. -/
theorem mapM_eq_ok_iff {β γ ε : Type} (f : β → Except ε γ) (l : List β) (r : List γ) :
    l.mapM f = .ok r ↔ l.map f = r.map .ok := by
  induction l generalizing r with
  | nil => cases r <;> simp [pure, Except.pure]
  | cons a l ih =>
    rw [List.mapM_cons]
    cases ha : f a with
    | error e => cases r <;> simp [bind, Except.bind, ha]
    | ok v =>
      cases hl : l.mapM f with
      | error e => cases r <;> simp [bind, Except.bind, ← ih, hl, ha]
      | ok vs => cases r <;> simp [bind, Except.bind, pure, Except.pure, ← ih, hl, ha]

/-- The errors of the points of a path on a matrix and observations. -/
def errorsOf (A : RowMatrix α) (b : List α) (points : List (Path.Point α)) :
    List (Except (Fault α) α) :=
  points.map fun pt => meanSquaredError A pt.x b

/-! ### Drivers -/

/-- The policy of the paths is to keep unsolved steps. -/
theorem ofName?_keep : (some Path.Policy.keep.name).bind Path.Policy.ofName? = some .keep := by
  decide

/-- An accepted configuration of the paths has the length and the ratio of the settings, and it
    walks the whole schedule and keeps unsolved steps. -/
theorem Settings.config_of_accept {s : Settings α} {config : Path.Config α}
    (h : s.pathParameters.accept = .ok config) :
    (config.count : Int) = s.count ∧ config.ratio = s.ratio ∧ config.Unlimited ∧
      config.policy = .keep := by
  unfold Path.Parameters.accept at h
  simp only [Settings.pathParameters, Fault.required, bind, Except.bind, ofName?_keep] at h
  split at h
  · cases h
  · rename_i hcount
    split at h
    · cases h
    · split at h
      · cases h
      · obtain rfl := Except.ok.inj h
        exact ⟨Int.toNat_of_nonneg (by omega), rfl, ⟨rfl, rfl, rfl⟩, rfl⟩

/-- A length, a ratio and a tolerance in range make a configuration of the paths. -/
theorem exists_config {s : Settings α} (hcount : ¬ s.count < 1)
    (hratio : 0 < s.ratio ∧ s.ratio < 1) (htol : ¬ (Scalar.ratio 1 1000 : α) < 0) :
    ∃ config, s.pathParameters.accept = .ok config := by
  unfold Path.Parameters.accept
  simp only [Settings.pathParameters, Fault.required, bind, Except.bind, ofName?_keep]
  rw [dif_neg hcount, dif_neg (not_not.2 hratio), dif_neg htol]
  exact ⟨_, rfl⟩

/-- Where a driver comes from. -/
theorem Factory.driver_ok {F : Factory α σ} {s : Settings α} {d : Path.Driver α σ}
    {setup : Path.Setup α σ} :
    Factory.driver F s = .ok (d, setup) ↔ ∃ engine fresh config,
      F = .ok (engine, fresh) ∧ s.pathParameters.accept = .ok config ∧ d = .new fresh ∧
        setup = ⟨config, engine, fun _ => 0⟩ := by
  unfold Factory.driver
  cases F with
  | error f => simp
  | ok source =>
    obtain ⟨engine, fresh⟩ := source
    cases s.pathParameters.accept with
    | error f => simp
    | ok config => simp [eq_comm]

/-! ### Folds -/

/-- There is an observation for each position. -/
@[simp] theorem length_select (b : List α) (positions : List Nat) :
    (select b positions).length = positions.length :=
  List.length_map ..

namespace Fold

/-- The lasso on the training rows of a fold. -/
def problem (A : RowMatrix α) (b : List α) (split : Split) : Problem α :=
  .ofLasso ⟨0, A.selectRows split.train⟩ (select b split.train)

/-- The calls of the path of a fold, each with its reply, in order. -/
def calls (F : Factory α σ) (s : Settings α) (A : RowMatrix α) (b : List α) (top : α)
    (split : Split) : List (Request α × Reply α) :=
  match Factory.driver F s with
  | .error _ => []
  | .ok (d, setup) => d.calls setup (problem A b split) (some top)

variable {F : Factory α σ} {s : Settings α} {A : RowMatrix α} {b : List α} {top : α}
  {split : Split} {d : Path.Driver α σ} {setup : Path.Setup α σ}

/-- There is an observation for each training row. -/
theorem observations_length (A : RowMatrix α) (b : List α) (positions : List Nat) :
    (select b positions).length = (A.selectRows positions).height := by
  rw [length_select, A.height_selectRows]

/-- The calls of a fold whose driver is known. -/
theorem calls_of_driver (h : Factory.driver F s = .ok (d, setup)) :
    calls F s A b top split = d.calls setup (problem A b split) (some top) := by
  rw [calls, h]

/-- A fold begins the path on its lasso. -/
theorem path_start (h : Factory.driver F s = .ok (d, setup)) :
    (start F s A b top split).path = .ok (d.start setup (problem A b split) top) := by
  simp only [start, h]
  rw [Problem.lasso_eq (observations_length A b split.train)]
  rfl

/-- The errors of a fold along a result. -/
theorem errors_eq_ok {t : Fold α σ} {r : Path.Result α} {e : FoldErrors α} :
    t.errors r = .ok e ↔ errorsOf t.train t.trainB r.points = e.train.map .ok ∧
      errorsOf t.test t.testB r.points = e.test.map .ok := by
  unfold errors errorsOf
  rw [← mapM_eq_ok_iff, ← mapM_eq_ok_iff]
  obtain ⟨train, test⟩ := e
  cases (r.points.mapM fun pt => meanSquaredError t.train pt.x t.trainB) with
  | error f => simp
  | ok train' =>
    cases (r.points.mapM fun pt => meanSquaredError t.test pt.x t.testB) with
    | error f => simp
    | ok test' => simp

/-- What a fold returns: the errors of the points of its path. -/
theorem outcome_finish_start {e : FoldErrors α} :
    (start F s A b top split).finish.outcome = .ok e ↔
      ∃ d setup r, Factory.driver F s = .ok (d, setup) ∧
        (d.run setup (problem A b split) (some top)).outcome = .ok r ∧
          errorsOf (A.selectRows split.train) (select b split.train) r.points = e.train.map .ok ∧
            errorsOf (A.selectRows split.test) (select b split.test) r.points = e.test.map .ok := by
  cases hdriver : Factory.driver F s with
  | error f =>
    have hpath : (start F s A b top split).path = .error f := by
      simp only [start, hdriver]
    simp [finish, hpath]
  | ok source =>
    obtain ⟨d, setup⟩ := source
    -- A path that is begun with a top is the run with that top pinned.
    have hrun : (d.start setup (problem A b split) top).finish =
        d.run setup (problem A b split) (some top) := rfl
    simp only [finish, path_start hdriver, hrun]
    cases houtcome : (d.run setup (problem A b split) (some top)).outcome with
    | error f =>
      refine iff_of_false (by simp) ?_
      rintro ⟨d', setup', r, hdriver', hr, -⟩
      cases hdriver'
      rw [houtcome] at hr
      cases hr
    | ok r =>
      rw [errors_eq_ok]
      constructor
      · rintro ⟨htrain, htest⟩
        exact ⟨d, setup, r, rfl, houtcome, htrain, htest⟩
      · rintro ⟨d', setup', r', hdriver', hr, htrain, htest⟩
        cases hdriver'
        obtain rfl := Except.ok.inj (houtcome.symm.trans hr)
        exact ⟨htrain, htest⟩

end Fold

end RegPath.CrossValidation
