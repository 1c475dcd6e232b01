import RegPath.Proofs.CrossValidation.Whole
import RegPath.Proofs.CrossValidation.Selection
import RegPath.Proofs.Lasso.Threshold

namespace RegPath.CrossValidation

/-!
# Alignment

All errors of a fit are matched by their position.  That is sound because no path of the fit stops
early: every fold and the path on the full data take one step for each entry of the one schedule
from the top of the full data, whatever the engines find.

* `Settings.Accepted` — settings with which every penalty can be installed;
* `Factory.Serves` — a source of an engine that answers;
* `exists_whole_path` — a path of the fit has a point for each penalty;
* `FoldErrors.TakenAlong`, `Fold.exists_errors` — the errors of a fold are taken at these points;
* `Aligned`, `Selector.fitBy_aligned` — the table, the path and the chosen step.
-/

variable {α : Type} [Scalar α] {σ : Type}

/-! ### Settings and engines -/

/-- The settings are accepted for paths from a top, and the penalties from there can be listed and
    installed. -/
structure Settings.Accepted (s : Settings α) (top : α) (schedule : Schedule α)
    (lambdas : List α) : Prop where
  /-- They are a configuration of paths. -/
  config : ∃ config, s.pathParameters.accept = .ok config
  /-- They make the schedule. -/
  make : Schedule.make top s.count s.ratio = .ok schedule
  /-- Its size can be reported. -/
  size : schedule.count ≤ Schedule.largestSize
  /-- Its entries are numbers. -/
  grid : schedule.grid = .ok lambdas
  /-- They are positive. -/
  positive : ∀ lam ∈ lambdas, 0 < lam

/-- The source gives an engine that answers what a path on the problem may ask. -/
def Factory.Serves (F : Factory α σ) (p : Problem α) : Prop :=
  ∃ engine fresh, F = .ok (engine, fresh) ∧ engine.ServesFrom fresh p

variable {s : Settings α} {top : α} {schedule : Schedule α} {lambdas : List α}

/-- There is an entry for each of the steps that are asked for. -/
theorem Settings.Accepted.length_lambdas (h : s.Accepted top schedule lambdas) :
    (lambdas.length : Int) = s.count := by
  rw [Schedule.length_of_grid h.grid]
  exact (Schedule.make_ok h.make).2.1

/-- In exact arithmetic every number of steps that can be reported and every proper ratio are
    accepted. -/
theorem Settings.exists_accepted {s : Settings ℝ} {top : ℝ} (htop : 0 < top)
    (hcount : 1 ≤ s.count) (hsize : s.count ≤ Schedule.largestSize)
    (hratio : 0 < s.ratio ∧ s.ratio < 1) : ∃ schedule lambdas, s.Accepted top schedule lambdas := by
  have hcast : ((s.count.toNat : ℕ) : ℤ) = s.count := Int.toNat_of_nonneg (by omega)
  obtain ⟨schedule, hmake⟩ :=
    Schedule.exists_make htop (show 0 < s.count.toNat by omega) hratio
  rw [hcast] at hmake
  have hschedule := (Schedule.make_ok hmake).2.1
  obtain ⟨lambdas, hgrid⟩ := schedule.exists_grid
  have htol : ¬ (Scalar.ratio 1 1000 : ℝ) < 0 := by
    rw [Scalar.ratio]
    exact not_lt.2 (div_nonneg (Nat.cast_nonneg _) (Nat.cast_nonneg _))
  refine ⟨schedule, lambdas, ⟨exists_config (by omega) hratio htol, hmake, by omega, hgrid,
    Schedule.pos_of_grid hgrid⟩⟩

/-! ### Paths of a fit -/

section Paths

variable {F : Factory α σ} {d : Path.Driver α σ} {setup : Path.Setup α σ} {p : Problem α}
  {pinned : Option α}

/-- A path of the fit from the top has the schedule of the settings. -/
theorem schedule?_of_accepted (haccepted : s.Accepted top schedule lambdas) (hpos : ¬ top ≤ 0)
    (hdriver : Factory.driver F s = .ok (d, setup)) (htop : Path.Driver.IsTop p pinned top) :
    setup.schedule? p pinned = some schedule := by
  obtain ⟨engine, fresh, config, -, hconfig, -, rfl⟩ := Factory.driver_ok.1 hdriver
  obtain ⟨hcount, hratio, -⟩ := Settings.config_of_accept hconfig
  refine Path.Driver.schedule?_eq_some.2 ⟨top, htop, hpos, ?_,
    Schedule.ends_of_grid haccepted.size haccepted.grid⟩
  show Schedule.make top (config.count : Int) config.ratio = .ok schedule
  rw [hcount, hratio]
  exact haccepted.make

/-- Each point of a path with a serving engine has an entry for each column. -/
theorem length_of_mem_steps (hE : setup.engine.ServesFrom d.engine p) (hp : p.WellFormed)
    {pt : Path.Point α} (hpt : pt ∈ d.steps setup p pinned) : pt.x.length = p.width := by
  obtain ⟨schedule, turns, w, htrail, hmem⟩ := Path.Driver.exists_trail_of_step hpt
  exact (htrail.served hE hp).2.2.2 pt hmem

/-- A source that serves a problem gives a driver with accepted settings. -/
theorem exists_driver (haccepted : s.Accepted top schedule lambdas) (hF : F.Serves p) :
    ∃ d setup, Factory.driver F s = .ok (d, setup) := by
  obtain ⟨engine, fresh, hF, -⟩ := hF
  obtain ⟨config, hconfig⟩ := haccepted.config
  exact ⟨_, _, Factory.driver_ok.2 ⟨engine, fresh, config, hF, hconfig, rfl, rfl⟩⟩

/-- A path of the fit with an engine that answers returns, with a point for each penalty. -/
theorem exists_whole_path (haccepted : s.Accepted top schedule lambdas) (hpos : ¬ top ≤ 0)
    (hdriver : Factory.driver F s = .ok (d, setup)) (hF : F.Serves p) (hp : p.WellFormed)
    (htop : Path.Driver.IsTop p pinned top) :
    ∃ r, (d.run setup p pinned).outcome = .ok r ∧ r.points.map Path.Point.lam = lambdas ∧
      ∀ pt ∈ r.points, pt.x.length = p.width := by
  have hschedule := schedule?_of_accepted haccepted hpos hdriver htop
  obtain ⟨engine, fresh, config, hF', hconfig, rfl, rfl⟩ := Factory.driver_ok.1 hdriver
  obtain ⟨-, -, -, hpolicy⟩ := Settings.config_of_accept hconfig
  obtain ⟨engine', fresh', hF'', hE⟩ := hF
  cases hF'.symm.trans hF''
  obtain ⟨r, hr⟩ := Path.Driver.run_returns_of_positive (d := .new fresh) hschedule
    haccepted.grid haccepted.positive hE hp hpolicy
  refine ⟨r, hr, lam_of_run hpos haccepted.make haccepted.grid hdriver htop hr, fun pt hpt => ?_⟩
  rw [Path.Driver.points_eq_steps hr] at hpt
  exact length_of_mem_steps hE hp hpt

end Paths

/-! ### Folds -/

/-- The errors of a fold are taken at the answers to the calls of its path, of which each poses the
    lasso of its training rows with one of the penalties. -/
structure FoldErrors.TakenAlong (e : FoldErrors α) (F : Factory α σ) (s : Settings α)
    (A : RowMatrix α) (b : List α) (top : α) (lambdas : List α) (split : Split) : Prop where
  /-- There is a training error for each penalty. -/
  length_train : e.train.length = lambdas.length
  /-- There is a test error for each penalty. -/
  length_test : e.test.length = lambdas.length
  /-- Both are taken at the answer to the call for the penalty. -/
  taken : ∀ (i : Nat) (lam : α), lambdas[i]? = some lam →
    ∃ (q : Request α) (reply : Reply α) (a : Solution α) (u v : α) (h : 0 < lam),
      (Fold.calls F s A b top split)[i]? = some (q, reply) ∧ reply.outcome = .ok a ∧
        q.form = GraphForm.lasso (A.selectRows split.train) (select b split.train) lam h ∧
          e.train[i]? = some u ∧
            meanSquaredError (A.selectRows split.train) a.x (select b split.train) = .ok u ∧
              e.test[i]? = some v ∧
                meanSquaredError (A.selectRows split.test) a.x (select b split.test) = .ok v

namespace Fold

variable {F : Factory α σ} {A : RowMatrix α} {b : List α} {split : Split}

/-- The lasso of a fold is well formed. -/
theorem problem_wellFormed (A : RowMatrix α) (b : List α) (split : Split) :
    (problem A b split).WellFormed :=
  Problem.wellFormed_of_make (Problem.lasso_eq (observations_length A b split.train))

/-- The errors of points that fit the matrix. -/
theorem exists_errorsOf {A : RowMatrix α} {b : List α} (hb : b.length = A.height)
    {points : List (Path.Point α)} (hpoints : ∀ pt ∈ points, pt.x.length = A.cols) :
    ∃ errors : List α, errorsOf A b points = errors.map .ok := by
  refine ⟨points.map fun pt => meanResidual A b pt.x, ?_⟩
  rw [errorsOf, List.map_map]
  exact List.map_congr_left fun pt hpt => meanSquaredError_eq (hpoints pt hpt) hb

/-- An error of a list is the one of its point. -/
theorem exists_error {A : RowMatrix α} {b errors : List α} {points : List (Path.Point α)}
    (h : errorsOf A b points = errors.map .ok) {i : Nat} {pt : Path.Point α}
    (hpt : points[i]? = some pt) :
    ∃ u, errors[i]? = some u ∧ meanSquaredError A pt.x b = .ok u := by
  have hi := congrArg (fun l => l[i]?) h
  simp only [errorsOf, List.getElem?_map, hpt, Option.map_some] at hi
  obtain ⟨u, hu, hok⟩ := Option.map_eq_some_iff.1 hi.symm
  exact ⟨u, hu, hok.symm⟩

/-- A fold returns its errors, taken at the answers to the calls of its path. -/
theorem exists_errors (haccepted : s.Accepted top schedule lambdas) (hpos : ¬ top ≤ 0)
    (hF : F.Serves (problem A b split)) :
    ∃ e, (start F s A b top split).finish.outcome = .ok e ∧
      e.TakenAlong F s A b top lambdas split := by
  obtain ⟨d, setup, hdriver⟩ := exists_driver haccepted hF
  have htop : Path.Driver.IsTop (problem A b split) (some top) top := .inl rfl
  obtain ⟨r, hr, hlam, hpoints⟩ :=
    exists_whole_path haccepted hpos hdriver hF (problem_wellFormed A b split) htop
  obtain ⟨train, htrain⟩ := exists_errorsOf (observations_length A b split.train) hpoints
  obtain ⟨test, htest⟩ := exists_errorsOf (observations_length A b split.test) hpoints
  have hlen : r.points.length = lambdas.length := by rw [← hlam, List.length_map]
  refine ⟨⟨train, test⟩, outcome_finish_start.2 ⟨d, setup, r, hdriver, hr, htrain, htest⟩,
    ⟨(length_of_errorsOf htrain).trans hlen, (length_of_errorsOf htest).trans hlen,
      fun i lam hi => ?_⟩⟩
  -- The point for the penalty, and the call that it is the answer of.
  rw [← hlam, List.getElem?_map] at hi
  obtain ⟨pt, hpt, rfl⟩ := Option.map_eq_some_iff.1 hi
  obtain ⟨u, hu, hu'⟩ := exists_error htrain hpt
  obtain ⟨v, hv, hv'⟩ := exists_error htest hpt
  rw [Path.Driver.points_eq_steps hr] at hpt
  obtain ⟨⟨q, reply⟩, a, lam, hc, ha, hpenalty, rfl⟩ :=
    (Path.Driver.dialogue setup d (problem A b split) (some top)).point i pt hpt
  obtain ⟨lam', h, hpenalty', hform⟩ := Path.Driver.form_of_call
    (A := A.selectRows split.train) (b := select b split.train) ⟨rfl, rfl, rfl, rfl⟩ hc
  obtain rfl := Option.some.inj (hpenalty.symm.trans hpenalty')
  rw [calls_of_driver hdriver]
  exact ⟨q, reply, a, u, v, h, hc, ha, hform, hu, hu', hv, hv'⟩

end Fold

/-! ### The whole fit -/

/-- The path on the full data returns with a point for each penalty. -/
theorem exists_fullPath {F : Factory α σ} {A : RowMatrix α} {b : List α}
    (haccepted : s.Accepted top schedule lambdas) (hpos : ¬ top ≤ 0)
    (htop : lambdaMax A b = .ok top) (hF : F.Serves (.ofLasso ⟨0, A⟩ b)) :
    ∃ d setup r, Factory.driver F s = .ok (d, setup) ∧
      (d.run setup (.ofLasso ⟨0, A⟩ b) none).outcome = .ok r ∧
        (Selector.fullPath F s A b).1 = .ok r ∧ r.points.map Path.Point.lam = lambdas := by
  have hb := length_of_lambdaMax htop
  obtain ⟨d, setup, hdriver⟩ := exists_driver haccepted hF
  obtain ⟨r, hr, hlam, -⟩ := exists_whole_path haccepted hpos hdriver hF
    (Problem.wellFormed_of_make (Problem.lasso_eq hb)) (.inr ⟨rfl, htop⟩)
  exact ⟨d, setup, r, hdriver, hr, (Selector.fullPath_eq_ok hb).2 ⟨d, setup, hdriver, hr⟩, hlam⟩

/-- What is matched by position in a fit. -/
structure Aligned (F : Nat → Factory α σ) (s : Settings α) (A : RowMatrix α) (b : List α)
    (top : α) (lambdas : List α) (splits : List Split) (errors : List (FoldErrors α))
    (curve : Curve α) (path : Path.Result α) : Prop where
  /-- There is a penalty for each step that was asked for. -/
  length_lambdas : (lambdas.length : Int) = s.count
  /-- There are errors for each fold. -/
  length_errors : errors.length = splits.length
  /-- The errors of each fold are taken along the penalties. -/
  taken : ∀ (i : Nat) (e : FoldErrors α), errors[i]? = some e →
    ∃ split, splits[i]? = some split ∧ e.TakenAlong (F i) s A b top lambdas split
  /-- The table has the penalties. -/
  lam : curve.lam = lambdas
  /-- It has the mean training error of the folds at each of them. -/
  train : curve.train.length = lambdas.length ∧ ∀ (i : Nat) (u : α), curve.train[i]? = some u →
    ∃ us, (errors.map fun e => e.train[i]?) = us.map some ∧ u = Vec.mean us
  /-- It has the mean test error of the folds at each of them. -/
  test : curve.test.length = lambdas.length ∧ ∀ (i : Nat) (v : α), curve.test[i]? = some v →
    ∃ vs, (errors.map fun e => e.test[i]?) = vs.map some ∧ v = Vec.mean vs
  /-- The path is the one on the full data, from the top that they give. -/
  fullPath : ∃ d setup, Factory.driver (F splits.length) s = .ok (d, setup) ∧
    (d.run setup (.ofLasso ⟨0, A⟩ b) none).outcome = .ok path
  /-- It has a point for each penalty. -/
  points : path.points.map Path.Point.lam = lambdas
  /-- The table counts the coefficients of the points. -/
  nonzeros : curve.nonzeros = path.points.map fun pt => Vec.nonzeros pt.x

/-- The entry of a mean, if there is an error for each penalty. -/
theorem mean_of_lengths {β : Type} {n : Nat} {errors : List β} {get : β → List α}
    (h : ∀ e ∈ errors, (get e).length = n) {i : Nat} {u : α}
    (hu : (foldMeans n (errors.map get))[i]? = some u) :
    ∃ us, (errors.map fun e => (get e)[i]?) = us.map some ∧ u = Vec.mean us := by
  have hi : i < n := by
    have hlt := (List.getElem?_eq_some_iff.1 hu).1
    rwa [length_foldMeans] at hlt
  rw [getElem?_foldMeans hi] at hu
  refine ⟨(errors.map get).map fun l => l[i]?.getD 0, ?_, (Option.some.inj hu).symm⟩
  rw [List.map_map, List.map_map]
  refine List.map_congr_left fun e he => ?_
  have hlen : i < (get e).length := by rw [h e he]; exact hi
  rw [Function.comp_apply, Function.comp_apply, List.getElem?_eq_getElem hlen, Option.getD_some]

/-- What is chosen in a table with an entry for each penalty: the penalty and the coefficients at
    the entry that the search ends with. -/
theorem exists_chosen (hord : Scalar.Ordered α) {lambdas test : List α}
    {points : List (Path.Point α)} (hlambdas : lambdas ≠ []) (htest : test.length = lambdas.length)
    (hpoints : points.map Path.Point.lam = lambdas)
    (hbounds : ∀ u, ∀ v ∈ test, u ≤ v → Scalar.IsNumber v) :
    ∃ k v pt, Chosen test k v ∧
      lambdas[k]? = some (lambdas[(argmin test).getD 0]?.getD 0) ∧ points[k]? = some pt ∧
        (points[(argmin test).getD 0]?.map fun pt => pt.x).getD [] = pt.x := by
  have hne : test ≠ [] := by
    intro hnil
    rw [hnil, List.length_nil] at htest
    exact hlambdas (List.length_eq_zero_iff.1 htest.symm)
  obtain ⟨k, v, hk, hchosen⟩ := argmin_chosen hord hne hbounds
  -- The position in the test errors is one in the schedule and in the path.
  have hlt : k < lambdas.length := htest ▸ (List.getElem?_eq_some_iff.1 hchosen.entry).1
  have hlt' : k < points.length := by
    rw [← hpoints, List.length_map] at hlt
    exact hlt
  refine ⟨k, v, points[k], hchosen, ?_, List.getElem?_eq_getElem hlt', ?_⟩
  · rw [hk, Option.getD_some, List.getElem?_eq_getElem hlt, Option.getD_some]
  · rw [hk, Option.getD_some, List.getElem?_eq_getElem hlt', Option.map_some, Option.getD_some]

namespace Selector

variable {split : Nat → Except (Fault α) (List Split)} {F : Nat → Factory α σ}
  {form : MatrixForm α} {A : RowMatrix α} {b : List α} {splits : List Split}

/-- A fit of data with a positive penalty learns, if its settings are accepted and all of its
    engines answer, and what it learns is aligned. -/
theorem exists_learns (hA : form.read = .ok A) (htop : lambdaMax A b = .ok top) (hpos : ¬ top ≤ 0)
    (haccepted : s.Accepted top schedule lambdas) (hsplit : split A.height = .ok splits)
    (hfolds : ∀ (i : Nat) (sp : Split), splits[i]? = some sp →
      (F i).Serves (Fold.problem A b sp))
    (hfull : (F splits.length).Serves (.ofLasso ⟨0, A⟩ b)) (t : Selector α) :
    ∃ errors curve path,
      Learns split F s form b t ⟨some curve, some (lambdas[(argmin curve.test).getD 0]?.getD 0),
        some ((path.points[(argmin curve.test).getD 0]?.map fun pt => pt.x).getD []),
        some path⟩ ∧ Aligned F s A b top lambdas splits errors curve path := by
  have hreturns : ∀ (i : Nat) (sp : Split), splits[i]? = some sp →
      ∃ e, (Fold.start (F i) s A b top sp).finish.outcome = .ok e ∧
        e.TakenAlong (F i) s A b top lambdas sp :=
    fun i sp hsp => Fold.exists_errors haccepted hpos (hfolds i sp hsp)
  obtain ⟨errors, herrors⟩ := Fold.exists_outcomes fun i sp hsp =>
    (hreturns i sp hsp).imp fun _ he => he.1
  have htaken : ∀ (i : Nat) (e : FoldErrors α), errors[i]? = some e →
      ∃ sp, splits[i]? = some sp ∧ e.TakenAlong (F i) s A b top lambdas sp := by
    intro i e he
    obtain ⟨sp, hsp, hok⟩ := Fold.exists_of_outcomes herrors he
    obtain ⟨e', hok', htaken⟩ := hreturns i sp hsp
    obtain rfl := Except.ok.inj (hok.symm.trans hok')
    exact ⟨sp, hsp, htaken⟩
  have hlen := Fold.lengths_of_outcomes hpos haccepted.make haccepted.grid herrors
  obtain ⟨d, setup, path, hdriver, hpath, hfullPath, hpoints⟩ :=
    exists_fullPath haccepted hpos htop hfull
  have hlayOut : layOut split s A.height top = .ok (lambdas, splits) :=
    layOut_ok.2 ⟨schedule, haccepted.make, haccepted.grid, hsplit⟩
  refine ⟨errors, _, path, .regular hA htop hpos hlayOut herrors hfullPath, ?_⟩
  constructor
  case length_lambdas => exact haccepted.length_lambdas
  case length_errors => exact Fold.length_of_outcomes herrors
  case taken => exact htaken
  case lam => rfl
  case train =>
    refine ⟨length_foldMeans _ _, fun i u hu => ?_⟩
    exact mean_of_lengths (fun e he => (hlen e he).1) hu
  case test =>
    refine ⟨length_foldMeans _ _, fun i v hv => ?_⟩
    exact mean_of_lengths (fun e he => (hlen e he).2) hv
  case fullPath => exact ⟨d, setup, hdriver, hpath⟩
  case points => exact hpoints
  case nonzeros => rfl

end Selector

/-! ### A column -/

/-- The layout of a column with two ones. -/
def columnLayout : Csr ℝ := ⟨2, 1, .narrow, [0, 1, 2], [0, 0], [1, 1]⟩

/-- It is accepted. -/
theorem columnLayout_accepted : columnLayout.Accepted where
  pointerLength := rfl
  starts := rfl
  ends := rfl
  dataLength := rfl
  ordered := by decide
  inRange := by simp [columnLayout]

/-- The column. -/
noncomputable def column : RowMatrix ℝ := columnLayout.toRows columnLayout_accepted

/-- The layout is read as the column. -/
theorem read_column : (MatrixForm.compressed columnLayout).read = .ok column :=
  MatrixForm.read_compressed columnLayout_accepted

/-- The threshold of two observations is their sum. -/
theorem lambdaMax_column (c c' : ℝ) : lambdaMax column [c, c'] = .ok |c + c'| := by
  have hb : ([c, c'] : List ℝ).length = column.height := rfl
  have hproduct : column.transpose.mulVec [c, c'] = [1 * c + (1 * c' + 0)] := rfl
  have hnil : Vec.normInf ([] : List ℝ) = 0 := rfl
  rw [lambdaMax_eq hb, hproduct, Vec.normInf_cons, hnil, max_eq_left (abs_nonneg _), one_mul,
    one_mul, add_zero]

/-- Two folds on two workers, with two penalties. -/
noncomputable def pairSettings : Settings ℝ where
  count := 2
  ratio := Scalar.half
  folds := 2
  seed := 0
  warmStart := true
  workers := 2
  two_le_folds := by decide

/-- They are accepted with every positive top. -/
theorem pairSettings_accepted {top : ℝ} (htop : 0 < top) :
    ∃ schedule lambdas, pairSettings.Accepted top schedule lambdas := by
  refine Settings.exists_accepted htop (by show (1 : ℤ) ≤ 2; decide) ?_ Scalar.half_mem
  show (2 : ℤ) ≤ Schedule.largestSize
  decide

/-- They split two rows. -/
theorem exists_pairSplits : ∃ splits, pairSettings.split column.height = .ok splits := by
  have hrefused : ¬ (2 < 2 ∨ (0 : ℤ) < 0 ∨ (seedBound : ℤ) ≤ 0) := by decide
  show ∃ folds, splits 2 2 0 = .ok folds
  unfold splits
  rw [if_neg hrefused]
  exact ⟨_, rfl⟩

/-- The source of the engine that answers zero. -/
noncomputable def zeroFactory : Factory ℝ Unit := .ok (Path.zeroEngine, ())

/-- It serves every problem. -/
theorem zeroFactory_serves (p : Problem ℝ) : zeroFactory.Serves p :=
  ⟨_, _, rfl, (Path.zeroEngine_serves p).servesFrom ()⟩

/-- The threshold of the observations one and zero is one. -/
theorem lambdaMax_oneZero : lambdaMax column [1, 0] = .ok 1 := by
  rw [lambdaMax_column, add_zero, abs_one]

/-- With an engine that serves every problem, a fit of the observations one and zero learns. -/
theorem exists_learns_oneZero {F : Factory ℝ σ} (hF : ∀ p, F.Serves p) (t : Selector ℝ) :
    ∃ u path, Selector.Learns pairSettings.split (fun _ => F) pairSettings
      (.compressed columnLayout) [1, 0] t u ∧ u.path = some path := by
  obtain ⟨schedule, lambdas, haccepted⟩ := pairSettings_accepted one_pos
  obtain ⟨splits, hsplits⟩ := exists_pairSplits
  obtain ⟨errors, curve, path, hlearns, -⟩ :=
    Selector.exists_learns (F := fun _ => F) read_column lambdaMax_oneZero (not_le.2 one_pos)
      haccepted hsplits (fun _ _ _ => hF _) (hF _) t
  exact ⟨_, path, hlearns, rfl⟩

end RegPath.CrossValidation
