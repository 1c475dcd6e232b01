import RegPath.Path.Driver
import RegPath.CrossValidation.Folds
import RegPath.CrossValidation.Pool

namespace RegPath.CrossValidation

/-!
# Cross-validation

Each fold runs the whole schedule of the full data on its training rows and is judged on its test
rows.  The penalty with the lowest mean test error is chosen, and its coefficients are read off a
path on the full data.

* `Settings` — accepted settings;
* `meanSquaredError?` — the error of coefficients on a matrix and observations;
* `Factory` — where the engine of a path comes from;
* `Fold` — a fold under way;
* `argmin` — the first smallest entry;
* `Selector` — what has been fitted, with `Selector.fit`, `Selector.predict`, `Selector.chart`;
  `Selector.fitBy` is the fit on any splits and with an engine of its own for each path.
-/

variable {α : Type} [Scalar α] {σ : Type}

/-! ### Settings -/

/-- Settings as they are asked for. -/
structure Parameters (α : Type) [Scalar α] where
  /-- Length of the schedule. -/
  count : Option Int := some 100
  /-- Last penalty as a fraction of the first. -/
  ratio : Option α := some (Scalar.ratio 1 100)
  /-- Number of folds. -/
  folds : Option Int := some 5
  /-- Seed of the random order of the rows. -/
  seed : Int := 0
  /-- Whether each step starts from the last one. -/
  warmStart : Bool := true
  /-- Number of workers; one or less for none. -/
  workers : Int := 1

/-- Accepted settings: at least two folds.  All else is judged by a fit. -/
structure Settings (α : Type) [Scalar α] where
  /-- Length of the schedule. -/
  count : Int
  /-- Last penalty as a fraction of the first. -/
  ratio : α
  /-- Number of folds. -/
  folds : Int
  /-- Seed of the random order of the rows. -/
  seed : Int
  /-- Whether each step starts from the last one. -/
  warmStart : Bool
  /-- Number of workers; one or less for none. -/
  workers : Int
  /-- There are at least two folds. -/
  two_le_folds : 2 ≤ folds

/-- Accepts settings of which none is missing; the number of folds is judged first. -/
def Parameters.accept (p : Parameters α) : Except (Fault α) (Settings α) := do
  let folds ← Fault.required p.folds
  if h : folds < 2 then .error (.foldCount folds) else
  let count ← Fault.required p.count
  let ratio ← Fault.required p.ratio
  return {
    count, ratio, folds
    seed := p.seed
    warmStart := p.warmStart
    workers := p.workers
    two_le_folds := by omega }

/-- The configuration of all paths: the whole schedule is walked. -/
def Settings.pathParameters (s : Settings α) : Path.Parameters α :=
  { count := some s.count, ratio := some s.ratio, warmStart := s.warmStart, earlyStop := false }

/-- The folds of a number of rows: as many as the settings say, in the order of their seed. -/
def Settings.split (s : Settings α) (height : Nat) : Except (Fault α) (List Split) :=
  splits height s.folds.toNat s.seed

/-! ### Errors -/

/-- The mean of `(A x - b)²` over the rows, zero without rows.  A single observation serves all
    rows. -/
def meanSquaredError? (A : RowMatrix α) (x b : List α) : Option α :=
  if A.height = 0 then some 0
  else match A.mulVec? x with
    | none => none
    | some y => (Vec.pair? (· - ·) y b).map fun r => Vec.mean (r.map fun a => a * a)

/-- The error of coefficients that fit the matrix. -/
def meanSquaredError (A : RowMatrix α) (x b : List α) : Except (Fault α) α :=
  (meanSquaredError? A x b).elim (.error .lengths) .ok

/-! ### Folds under way -/

/-- Where the engine of a path comes from: an engine with a fresh state, or why there is none. -/
abbrev Factory (α : Type) [Scalar α] (σ : Type) := Except (Fault α) (Engine α σ × σ)

/-- A driver with a fresh engine, and its setup. -/
def Factory.driver (F : Factory α σ) (s : Settings α) :
    Except (Fault α) (Path.Driver α σ × Path.Setup α σ) :=
  match F with
  | .error f => .error f
  -- The engine comes first, so that its settings are judged before those of the path.
  | .ok (engine, fresh) => match s.pathParameters.accept with
    | .error f => .error f
    | .ok config => .ok (.new fresh, ⟨config, engine, fun _ => 0⟩)

/-- Observations at the given positions. -/
def select (b : List α) (positions : List Nat) : List α := positions.map fun i => b[i]?.getD 0

/-- The rows of a fold, and its path. -/
structure Fold (α : Type) [Scalar α] (σ : Type) where
  /-- The rows that are trained on. -/
  train : RowMatrix α
  /-- Their observations. -/
  trainB : List α
  /-- The rows that are tested on. -/
  test : RowMatrix α
  /-- Their observations. -/
  testB : List α
  /-- The path on the training rows, or why there is none. -/
  path : Except (Fault α) (Path.Driver.Begun α σ)

/-- The errors of a fold along its path. -/
structure FoldErrors (α : Type) where
  /-- On the rows that are trained on. -/
  train : List α
  /-- On the rows that are tested on. -/
  test : List α

/-- The end of a fold. -/
structure FoldEnd (α : Type) where
  /-- Its errors, or the fault that stopped it. -/
  outcome : Except (Fault α) (FoldErrors α)
  /-- Its events. -/
  events : List (Event α)

namespace Fold

/-- Begins a fold, with the top of the schedule of the full data. -/
def start (F : Factory α σ) (s : Settings α) (A : RowMatrix α) (b : List α) (lamMax : α)
    (split : Split) : Fold α σ :=
  let train := A.selectRows split.train
  let trainB := select b split.train
  { train, trainB
    test := A.selectRows split.test
    testB := select b split.test
    path := match Factory.driver F s with
      | .error f => .error f
      | .ok (driver, setup) => match Problem.lasso ⟨0, train⟩ trainB with
        | .error f => .error f
        | .ok p => .ok (driver.start setup p lamMax) }

/-- One step of the path of a fold. -/
def advance (t : Fold α σ) : Fold α σ := { t with path := t.path.map (·.advance) }

/-- Whether a fold has nothing left to walk. -/
def ended (t : Fold α σ) : Bool :=
  match t.path with
  | .error _ => true
  | .ok p => p.ended

/-- The errors along a result. -/
def errors (t : Fold α σ) (r : Path.Result α) : Except (Fault α) (FoldErrors α) :=
  match r.points.mapM fun p => meanSquaredError t.train p.x t.trainB with
  | .error f => .error f
  | .ok train => match r.points.mapM fun p => meanSquaredError t.test p.x t.testB with
    | .error f => .error f
    | .ok test => .ok ⟨train, test⟩

/-- The end of a fold: all steps that are left, and the errors. -/
def finish (t : Fold α σ) : FoldEnd α :=
  match t.path with
  | .error f => ⟨.error f, []⟩
  | .ok p =>
    let r := p.finish
    match r.outcome with
    | .error f => ⟨.error f, r.events⟩
    | .ok result => ⟨t.errors result, r.events⟩

/-- Begins all folds; each has a source of its own for its engine. -/
def startAll (F : Nat → Factory α σ) (s : Settings α) (A : RowMatrix α) (b : List α) (lamMax : α)
    (splits : List Split) : List (Fold α σ) :=
  splits.mapIdx fun i split => start (F i) s A b lamMax split

/-- Folds as tasks. -/
def resumable : Resumable (Fold α σ) (FoldEnd α) := ⟨advance, ended, finish⟩

end Fold

/-- The outcomes of folds that run one after the other, with their events.  A fault stops the
    folds after it. -/
def inTurn : List (Fold α σ) → Except (Fault α) (List (FoldErrors α)) × List (Event α)
  | [] => (.ok [], [])
  | t :: rest =>
    let e := t.finish
    match e.outcome with
    | .error f => (.error f, e.events)
    | .ok v =>
      let (vs, events) := inTurn rest
      (vs.map (v :: ·), e.events ++ events)

/-- The outcomes of folds that have all ended, with their events; the first fault counts. -/
def collect : List (FoldEnd α) → Except (Fault α) (List (FoldErrors α)) × List (Event α)
  | [] => (.ok [], [])
  | e :: rest =>
    let (vs, events) := collect rest
    (match e.outcome with
      | .error f => .error f
      | .ok v => vs.map (v :: ·), e.events ++ events)

/-- Runs all folds: one after the other, or on workers whose turns follow the choices. -/
def runFolds (workers : Int) (choices : List Nat) (folds : List (Fold α σ)) :
    Except (Fault α) (List (FoldErrors α)) × List (Event α) :=
  if 1 < workers then collect (drain Fold.resumable workers.toNat folds choices)
  else inTurn folds

/-! ### Selection -/

/-- The mean over the folds at each of `n` penalties. -/
def foldMeans (n : Nat) (errors : List (List α)) : List α :=
  (List.range n).map fun i => Vec.mean (errors.map fun e => e[i]?.getD 0)

/-- Goes on looking for the smallest entry, with the best one so far and its position.  An entry
    that is not a number ends the search. -/
def argminFrom (best : α) (position : Nat) : List (α × Nat) → Nat
  | [] => position
  | (a, i) :: rest =>
    -- Once the best entry is not a number, no later one can replace it.
    if ¬ Scalar.IsNumber best then position
    else if best ≤ a then argminFrom best position rest
    else argminFrom a i rest

/-- The position of the first entry that is not a number, or else of the first smallest one. -/
def argmin : List α → Option Nat
  | [] => none
  | a :: rest => some (argminFrom a 0 (rest.zipIdx 1))

/-- The errors along the schedule, by columns. -/
structure Curve (α : Type) where
  /-- The penalties. -/
  lam : List α
  /-- Mean errors on the training rows. -/
  train : List α
  /-- Mean errors on the test rows. -/
  test : List α
  /-- How many coefficients of the path on the full data are not zero. -/
  nonzeros : List Nat

/-- The heads of the columns of a curve. -/
def Curve.heads : List String := ["lambda", "mse_cv_train", "mse_cv_test", "nnz"]

/-- What has been fitted. -/
structure Selector (α : Type) where
  /-- The errors along the schedule. -/
  curve : Option (Curve α)
  /-- The chosen penalty. -/
  best : Option α
  /-- Its coefficients. -/
  coef : Option (List α)
  /-- The path on the full data. -/
  path : Option (Path.Result α)

/-- The end of a fit. -/
structure Fit (α : Type) where
  /-- Nothing, or the fault that stopped the fit. -/
  outcome : Except (Fault α) Unit
  /-- What has been fitted afterwards. -/
  selector : Selector α
  /-- The events, in order. -/
  events : List (Event α)

namespace Selector

/-- Nothing fitted. -/
def new : Selector α := ⟨none, none, none, none⟩

/-- The fit of data without a positive penalty: the zero solution.  The path is left as it was. -/
def allZero (t : Selector α) (n : Nat) (lamMax : α) : Fit α where
  outcome := .ok ()
  selector := { t with best := some 0, coef := some (Vec.zeros n), curve := some ⟨[], [], [], []⟩ }
  events := [.allZero lamMax]

/-- The fit of such data if the coefficients are too many for an array of zeros.  It breaks off when
    the penalty has been assigned. -/
def noRoom (t : Selector α) (lamMax : α) : Fit α where
  outcome := .error .malformedArray
  selector := { t with best := some 0 }
  events := [.allZero lamMax]

/-- The fit of data without a positive penalty, with `n` coefficients. -/
def fitZero (t : Selector α) (n : Nat) (lamMax : α) : Fit α :=
  if Scalar.HasRoom α n then t.allZero n lamMax else t.noRoom lamMax

/-- What is fitted, from the penalties, the errors of the folds and the path on the full data. -/
def conclude (lambdas : List α) (errors : List (FoldErrors α))
    (path : Path.Result α) (events : List (Event α)) : Fit α :=
  let n := lambdas.length
  let test := foldMeans n (errors.map FoldErrors.test)
  let curve : Curve α :=
    { lam := lambdas
      train := foldMeans n (errors.map FoldErrors.train)
      test
      nonzeros := path.points.map fun p => Vec.nonzeros p.x }
  -- The position in the test errors is a position in the schedule and in the path.
  let step := (argmin test).getD 0
  let lam := lambdas[step]?.getD 0
  { outcome := .ok ()
    selector :=
      { curve := some curve
        best := some lam
        coef := some ((path.points[step]?.map fun p => p.x).getD [])
        path := some path }
    events := events ++ [.chosen lam step (test[step]?.getD 0)] }

/-- The path on the full data, as a timed function inside the fit. -/
def fullPath (F : Factory α σ) (s : Settings α) (A : RowMatrix α) (b : List α) :
    Except (Fault α) (Path.Result α) × List (Event α) :=
  match Factory.driver F s with
  | .error f => (.error f, [])
  | .ok (driver, setup) =>
    let r := driver.fitLasso setup ⟨0, A⟩ b
    (r.outcome, timed 1 Path.Driver.fitName r.events)

/-- The fit of a schedule on given folds.  The path on the full data takes its engine from the
    source after those of the folds. -/
def fitSplits (F : Nat → Factory α σ) (s : Settings α) (choices : List Nat) (t : Selector α)
    (A : RowMatrix α) (b : List α) (lamMax : α) (lambdas : List α) (splits : List Split) :
    Fit α :=
  match runFolds s.workers choices (Fold.startAll F s A b lamMax splits) with
  | (.error f, events) => ⟨.error f, t, events⟩
  | (.ok errors, events) =>
    match fullPath (F splits.length) s A b with
    | (.error f, more) => ⟨.error f, t, events ++ more⟩
    | (.ok path, more) => conclude lambdas errors path (events ++ more)

/-- The fit from what the folds have returned, with a path on the full data. -/
def fitFolds (F : Factory α σ) (s : Settings α) (t : Selector α) (A : RowMatrix α)
    (b lambdas : List α) (folds : Except (Fault α) (List (FoldErrors α)) × List (Event α)) :
    Fit α :=
  match folds with
  | (.error f, events) => ⟨.error f, t, events⟩
  | (.ok errors, events) =>
    match fullPath F s A b with
    | (.error f, more) => ⟨.error f, t, events ++ more⟩
    | (.ok path, more) => conclude lambdas errors path (events ++ more)

/-- The fit on given folds is the fit from what they return. -/
theorem fitSplits_eq (F : Nat → Factory α σ) (s : Settings α) (choices : List Nat)
    (t : Selector α) (A : RowMatrix α) (b : List α) (lamMax : α) (lambdas : List α)
    (splits : List Split) : fitSplits F s choices t A b lamMax lambdas splits =
      t.fitFolds (F splits.length) s A b lambdas
        (runFolds s.workers choices (Fold.startAll F s A b lamMax splits)) :=
  rfl

/-- The grid of penalties and the folds, in the order in which they are judged. -/
def layOut (split : Nat → Except (Fault α) (List Split)) (s : Settings α) (height : Nat)
    (lamMax : α) : Except (Fault α) (List α × List Split) :=
  match Schedule.make lamMax s.count s.ratio with
  | .error f => .error f
  | .ok schedule => match schedule.grid with
    | .error f => .error f
    | .ok lambdas => match split height with
      | .error f => .error f
      | .ok splits => .ok (lambdas, splits)

/-- The fit of a matrix and observations. -/
def fitRows (split : Nat → Except (Fault α) (List Split)) (F : Nat → Factory α σ)
    (s : Settings α) (choices : List Nat) (t : Selector α) (A : RowMatrix α) (b : List α) :
    Fit α :=
  match lambdaMax A b with
  | .error f => ⟨.error f, t, []⟩
  | .ok lamMax =>
    if lamMax ≤ 0 then t.fitZero A.cols lamMax
    else match layOut split s A.height lamMax with
      | .error f => ⟨.error f, t, []⟩
      | .ok (lambdas, splits) => fitSplits F s choices t A b lamMax lambdas splits

/-- The name of a fit in its events. -/
def fitName : String := "LassoPathCV.fit"

/-- The fit of a matrix in any form and observations, as a timed function, with a way to split the
    rows and sources of engines. -/
def fitBy (split : Nat → Except (Fault α) (List Split)) (F : Nat → Factory α σ) (s : Settings α)
    (choices : List Nat) (t : Selector α) (form : MatrixForm α) (b : List α) : Fit α :=
  let r : Fit α := match form.read with
    | .error f => ⟨.error f, t, []⟩
    | .ok A => t.fitRows split F s choices A b
  { r with events := timed 0 fitName r.events }

/-- The fit with the folds of the settings, and one source of engines for all paths. -/
def fit (F : Factory α σ) (s : Settings α) (choices : List Nat) (t : Selector α)
    (form : MatrixForm α) (b : List α) : Fit α :=
  t.fitBy s.split (fun _ => F) s choices form b

/-- The values of the chosen coefficients on a matrix in any form. -/
def predict (t : Selector α) (form : MatrixForm α) : Except (Fault α) (List α) :=
  match t.coef with
  | none => .error .notFitted
  | some coef => match form.read with
    | .error f => .error f
    | .ok A => (A.mulVec? coef).elim (.error .lengths) .ok

/-- The errors against the logarithm of the penalty; a vertical line marks the chosen penalty
    unless it is zero. -/
def chart (t : Selector α) (curve : Curve α) : Path.Chart α :=
  let axis := curve.lam.map Scalar.log10
  let mark := (t.best.filter fun lam => decide ¬ Scalar.IsZero lam).toList
  { title := ""
    xLabel := Path.penaltyAxis
    yLabel := "Mean squared error (cv)"
    xInverted := true
    lines := [(axis, curve.train), (axis, curve.test)] ++
      mark.map fun lam => ([Scalar.log10 lam, Scalar.log10 lam], [0, 1])
    legend := ["train", "test"] ++ mark.map fun _ => "best lambda" }

end Selector

end RegPath.CrossValidation
