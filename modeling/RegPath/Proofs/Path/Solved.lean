import RegPath.Proofs.CrossValidation.Folds
import RegPath.Proofs.Lasso.Minimisers
import RegPath.Proofs.Path.Dialogue

namespace RegPath.Path

/-!
# Paths whose steps are solved exactly

If every call of a path on a lasso is answered with a minimiser, the path is the path of the
mathematics.  Its absolute sums do not fall and its residuals do not grow, since its penalties fall.
What is fitted does not depend on how it was found: two paths from one top, with whatever engines,
starts and vectors, have the same row values at every step.

* `Exact`, `Consistent` — calls that are answered with minimisers, and with their row values;
* `Driver.step_isMinimiser` — each step of an exact path is a minimiser;
* `IsMonotone`, `Driver.isMonotone_steps` — an exact path is monotone;
* `SameFit`, `Driver.sameFit_of_exact` — two exact paths fit the same;
* `exactEngine` — an engine that finds a minimiser.
-/

variable {σ τ : Type}

/-- Every call is answered with a minimiser of the problem that it poses. -/
def Exact (calls : List (Request ℝ × Reply ℝ)) : Prop :=
  ∀ c ∈ calls, ∃ a, c.2.outcome = .ok a ∧ c.1.form.IsMinimiser a.x

/-- Every answer has the row values of its coefficients. -/
def Consistent (calls : List (Request ℝ × Reply ℝ)) : Prop :=
  ∀ c ∈ calls, ∀ a, c.2.outcome = .ok a → a.y = c.1.design.matrix.mulVec a.x

/-- Along consecutive points the absolute sum does not fall and the residual does not grow. -/
def IsMonotone (A : RowMatrix ℝ) (b : List ℝ) (points : List (Point ℝ)) : Prop :=
  points.Pairwise fun pt pt' =>
    Vec.norm1 pt.x ≤ Vec.norm1 pt'.x ∧ A.residual b pt'.x ≤ A.residual b pt.x

namespace Driver

variable {s : Setup ℝ σ} {d : Driver ℝ σ} {p : Problem ℝ} {pinned : Option ℝ} {A : RowMatrix ℝ}
  {b : List ℝ}

/-! ### Steps -/

/-- Each answer of an exact path on a lasso is a minimiser for the penalty of its step. -/
theorem call_isMinimiser (hp : (Problem.ofLasso ⟨0, A⟩ b).SameData p)
    (hexact : Exact (d.calls s p pinned)) {i : ℕ} {c : Request ℝ × Reply ℝ} {a : Solution ℝ}
    (hc : (d.calls s p pinned)[i]? = some c) (ha : c.2.outcome = .ok a) :
    c.1.design.matrix = A ∧ ∃ lam h, s.penalty? p pinned i = some lam ∧
      (GraphForm.lasso A b lam h).IsMinimiser a.x := by
  obtain ⟨lam, hpos, hpenalty, hform⟩ := form_of_call hp hc
  obtain ⟨a', ha', hmin⟩ := hexact c (List.mem_of_getElem? hc)
  obtain rfl := Except.ok.inj (ha.symm.trans ha')
  rw [hform] at hmin
  exact ⟨congrArg GraphForm.matrix hform, lam, hpos, hpenalty, hmin⟩

/-- Each step of an exact path on a lasso is a minimiser for its penalty. -/
theorem step_isMinimiser (hp : (Problem.ofLasso ⟨0, A⟩ b).SameData p)
    (hexact : Exact (d.calls s p pinned)) {i : ℕ} {pt : Point ℝ}
    (hpt : (d.steps s p pinned)[i]? = some pt) :
    s.penalty? p pinned i = some pt.lam ∧
      ∃ h, (GraphForm.lasso A b pt.lam h).IsMinimiser pt.x := by
  obtain ⟨c, a, lam, hc, ha, hpenalty, rfl⟩ := (dialogue s d p pinned).point i pt hpt
  obtain ⟨-, lam', hpos, hpenalty', hmin⟩ := call_isMinimiser hp hexact hc ha
  obtain rfl := Option.some.inj (hpenalty.symm.trans hpenalty')
  exact ⟨hpenalty, hpos, hmin⟩

/-- Of the penalties of two steps the later one is smaller. -/
theorem penalty?_lt {i j : ℕ} {lam lam' : ℝ} (hij : i < j) (hj : j < (d.steps s p pinned).length)
    (h : s.penalty? p pinned i = some lam) (h' : s.penalty? p pinned j = some lam') :
    lam' < lam := by
  cases hschedule : s.schedule? p pinned with
  | none =>
    rw [steps_of_none hschedule] at hj
    exact absurd hj (Nat.not_lt_zero j)
  | some schedule =>
    obtain ⟨turns, w, htrail, -, hsteps⟩ := d.exists_trail hschedule
    have hcount := htrail.length_le_count
    rw [hsteps] at hj
    rw [penalty?_of_schedule? hschedule] at h h'
    exact Schedule.entry?_lt hij (Nat.lt_of_lt_of_le hj hcount) h h'

/-- The steps of an exact path on a lasso are monotone. -/
theorem isMonotone_steps (hp : (Problem.ofLasso ⟨0, A⟩ b).SameData p)
    (hexact : Exact (d.calls s p pinned)) : IsMonotone A b (d.steps s p pinned) := by
  refine List.pairwise_iff_getElem.2 fun i j hi hj hij => ?_
  obtain ⟨hpenalty, hpos, hmin⟩ := step_isMinimiser hp hexact (List.getElem?_eq_getElem hi)
  obtain ⟨hpenalty', hpos', hmin'⟩ := step_isMinimiser hp hexact (List.getElem?_eq_getElem hj)
  have hlam := penalty?_lt hij hj hpenalty hpenalty'
  exact ⟨GraphForm.norm1_le_of_lt hlam hmin hmin', GraphForm.residual_le_of_lt hlam hmin hmin'⟩

end Driver

/-! ### An engine that finds minimisers -/

open Classical in
/-- A minimiser, or zero if there is none. -/
noncomputable def bestPoint (P : GraphForm ℝ) : List ℝ :=
  if h : ∃ x, P.IsMinimiser x then h.choose else Vec.zeros P.matrix.cols

/-- A problem that has a minimiser is solved by the best point. -/
theorem isMinimiser_bestPoint {P : GraphForm ℝ} (h : ∃ x, P.IsMinimiser x) :
    P.IsMinimiser (bestPoint P) := by
  rw [bestPoint, dif_pos h]
  exact h.choose_spec

/-- The best point has an entry for each column. -/
theorem length_bestPoint (P : GraphForm ℝ) : (bestPoint P).length = P.matrix.cols := by
  by_cases h : ∃ x, P.IsMinimiser x
  · exact (isMinimiser_bestPoint h).length
  · rw [bestPoint, dif_neg h, Vec.length_zeros]

/-- The engine that answers with a best point. -/
noncomputable def exactEngine : Engine ℝ Unit where
  solve _ q :=
    (.quiet (.ok ⟨bestPoint q.form, q.design.matrix.mulVec (bestPoint q.form), .success, 0⟩), ())

/-- It serves every problem. -/
theorem exactEngine_serves (p : Problem ℝ) : exactEngine.Serves p := by
  intro e q hq
  refine ⟨_, rfl, ?_, ?_⟩
  · exact (length_bestPoint q.form).trans (congrArg (fun design => design.matrix.cols) hq.design)
  · exact (RowMatrix.length_mulVec _ _).trans
      (congrArg (fun design => design.matrix.height) hq.design)

namespace Driver

variable {s : Setup ℝ σ} {d : Driver ℝ σ} {p : Problem ℝ} {pinned : Option ℝ} {A : RowMatrix ℝ}
  {b : List ℝ}

/-- Paths on a lasso are exact with it, and with every engine that replies alike. -/
theorem exact_of_exactEngine (hE : ∀ e q, (s.engine.solve e q).1 = (exactEngine.solve () q).1)
    (hb : b.length = A.height) (hp : (Problem.ofLasso ⟨0, A⟩ b).SameData p) :
    Exact (d.calls s p pinned) ∧ Consistent (d.calls s p pinned) := by
  constructor
  · intro c hc
    obtain ⟨e, hreply⟩ := exists_reply hc
    obtain ⟨i, hi⟩ := List.getElem?_of_mem hc
    obtain ⟨lam, hpos, -, hform⟩ := form_of_call hp hi
    refine ⟨_, by rw [hreply, hE]; rfl, isMinimiser_bestPoint ?_⟩
    rw [hform]
    exact GraphForm.exists_isMinimiser hb hpos
  · intro c hc a ha
    obtain ⟨e, hreply⟩ := exists_reply hc
    rw [hreply, hE] at ha
    obtain rfl := Except.ok.inj ha
    rfl

/-! ### Two paths -/

/-- Two paths from one top have one schedule, if its length and its ratio are the same. -/
theorem schedule?_eq_of_isTop {s' : Setup ℝ τ} {p' : Problem ℝ} {pinned' : Option ℝ} {top : ℝ}
    (htop : IsTop p pinned top) (htop' : IsTop p' pinned' top)
    (hcount : s'.config.count = s.config.count) (hratio : s'.config.ratio = s.config.ratio) :
    s'.schedule? p' pinned' = s.schedule? p pinned := by
  unfold Setup.schedule?
  rw [isTop_iff.1 htop, isTop_iff.1 htop', hcount, hratio]

end Driver

/-- What two paths on one lasso have in common. -/
structure SameFit (A : RowMatrix ℝ) (b : List ℝ) (s : Setup ℝ σ) (d : Driver ℝ σ) (p : Problem ℝ)
    (pinned : Option ℝ) (s' : Setup ℝ τ) (d' : Driver ℝ τ) (p' : Problem ℝ)
    (pinned' : Option ℝ) : Prop where
  /-- At every step both have the same penalty, the same product with the matrix and the same
      absolute sum. -/
  step : ∀ (i : ℕ) (pt pt' : Point ℝ), (d.steps s p pinned)[i]? = some pt →
    (d'.steps s' p' pinned')[i]? = some pt' →
      pt.lam = pt'.lam ∧ A.mulVec pt.x = A.mulVec pt'.x ∧ Vec.norm1 pt.x = Vec.norm1 pt'.x
  /-- They have the same error on the rows that are fitted. -/
  error : ∀ (i : ℕ) (pt pt' : Point ℝ), (d.steps s p pinned)[i]? = some pt →
    (d'.steps s' p' pinned')[i]? = some pt' →
      ∃ v, CrossValidation.meanSquaredError A pt.x b = .ok v ∧
        CrossValidation.meanSquaredError A pt'.x b = .ok v
  /-- They have the same coefficients if the columns are linearly independent. -/
  coefficients : LinearIndependent ℝ A.toMatrix.col → ∀ (i : ℕ) (pt pt' : Point ℝ),
    (d.steps s p pinned)[i]? = some pt → (d'.steps s' p' pinned')[i]? = some pt' → pt.x = pt'.x
  /-- Both answers to a call have the same row values. -/
  rows : ∀ (i : ℕ) (c c' : Request ℝ × Reply ℝ) (a a' : Solution ℝ),
    (d.calls s p pinned)[i]? = some c → (d'.calls s' p' pinned')[i]? = some c' →
      c.2.outcome = .ok a → c'.2.outcome = .ok a' → a.y = a'.y
  /-- Paths that walk their whole schedule have the same steps, so that their tables agree. -/
  complete : s.config.Unlimited → s'.config.Unlimited → ∀ r r' : Result ℝ,
    (d.run s p pinned).outcome = .ok r → (d'.run s' p' pinned').outcome = .ok r' →
      r.points.length = r'.points.length ∧ r.table.lam = r'.table.lam ∧
        r.table.norm1 = r'.table.norm1

namespace Driver

variable {s : Setup ℝ σ} {d : Driver ℝ σ} {p : Problem ℝ} {pinned : Option ℝ}
  {s' : Setup ℝ τ} {d' : Driver ℝ τ} {p' : Problem ℝ} {pinned' : Option ℝ}
  {A : RowMatrix ℝ} {b : List ℝ}

/-- A path that nothing may end before walks its whole schedule. -/
theorem length_steps_of_unlimited (hunlimited : s.config.Unlimited) {r : Result ℝ}
    (hr : (d.run s p pinned).outcome = .ok r) :
    (d.steps s p pinned).length = ((s.schedule? p pinned).map Schedule.count).getD 0 := by
  rw [← points_eq_steps hr]
  cases hschedule : s.schedule? p pinned with
  | none => rw [points_eq_steps hr, steps_of_none hschedule, Option.map_none]; rfl
  | some schedule =>
    rw [((Stopping.of_run hschedule hr).exhausted_of_unlimited hunlimited).2, Option.map_some,
      Option.getD_some, count_of_schedule? hschedule]

/-- Two lists that agree entry by entry agree in what is read off their entries. -/
theorem map_eq_map_of_getElem? {β γ δ : Type} {l : List β} {l' : List γ} {f : β → δ} {g : γ → δ}
    (hlen : l.length = l'.length)
    (h : ∀ (i : ℕ) (a : β) (a' : γ), l[i]? = some a → l'[i]? = some a' → f a = g a') :
    l.map f = l'.map g := by
  refine List.ext_getElem (by rw [List.length_map, List.length_map, hlen]) fun i hi hi' => ?_
  rw [List.length_map] at hi hi'
  rw [List.getElem_map, List.getElem_map]
  exact h i _ _ (List.getElem?_eq_getElem hi) (List.getElem?_eq_getElem hi')

/-- Two steps of exact paths with one schedule are minimisers of one lasso. -/
theorem minimisers_of_exact (hp : (Problem.ofLasso ⟨0, A⟩ b).SameData p)
    (hp' : (Problem.ofLasso ⟨0, A⟩ b).SameData p')
    (hschedule : s'.schedule? p' pinned' = s.schedule? p pinned)
    (hexact : Exact (d.calls s p pinned)) (hexact' : Exact (d'.calls s' p' pinned')) {i : ℕ}
    {pt pt' : Point ℝ} (hpt : (d.steps s p pinned)[i]? = some pt)
    (hpt' : (d'.steps s' p' pinned')[i]? = some pt') :
    pt.lam = pt'.lam ∧ ∃ h, (GraphForm.lasso A b pt.lam h).IsMinimiser pt.x ∧
      (GraphForm.lasso A b pt.lam h).IsMinimiser pt'.x := by
  obtain ⟨hlam, hpos, hmin⟩ := step_isMinimiser hp hexact hpt
  obtain ⟨hlam', hpos', hmin'⟩ := step_isMinimiser hp' hexact' hpt'
  rw [Setup.penalty?, hschedule, ← Setup.penalty?, hlam] at hlam'
  have heq := Option.some.inj hlam'
  refine ⟨heq, hpos, hmin, ?_⟩
  simp only [heq]
  exact hmin'

/-- Two paths on one lasso from one top have the same row values, the same absolute sums and the
    same errors at every step, if both are solved exactly, whatever their engines, their starts and
    their first vectors; with independent columns they have the same coefficients. -/
theorem sameFit_of_exact {top : ℝ} (hb : b.length = A.height)
    (hp : (Problem.ofLasso ⟨0, A⟩ b).SameData p) (hp' : (Problem.ofLasso ⟨0, A⟩ b).SameData p')
    (htop : IsTop p pinned top) (htop' : IsTop p' pinned' top)
    (hcount : s'.config.count = s.config.count) (hratio : s'.config.ratio = s.config.ratio)
    (hexact : Exact (d.calls s p pinned)) (hexact' : Exact (d'.calls s' p' pinned'))
    (hrows : Consistent (d.calls s p pinned)) (hrows' : Consistent (d'.calls s' p' pinned')) :
    SameFit A b s d p pinned s' d' p' pinned' := by
  have hschedule := schedule?_eq_of_isTop htop htop' hcount hratio
  have hstep : ∀ (i : ℕ) (pt pt' : Point ℝ), (d.steps s p pinned)[i]? = some pt →
      (d'.steps s' p' pinned')[i]? = some pt' →
        pt.lam = pt'.lam ∧ A.mulVec pt.x = A.mulVec pt'.x ∧ Vec.norm1 pt.x = Vec.norm1 pt'.x := by
    intro i pt pt' hpt hpt'
    obtain ⟨hlam, hpos, hmin, hmin'⟩ := minimisers_of_exact hp hp' hschedule hexact hexact' hpt hpt'
    exact ⟨hlam, GraphForm.mulVec_eq_of_isMinimiser hb hmin hmin',
      GraphForm.norm1_eq_of_isMinimiser hb hmin hmin'⟩
  constructor
  case step => exact hstep
  case error =>
    intro i pt pt' hpt hpt'
    obtain ⟨-, hpos, hmin, hmin'⟩ := minimisers_of_exact hp hp' hschedule hexact hexact' hpt hpt'
    have hx : pt.x.length = A.cols := hmin.length
    have hx' : pt'.x.length = A.cols := hmin'.length
    refine ⟨_, CrossValidation.meanSquaredError_eq hx hb, ?_⟩
    have hresidual : A.residual b pt'.x = A.residual b pt.x := by
      rw [RowMatrix.residual, RowMatrix.residual, (hstep i pt pt' hpt hpt').2.1]
    rw [CrossValidation.meanSquaredError_eq hx' hb, CrossValidation.meanResidual,
      CrossValidation.meanResidual, hresidual]
  case coefficients =>
    intro hcolumns i pt pt' hpt hpt'
    obtain ⟨-, hpos, hmin, hmin'⟩ := minimisers_of_exact hp hp' hschedule hexact hexact' hpt hpt'
    -- Only here the columns matter: both steps are the one minimiser.
    exact GraphForm.eq_of_isMinimiser hb hcolumns hmin hmin'
  case rows =>
    intro i c c' a a' hc hc' ha ha'
    obtain ⟨hA, lam, hpos, hlam, hmin⟩ := call_isMinimiser hp hexact hc ha
    obtain ⟨hA', lam', hpos', hlam', hmin'⟩ := call_isMinimiser hp' hexact' hc' ha'
    rw [Setup.penalty?, hschedule, ← Setup.penalty?, hlam] at hlam'
    obtain rfl := Option.some.inj hlam'
    -- The row values of an answer are the product, and that both minimisers share.
    rw [hrows c (List.mem_of_getElem? hc) a ha, hrows' c' (List.mem_of_getElem? hc') a' ha', hA,
      hA', GraphForm.mulVec_eq_of_isMinimiser hb hmin hmin']
  case complete =>
    intro hunlimited hunlimited' r r' hr hr'
    have hlen : r.points.length = r'.points.length := by
      rw [points_eq_steps hr, points_eq_steps hr', length_steps_of_unlimited hunlimited hr,
        length_steps_of_unlimited hunlimited' hr', hschedule]
    have hpoints := points_eq_steps hr
    have hpoints' := points_eq_steps hr'
    rw [← hpoints, ← hpoints'] at hstep
    refine ⟨hlen, map_eq_map_of_getElem? hlen fun i pt pt' hpt hpt' => ?_,
      map_eq_map_of_getElem? hlen fun i pt pt' hpt hpt' => ?_⟩
    · exact (hstep i pt pt' hpt hpt').1
    · exact (hstep i pt pt' hpt hpt').2.2

end Driver

/-- A configuration with three penalties whose paths walk them all. -/
noncomputable def wholeConfig : Config ℝ := { untimedConfig with earlyStop := false }

/-- Paths that start each step from the last answer. -/
noncomputable def warmSetup : Setup ℝ Unit := ⟨wholeConfig, exactEngine, fun _ => 0⟩

/-- Paths that start each step from zero, with an engine that writes down its calls. -/
noncomputable def coldSetup : Setup ℝ (Unit × List (Request ℝ × Reply ℝ)) :=
  ⟨{ wholeConfig with warmStart := false }, exactEngine.recorded, fun _ => 0⟩

/-- A row with the same entry in two columns, so that minimisers are not unique. -/
noncomputable def twinColumns : RowMatrix ℝ where
  cols := 2
  rows := [[(0, 1), (1, 1)]]
  inBounds := by
    intro r hr e he
    obtain rfl := List.mem_singleton.1 hr
    rcases List.mem_pair.1 he with rfl | rfl
    · exact Nat.zero_lt_two
    · exact Nat.one_lt_two

/-- The lasso of the two columns and one observation, from the given vectors. -/
noncomputable def twinProblem (x y : List ℝ) : Problem ℝ :=
  { Problem.ofLasso ⟨0, twinColumns⟩ [1] with x := x, y := y }

/-- The two setups fit the same to the two columns, from different vectors. -/
theorem Driver.sameFit_of_exact_twin :
    ∃ r r', (Driver.run warmSetup (.new ()) (twinProblem [0, 0] [0]) (some 1)).outcome = .ok r ∧
      (Driver.run coldSetup (.new ((), [])) (twinProblem [1, 0] [1]) (some 1)).outcome = .ok r' ∧
      r.points.length = r'.points.length ∧ r.table.norm1 = r'.table.norm1 := by
  have hcount : wholeConfig.count ≤ Schedule.largestSize := by
    show 3 ≤ Schedule.largestSize
    decide
  have hdata : ∀ x y, (Problem.ofLasso ⟨0, twinColumns⟩ [1]).SameData (twinProblem x y) :=
    fun x y => ⟨rfl, rfl, rfl, rfl⟩
  have hserves : coldSetup.engine.Serves (twinProblem [1, 0] [1]) :=
    fun e q hq => exactEngine_serves _ e.1 q hq
  obtain ⟨r, hr⟩ := Driver.run_returns (s := warmSetup) (d := .new ())
    (p := twinProblem [0, 0] [0]) (.inl rfl) (exactEngine_serves _) ⟨rfl, rfl, rfl, rfl, rfl⟩ rfl
    hcount
  obtain ⟨r', hr'⟩ := Driver.run_returns (s := coldSetup) (d := .new ((), []))
    (p := twinProblem [1, 0] [1]) (.inl rfl) hserves ⟨rfl, rfl, rfl, rfl, rfl⟩ rfl hcount
  have hwarm : Exact (Driver.calls warmSetup (.new ()) (twinProblem [0, 0] [0]) (some 1)) ∧
      Consistent (Driver.calls warmSetup (.new ()) (twinProblem [0, 0] [0]) (some 1)) :=
    Driver.exact_of_exactEngine (fun _ _ => rfl) rfl (hdata _ _)
  have hcold : Exact (Driver.calls coldSetup (.new ((), [])) (twinProblem [1, 0] [1]) (some 1)) ∧
      Consistent (Driver.calls coldSetup (.new ((), [])) (twinProblem [1, 0] [1]) (some 1)) :=
    Driver.exact_of_exactEngine (fun _ _ => rfl) rfl (hdata _ _)
  have hfit : SameFit twinColumns [1] warmSetup (.new ()) (twinProblem [0, 0] [0]) (some 1)
      coldSetup (.new ((), [])) (twinProblem [1, 0] [1]) (some 1) :=
    Driver.sameFit_of_exact rfl (hdata _ _) (hdata _ _) (.inl rfl) (.inl rfl) rfl rfl hwarm.1
      hcold.1 hwarm.2 hcold.2
  obtain ⟨hlength, -, hnorm⟩ := hfit.complete ⟨rfl, rfl, rfl⟩ ⟨rfl, rfl, rfl⟩ r r' hr hr'
  exact ⟨r, r', hr, hr', hlength, hnorm⟩

end RegPath.Path
