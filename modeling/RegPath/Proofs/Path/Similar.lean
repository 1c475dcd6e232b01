import RegPath.Proofs.Path.Dialogue
import RegPath.Proofs.Path.Fitting
import RegPath.Proofs.Path.Image
import RegPath.Proofs.Path.Solved
import RegPath.Proofs.Splitting.Optimality
import RegPath.Proofs.Splitting.Service

namespace RegPath

open scoped Matrix

/-!
# Paths on similar lassos

The paths of a splitting engine on similar lassos take the same course: the threshold, and with it
every penalty, is multiplied by the factor of the similarity, every solution moves, and two solutions
agree exactly if the moved ones do.  Only the vector that the first solution is compared with stays
where it is.

* `Problem.IsLasso` — the lasso on a matrix and observations, anywhere along a path;
* `Similarity.image`, `Path.Moved` — states of two paths that correspond;
* `Path.Plan.mirrors_of_similar` — so do their steps;
* `Path.Driver.fitLasso_of_similar` — and their outcomes;
* `Path.Driver.fit_signedPerm` — fits of a matrix whose rows and columns change places and signs;
* `Path.Driver.fit_scale` — fits of observations in another unit.
-/

/-! ### Problems -/

/-- The problem is the lasso on a matrix object and observations, with penalties of any scale and
    vectors of any entries. -/
structure Problem.IsLasso (D : Design ℝ) (b : List ℝ) (p : Problem ℝ) : Prop where
  /-- The matrix object. -/
  design : p.design = D
  /-- The data of the lasso. -/
  data : (Problem.ofLasso D b).SameData p
  /-- The columns start from as many entries. -/
  x : p.x.length = D.matrix.cols
  /-- So do the rows. -/
  y : p.y.length = D.matrix.height

namespace Problem.IsLasso

variable {D : Design ℝ} {b : List ℝ} {p : Problem ℝ} {σ : Type}

/-- The lasso before any step. -/
theorem ofLasso (D : Design ℝ) (b : List ℝ) : (Problem.ofLasso D b).IsLasso D b :=
  ⟨rfl, ⟨rfl, rfl, rfl, rfl⟩, Vec.length_zeros _, Vec.length_zeros _⟩

/-- Other vectors. -/
theorem install (h : p.IsLasso D b) {x y : List ℝ} (hx : x.length = D.matrix.cols)
    (hy : y.length = D.matrix.height) : { p with x := x, y := y }.IsLasso D b :=
  ⟨h.design, ⟨h.data.matrix, h.data.rowTerms, h.data.kinds, h.data.offsets⟩, hx, hy⟩

/-- The problem of a step. -/
theorem pose (h : p.IsLasso D b) (plan : Path.Plan ℝ σ) {lam : ℝ} (hpos : 0 < lam) :
    (plan.pose p lam hpos).IsLasso D b := by
  refine ⟨(plan.pose_design p lam hpos).trans h.design, ⟨?_, ?_, ?_, ?_⟩, ?_, ?_⟩
  · rw [plan.pose_design, h.data.matrix]
  · rw [plan.pose_rowTerms, h.data.rowTerms]
  · rw [plan.pose_colTerms, List.map_map, ← h.data.kinds]
    rfl
  · rw [plan.pose_colTerms, List.map_map, ← h.data.offsets]
    rfl
  · cases hwarm : plan.config.warmStart with
    | true => rw [(Path.Plan.pose_warm hwarm p hpos).1, h.x]
    | false =>
      rw [(Path.Plan.pose_cold hwarm p hpos).1, Vec.length_zeros, Problem.width, h.design]
  · cases hwarm : plan.config.warmStart with
    | true => rw [(Path.Plan.pose_warm hwarm p hpos).2, h.y]
    | false =>
      rw [(Path.Plan.pose_cold hwarm p hpos).2, Vec.length_zeros, Problem.height, h.design]

/-- The terms of the columns in the problem of a step. -/
theorem colTerms_pose (h : p.IsLasso D b) (plan : Path.Plan ℝ σ) {lam : ℝ} (hpos : 0 < lam) :
    (plan.pose p lam hpos).colTerms =
      (Term.penalties D.matrix.cols).map fun t => t.withScale lam hpos := by
  rw [plan.pose_colTerms]
  exact Path.withScale_eq_of_map_eq hpos h.data.kinds h.data.offsets

/-- With an intact engine and an exact solver a call of a step returns the run of an exact task, and
    the engine stays intact. -/
theorem exists_answer (h : p.IsLasso D b) (hb : b.length = D.matrix.height) (plan : Path.Plan ℝ σ)
    {lam : ℝ} (hpos : 0 < lam) {F : Factorization ℝ} (hF : F.Exact) (S : Admm.Settings ℝ)
    {e : Admm.Cache ℝ} (he : e.Intact F D) :
    ∃ t : Admm.Task ℝ, t.Exact ∧ t.settings = S ∧ t.kernel.matrix = D.matrix ∧
      t.rowTerms = Term.squaresAt b ∧
      t.colTerms = (Term.penalties D.matrix.cols).map (fun u => u.withScale lam hpos) ∧
      ((Admm.engine F S).solve e (plan.pose p lam hpos).request).1.outcome =
        .ok (t.run (plan.pose p lam hpos).x (plan.pose p lam hpos).y) ∧
      ((Admm.engine F S).solve e (plan.pose p lam hpos).request).2.Intact F D := by
  have hposed := h.pose plan hpos
  have hdesign : (plan.pose p lam hpos).request.design = D := hposed.design
  have hrowTerms : (plan.pose p lam hpos).rowTerms = Term.squaresAt b := hposed.data.rowTerms
  have hcolTerms := h.colTerms_pose plan hpos
  have hheight : (plan.pose p lam hpos).request.height = D.matrix.height := by
    rw [Request.height, hdesign]
  have hwidth : (plan.pose p lam hpos).request.width = D.matrix.cols := by
    rw [Request.width, hdesign]
  have hrows : (plan.pose p lam hpos).rowTerms.length = D.matrix.height := by
    rw [hrowTerms, Term.length_squaresAt, hb]
  have hcols : (plan.pose p lam hpos).colTerms.length = D.matrix.cols := by
    rw [hcolTerms, List.length_map, Term.length_penalties]
  have he' : e.Intact F (plan.pose p lam hpos).request.design := by
    rw [hdesign]
    exact he
  obtain ⟨t, hposes, hexact, hform, hanswer⟩ := he'.exists_task hF S
    ⟨hrows.trans hheight.symm, hcols.trans hwidth.symm, hposed.x.trans hwidth.symm,
      hposed.y.trans hheight.symm⟩
  have hmatrix : t.kernel.matrix = (plan.pose p lam hpos).request.design.matrix :=
    congrArg GraphForm.matrix hform
  refine ⟨t, hexact, hposes.settings, hmatrix.trans (congrArg Design.matrix hdesign),
    hposes.rowTerms.trans hrowTerms, hposes.colTerms.trans hcolTerms, hanswer, ?_⟩
  rw [← hdesign]
  exact he'.solve S

end Problem.IsLasso

/-! ### Steps -/

/-- The image of vectors and penalties under a similarity. -/
def Similarity.image {m n : ℕ} (I : Similarity m n) : Image ℝ := ⟨I.x, I.y, fun l => I.factor * l⟩

namespace Path

variable {m n : ℕ} {I : Similarity m n} {F : Factorization ℝ} {D D' : Design ℝ} {b : List ℝ}

/-- States of two splitting engines with similar lassos, whose vectors correspond. -/
structure Moved (I : Similarity m n) (F : Factorization ℝ) (D D' : Design ℝ) (b : List ℝ)
    (e : Admm.Cache ℝ) (p : Problem ℝ) (e' : Admm.Cache ℝ) (p' : Problem ℝ) : Prop where
  /-- The first problem. -/
  lasso : p.IsLasso D b
  /-- The second. -/
  lasso' : p'.IsLasso D' (I.y b)
  /-- Columns move. -/
  x : p'.x = I.x p.x
  /-- Rows move. -/
  y : p'.y = I.y p.y
  /-- The first engine is intact. -/
  intact : e.Intact F D
  /-- So is the second. -/
  intact' : e'.Intact F D'

/-- The vectors from which the steps start correspond. -/
theorem Moved.pose {e e' : Admm.Cache ℝ} {p p' : Problem ℝ} {σ τ : Type} {plan : Plan ℝ σ}
    {plan' : Plan ℝ τ} (h : Moved I F D D' b e p e' p') (hD : D.matrix.Similar I D'.matrix)
    (hconfig : plan'.config = plan.config) {lam lam' : ℝ} (hpos : 0 < lam) (hpos' : 0 < lam') :
    (plan'.pose p' lam' hpos').x = I.x (plan.pose p lam hpos).x ∧
      (plan'.pose p' lam' hpos').y = I.y (plan.pose p lam hpos).y := by
  cases hwarm : plan.config.warmStart with
  | true =>
    have hwarm' : plan'.config.warmStart = true := by rw [hconfig, hwarm]
    obtain ⟨hx, hy⟩ := Plan.pose_warm hwarm p hpos
    obtain ⟨hx', hy'⟩ := Plan.pose_warm hwarm' p' hpos'
    rw [hx, hy, hx', hy']
    exact ⟨h.x, h.y⟩
  | false =>
    have hcold : plan'.config.warmStart = false := by rw [hconfig, hwarm]
    obtain ⟨hx, hy⟩ := Plan.pose_cold hwarm p hpos
    obtain ⟨hx', hy'⟩ := Plan.pose_cold hcold p' hpos'
    rw [hx, hy, hx', hy', Problem.width, Problem.height, Problem.width, Problem.height,
      h.lasso.design, h.lasso'.design, hD.cols, hD.height, hD.cols', hD.height']
    exact ⟨I.carries_x.zeros.symm, I.carries_y.zeros.symm⟩

/-- The replies to corresponding requests correspond. -/
theorem Moved.replies {e e' : Admm.Cache ℝ} {p p' : Problem ℝ} {plan plan' : Plan ℝ (Admm.Cache ℝ)}
    (h : Moved I F D D' b e p e' p') (hF : F.Exact) (hD : D.matrix.Similar I D'.matrix)
    (hb : b.length = m) {S S' : Admm.Settings ℝ} (hS : S.ScaledBy I.factor S')
    (hengine : plan.engine = Admm.engine F S) (hengine' : plan'.engine = Admm.engine F S')
    (hconfig : plan'.config = plan.config) {lam : ℝ} (hpos : 0 < lam) (hpos' : 0 < I.factor * lam) :
    plan.Replies I.image (Moved I F D D' b) (fun x => x.length = n) plan' e (plan.pose p lam hpos)
      e' (plan'.pose p' (I.factor * lam) hpos') := by
  have hb' : (I.y b).length = D'.matrix.height := (I.carries_y.length b hb).trans hD.height'.symm
  obtain ⟨t, ht, hsettings, hmatrix, hrows, hcols, houtcome, hafter⟩ :=
    h.lasso.exists_answer (hb.trans hD.height.symm) plan hpos hF S h.intact
  obtain ⟨t', ht', hsettings', hmatrix', hrows', hcols', houtcome', hafter'⟩ :=
    h.lasso'.exists_answer hb' plan' hpos' hF S' h.intact'
  have hsimilar : t.Similar I t' := by
    refine ⟨ht, ht', by rw [hsettings, hsettings']; exact hS, by rw [hmatrix, hmatrix']; exact hD,
      fun v hv => ?_, fun v hv => ?_⟩
    · rw [hrows, hrows']
      exact I.carries_y.proxAll_squaresAt hb hv t.settings.rho_pos_real
    · rw [hcols, hcols', hD.cols, hD.cols']
      exact I.carries_x.proxAll_penalties I.factor_pos hv t.settings.rho hpos hpos'
  have hposed := h.lasso.pose plan hpos
  have hposed' := h.lasso'.pose plan' hpos'
  obtain ⟨hx, hy⟩ := h.pose hD hconfig hpos hpos'
  obtain ⟨hrun, hxlen, hylen⟩ :=
    hsimilar.run_moved (hposed.x.trans hD.cols) (hposed.y.trans hD.height)
  rw [← hengine] at houtcome
  rw [← hengine', hx, hy, hrun] at houtcome'
  constructor
  case outcome =>
    rw [houtcome, houtcome']
    rfl
  case next =>
    intro s hs
    obtain rfl := Except.ok.inj (houtcome.symm.trans hs)
    rw [← hengine] at hafter
    rw [← hengine'] at hafter'
    exact ⟨hxlen, hposed.install (hxlen.trans hD.cols.symm) (hylen.trans hD.height.symm),
      hposed'.install ((I.carries_x.length _ hxlen).trans hD.cols'.symm)
        ((I.carries_y.length _ hylen).trans hD.height'.symm), rfl, rfl, hafter, hafter'⟩

/-- Without a time limit, moved iterates are judged alike. -/
theorem Walk.verdict?_moved {σ τ : Type} {plan : Plan ℝ σ} {plan' : Plan ℝ τ}
    (hconfig : plan'.config = plan.config) (huntimed : plan.config.maxTime = none) (i : ℕ)
    {x previous : List ℝ} (hx : x.length = n) (hprevious : previous.length = n) :
    Walk.verdict? plan' (I.x previous) i (I.x x) =
      (Walk.verdict? plan previous i x).map I.image.exit := by
  have hlate : ∀ {υ : Type} (q : Plan ℝ υ), q.config = plan.config → Walk.late q i = none := by
    intro υ q hq
    rw [Walk.late, hq, huntimed, Option.filter_none]
  have hagrees : Walk.agrees? plan.config (I.x x) (I.x previous) =
      Walk.agrees? plan.config x previous := by
    have hnorm := I.carries_x.norm1 I.factor_pos hx
    have hpositive : 0 < Vec.norm1 (I.x x) ↔ 0 < Vec.norm1 x := by
      rw [hnorm, mul_pos_iff_of_pos_left I.factor_pos]
    rw [Walk.agrees?, Walk.agrees?, I.carries_x.converged? I.factor_pos hx hprevious,
      if_congr (and_congr_right fun _ => hpositive) rfl rfl]
  unfold Walk.verdict?
  rw [hconfig, hagrees, hlate plan' hconfig, hlate plan rfl]
  cases Walk.agrees? plan.config x previous with
  | none => rfl
  | some agreed => cases agreed <;> rfl

/-- The steps of two paths without a time limit correspond. -/
theorem Plan.mirrors_of_similar {plan plan' : Plan ℝ (Admm.Cache ℝ)} (hF : F.Exact)
    (hD : D.matrix.Similar I D'.matrix) (hb : b.length = m) {S S' : Admm.Settings ℝ}
    (hS : S.ScaledBy I.factor S') (hengine : plan.engine = Admm.engine F S)
    (hengine' : plan'.engine = Admm.engine F S') (hconfig : plan'.config = plan.config)
    (huntimed : plan.config.maxTime = none)
    (hschedule : plan.schedule.Mirrors I.image plan'.schedule) :
    plan.Mirrors I.image (Moved I F D D' b) (fun x => x.length = n) plan' where
  schedule := hschedule
  pos := fun _ => mul_pos_iff_of_pos_left I.factor_pos
  capped := fun _ => by rw [hconfig]
  policy := by rw [hconfig]
  vectors := fun _ _ _ _ h => ⟨h.x, h.y⟩
  replies := fun _ _ _ _ h _ hpos hpos' => h.replies hF hD hb hS hengine hengine' hconfig hpos hpos'
  verdict := fun _ _ hx hprevious i => Walk.verdict?_moved hconfig huntimed i hx hprevious

/-! ### Whole paths -/

namespace Driver

variable {d d' : Driver ℝ (Admm.Cache ℝ)}

/-- The paths on similar lassos have corresponding outcomes, if none has a time limit or stops at
    once. -/
theorem fitLasso_of_similar (hF : F.Exact) (hD : D.matrix.Similar I D'.matrix) (hb : b.length = m)
    {config : Config ℝ} (huntimed : config.maxTime = none) {S S' : Admm.Settings ℝ}
    (hS : S.ScaledBy I.factor S') {elapsed elapsed' : ℕ → ℝ} (hd : d.engine.Intact F D)
    (hd' : d'.engine.Intact F D')
    (hrun : config.earlyStop = true →
      ∀ r, (d.fitLasso ⟨config, Admm.engine F S, elapsed⟩ D b).outcome = .ok r → ¬ r.StopsAtOnce)
    (hrun' : config.earlyStop = true →
      ∀ r, (d'.fitLasso ⟨config, Admm.engine F S', elapsed'⟩ D' (I.y b)).outcome = .ok r →
        ¬ r.StopsAtOnce) :
    (d'.fitLasso ⟨config, Admm.engine F S', elapsed'⟩ D' (I.y b)).outcome =
      I.image.outcome I.image.result
        (d.fitLasso ⟨config, Admm.engine F S, elapsed⟩ D b).outcome := by
  have hb₁ : b.length = D.matrix.height := hb.trans hD.height.symm
  have hb₂ : (I.y b).length = D'.matrix.height := (I.carries_y.length b hb).trans hD.height'.symm
  have hfit : ∀ (d : Driver ℝ (Admm.Cache ℝ)) (s : Setup ℝ (Admm.Cache ℝ)) (D : Design ℝ)
      (b : List ℝ), b.length = D.matrix.height →
        (d.fitLasso s D b).outcome = (d.run s (.ofLasso D b) none).outcome := by
    intro d s D b hb
    simp only [fitLasso, fitLassoBy, Problem.lasso_eq hb]
    rfl
  rw [hfit _ _ _ _ hb₁] at hrun ⊢
  rw [hfit _ _ _ _ hb₂] at hrun' ⊢
  obtain ⟨top, htop, htop'⟩ := lambdaMax_of_similar hD hb
  refine run_image I.factor_pos (fun _ => rfl) rfl rfl (.inr ⟨rfl, htop⟩) (.inr ⟨rfl, htop'⟩)
    ?_ ?_ ?_
  · show Vec.zeros D'.matrix.cols = I.x (Vec.zeros D.matrix.cols)
    rw [hD.cols, hD.cols', I.carries_x.zeros]
  · show Vec.zeros D'.matrix.height = I.y (Vec.zeros D.matrix.height)
    rw [hD.height, hD.height', I.carries_y.zeros]
  · intro schedule schedule' hs hs' hschedule
    refine run_of_mirrors_untimed hs hs'
      (Plan.mirrors_of_similar hF hD hb hS rfl rfl rfl huntimed hschedule)
      ⟨.ofLasso D b, .ofLasso D' (I.y b), ?_, ?_, hd, hd'⟩ huntimed huntimed hrun hrun' ?_
    · show Vec.zeros D'.matrix.cols = I.x (Vec.zeros D.matrix.cols)
      rw [hD.cols, hD.cols', I.carries_x.zeros]
    · show Vec.zeros D'.matrix.height = I.y (Vec.zeros D.matrix.height)
      rw [hD.height, hD.height', I.carries_y.zeros]
    · exact fun x hx => ⟨hx.trans hD.cols.symm, (I.carries_x.length x hx).trans hD.cols'.symm⟩

end Driver

end Path

/-! ### Rows and columns that change places and signs -/

/-- Columns are multiplied by the transposed matrix of `Q` and rows by the one of `P`; penalties
    stay. -/
noncomputable def Image.ofPerms {m n : ℕ} (P : SignedPerm m) (Q : SignedPerm n) : Image ℝ :=
  ⟨Vec.through Q.toMatrixᵀ, Vec.through P.toMatrix, id⟩

namespace Path.Driver

variable {F : Factorization ℝ} {config : Config ℝ} {elapsed elapsed' : ℕ → ℝ}
  {d d' : Driver ℝ (Admm.Cache ℝ)} {depth depth' key key' : ℕ} {form form' : MatrixForm ℝ}

/-- The fit of `P M Q` and `P b` is the fit of `M` and `b` with its coefficients multiplied by `Qᵀ`
    and its row values by `P`: the penalties, the phase, the statuses and the numbers of iterations
    are the same. -/
theorem fit_signedPerm (hF : F.Exact) {m n : ℕ} (P : SignedPerm m) (Q : SignedPerm n)
    {M : Matrix (Fin m) (Fin n) ℝ} {A A' : RowMatrix ℝ} (hA : form.read = .ok A)
    (hA' : form'.read = .ok A') (h : form.Denotes M)
    (h' : form'.Denotes (P.toMatrix * M * Q.toMatrix)) {b : List ℝ} (hb : b.length = m)
    (huntimed : config.maxTime = none) (S : Admm.Settings ℝ) (hd : d.engine.Intact F ⟨key, A⟩)
    (hd' : d'.engine.Intact F ⟨key', A'⟩)
    (hrun : config.earlyStop = true → ∀ r, (d.fit ⟨config, Admm.engine F S, elapsed⟩ depth key form
      b).outcome = .ok r → ¬ r.StopsAtOnce)
    (hrun' : config.earlyStop = true → ∀ r, (d'.fit ⟨config, Admm.engine F S, elapsed'⟩ depth' key'
      form' (Vec.through P.toMatrix b)).outcome = .ok r → ¬ r.StopsAtOnce) :
    (d'.fit ⟨config, Admm.engine F S, elapsed'⟩ depth' key' form'
        (Vec.through P.toMatrix b)).outcome =
      (Image.ofPerms P Q).outcome (Image.ofPerms P Q).result
        (d.fit ⟨config, Admm.engine F S, elapsed⟩ depth key form b).outcome := by
  have himage : (Similarity.ofPerms P Q).image = Image.ofPerms P Q :=
    congrArg (Image.mk _ _) (funext one_mul)
  simp only [fit, fitBy, hA, hA'] at hrun hrun' ⊢
  rw [← himage]
  exact fitLasso_of_similar hF (.ofPerms P Q (h.holds hA) (h'.holds hA')) hb huntimed
    S.scaledBy_one hd hd' hrun hrun'

/-- The only row changes its sign. -/
noncomputable def flippedRow : SignedPerm 1 := ⟨1, fun _ => -1, fun _ => .inr rfl⟩

/-- Two columns change places. -/
noncomputable def swappedColumns : SignedPerm 2 := ⟨Equiv.swap 0 1, fun _ => 1, fun _ => .inl rfl⟩

/-- The fit of a row with one entry is moved to the other column, and its row values change their
    sign. -/
theorem fit_signedPerm_row :
    (Driver.fit ⟨wholeConfig, Admm.engine .elimination (.plain 0 1 le_rfl one_pos), fun _ => 0⟩
        (.new .empty) 0 0 (.dense (Grid.ofRow [0, -1]))
        (Vec.through flippedRow.toMatrix [1])).outcome =
      (Image.ofPerms flippedRow swappedColumns).outcome
        (Image.ofPerms flippedRow swappedColumns).result
        (Driver.fit ⟨wholeConfig, Admm.engine .elimination (.plain 0 1 le_rfl one_pos), fun _ => 0⟩
          (.new .empty) 0 0 (.dense (Grid.ofRow [1, 0])) [1]).outcome := by
  have hrow : (MatrixForm.dense (Grid.ofRow [1, 0])).Denotes (m := 1) (n := 2) !![(1 : ℝ), 0] := by
    refine .dense rfl rfl fun i j => ?_
    fin_cases i
    fin_cases j <;> rfl
  have hmoved : (MatrixForm.dense (Grid.ofRow [0, -1])).Denotes
      (flippedRow.toMatrix * !![(1 : ℝ), 0] * swappedColumns.toMatrix) := by
    refine .dense rfl rfl fun i j => ?_
    rw [SignedPerm.mul_toMatrix_apply, SignedPerm.toMatrix_mul_apply]
    fin_cases i
    fin_cases j <;>
      simp [flippedRow, swappedColumns, SignedPerm.transpose, Grid.valueAt, Grid.ofRow]
  exact fit_signedPerm Factorization.elimination_exact flippedRow swappedColumns rfl rfl hrow hmoved
    rfl rfl _ (Admm.Cache.intact_empty _ _) (Admm.Cache.intact_empty _ _)
    (fun hearly => by cases hearly) fun hearly => by cases hearly

end Path.Driver

/-! ### Observations in another unit -/

/-- What is wrong with a matrix has nothing to do with penalties. -/
theorem Image.fault_of_read (I : Image ℝ) {form : MatrixForm ℝ} {f : Fault ℝ}
    (h : form.read = .error f) : I.fault f = f := by
  cases form with
  | compressed c =>
    change c.read.mapError Fault.layout = .error f at h
    cases hread : c.read with
    | error flaw =>
      rw [hread] at h
      obtain rfl := Except.error.inj h
      rfl
    | ok A =>
      rw [hread] at h
      cases h
  | deep =>
    obtain rfl := Except.error.inj h
    rfl
  | dense g => cases h
  | coordinates c => cases h
  | byColumns c => cases h

/-- Coefficients, row values and penalties are multiplied by `c`. -/
noncomputable def Image.multiple (c : ℝ) : Image ℝ := ⟨Vec.scale c, Vec.scale c, fun l => c * l⟩

namespace Path.Driver

variable {F : Factorization ℝ} {config : Config ℝ} {elapsed elapsed' : ℕ → ℝ}
  {d d' : Driver ℝ (Admm.Cache ℝ)} {depth depth' key key' : ℕ}

/-- The fit of the multiples of some observations, with the same multiple of the absolute tolerance,
    is the fit of the observations with all penalties, coefficients and row values multiplied: the
    phase, the number of steps, the statuses and the numbers of iterations are the same. -/
theorem fit_scale (hF : F.Exact) {c : ℝ} (hc : 0 < c) (form : MatrixForm ℝ) (b : List ℝ)
    (huntimed : config.maxTime = none) {S S' : Admm.Settings ℝ} (hS : S.ScaledBy c S')
    (hd : ∀ A, form.read = .ok A → d.engine.Intact F ⟨key, A⟩)
    (hd' : ∀ A, form.read = .ok A → d'.engine.Intact F ⟨key', A⟩)
    (hrun : config.earlyStop = true → ∀ r, (d.fit ⟨config, Admm.engine F S, elapsed⟩ depth key form
      b).outcome = .ok r → ¬ r.StopsAtOnce)
    (hrun' : config.earlyStop = true → ∀ r, (d'.fit ⟨config, Admm.engine F S', elapsed'⟩ depth' key'
      form (Vec.scale c b)).outcome = .ok r → ¬ r.StopsAtOnce) :
    (d'.fit ⟨config, Admm.engine F S', elapsed'⟩ depth' key' form (Vec.scale c b)).outcome =
      (Image.multiple c).outcome (Image.multiple c).result
        (d.fit ⟨config, Admm.engine F S, elapsed⟩ depth key form b).outcome := by
  cases hA : form.read with
  | error f =>
    simp only [fit, fitBy, hA, Image.outcome, Image.fault_of_read _ hA]
  | ok A =>
    simp only [fit, fitBy, hA] at hrun hrun' ⊢
    by_cases hb : b.length = A.height
    · exact fitLasso_of_similar hF (I := .ofFactor A.height A.cols hc) (.ofFactor A hc) hb huntimed
        hS (hd A hA) (hd' A hA) hrun hrun'
    · simp only [fitLassoBy, Problem.lasso, Problem.make, if_pos hb, Vec.length_scale]
      rfl

/-- The fit of a single number and an observation of two is twice the fit of an observation of
    one. -/
theorem fit_scale_two :
    (Driver.fit ⟨wholeConfig, Admm.engine .elimination (.plain 2 1 zero_le_two one_pos), fun _ => 0⟩
        (.new .empty) 0 0 (.dense (Grid.ofRow [1])) (Vec.scale 2 [1])).outcome =
      (Image.multiple 2).outcome (Image.multiple 2).result
        (Driver.fit ⟨wholeConfig, Admm.engine .elimination (.plain 1 1 zero_le_one one_pos),
          fun _ => 0⟩ (.new .empty) 0 0 (.dense (Grid.ofRow [1])) [1]).outcome :=
  fit_scale Factorization.elimination_exact two_pos _ _ rfl ⟨rfl, (mul_one _).symm, rfl, rfl⟩
    (fun _ _ => Admm.Cache.intact_empty _ _) (fun _ _ => Admm.Cache.intact_empty _ _)
    (fun hearly => by cases hearly) fun hearly => by cases hearly

end Path.Driver

end RegPath
