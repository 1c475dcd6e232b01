import RegPath.Proofs.Lasso.Threshold
import RegPath.Proofs.Path.Fitting
import RegPath.Proofs.Path.Stopping

namespace RegPath

/-!
# Paths without a threshold

Whether a path has anything to compute is decided from the matrix and the observations: if every
column is orthogonal to the observations the path is over and its answer is zero.  The terms have no
say in this.  The answer is right for every penalty exactly if zero is the best point for the rows
alone and for the columns alone.  So it is for terms like those of a lasso, whose slopes at zero
follow the observations; terms that are centred elsewhere may pull away from zero.

* `GraphForm.IsSeparateMinimiser`, `GraphForm.isMinimiser_withPenalty_iff` — points that are right for
  every penalty;
* `Problem.Centred` — terms whose slopes at zero follow the observations;
* `Path.Driver.phase_eq_degenerate_iff` — the paths that are over before their first step;
* `Path.ZeroAnswer`, `Path.Driver.zeroAnswer_of_degenerate` — their answers;
* `Path.Driver.not_forall_isMinimiser` — such an answer may be wrong.
-/

/-! ### One scale for all columns -/

namespace Term

/-- The cost is proportional to the scale. -/
theorem cost_withScale (t : Term ℝ) {lam : ℝ} (h : 0 < lam) (v : ℝ) :
    (t.withScale lam h).cost v = lam * (t.withScale 1 one_pos).cost v := by
  simp only [cost, kind_withScale, scale_withScale, offset_withScale]
  cases t.kind with
  | zero => rw [mul_zero]
  | square => ring
  | abs => ring
  | nonneg => rw [mul_zero]

/-- So is the cost of a list of terms. -/
theorem totalCost_withScale (ts : List (Term ℝ)) {lam : ℝ} (h : 0 < lam) (v : List ℝ) :
    totalCost (ts.map fun t => t.withScale lam h) v =
      lam * totalCost (ts.map fun t => t.withScale 1 one_pos) v := by
  induction ts generalizing v with
  | nil => rw [List.map_nil, List.map_nil, totalCost_nil, mul_zero]
  | cons t ts ih =>
    cases v with
    | nil => simp [totalCost]
    | cons a v =>
      rw [List.map_cons, List.map_cons, totalCost_cons, totalCost_cons, ih, t.cost_withScale h,
        mul_add]

/-- What a term admits does not depend on its scale. -/
theorem allAdmit_withScale {ts : List (Term ℝ)} {lam : ℝ} (h : 0 < lam) {v : List ℝ} :
    AllAdmit (ts.map fun t => t.withScale lam h) v ↔ AllAdmit ts v := by
  induction ts generalizing v with
  | nil => exact Iff.rfl
  | cons t ts ih =>
    cases v with
    | nil => simp [AllAdmit]
    | cons a v =>
      rw [List.map_cons, allAdmit_cons, allAdmit_cons, ih]
      exact Iff.rfl

/-- A term that is cheapest at zero is so for every scale. -/
theorem IsSlope.withScale_zero {t : Term ℝ} {a : ℝ} (ht : t.IsSlope a 0) {lam : ℝ} (h : 0 < lam) :
    (t.withScale lam h).IsSlope a 0 := by
  refine ⟨ht.admits, fun z hz => ?_⟩
  have hle := ht.le z hz
  rw [zero_mul, add_zero] at hle ⊢
  have hscale : ∀ v, t.cost v = t.scale * (t.withScale 1 one_pos).cost v :=
    t.cost_withScale t.scale_pos
  rw [hscale, hscale, mul_le_mul_iff_right₀ t.scale_pos] at hle
  rw [t.cost_withScale h, t.cost_withScale h z]
  exact mul_le_mul_of_nonneg_left hle (le_of_lt h)

/-- A term is cheapest at zero exactly if it is centred there, or is a half-line that holds it, or is
    nothing. -/
theorem isSlope_zero_iff {t : Term ℝ} :
    t.IsSlope 0 0 ↔ t.Admits 0 ∧ (t.kind.scaled = true → t.offset = 0) := by
  constructor
  · intro ht
    refine ⟨ht.admits, fun hscaled => ?_⟩
    have hadmits : t.Admits t.offset := fun _ => le_of_eq (sub_self _).symm
    have hle := ht.le t.offset hadmits
    rw [zero_mul, add_zero] at hle
    cases hkind : t.kind with
    | zero => rw [hkind] at hscaled; cases hscaled
    | nonneg => rw [hkind] at hscaled; cases hscaled
    | square =>
      rw [cost_square hkind, cost_square hkind, sub_self, zero_sub, neg_sq, zero_pow two_ne_zero,
        mul_zero] at hle
      have hsq := nonpos_of_mul_nonpos_right hle (half_pos t.scale_pos)
      exact pow_eq_zero_iff two_ne_zero |>.1 (le_antisymm hsq (sq_nonneg _))
    | abs =>
      rw [cost_abs hkind, cost_abs hkind, sub_self, abs_zero, mul_zero, zero_sub, abs_neg] at hle
      exact abs_nonpos_iff.1 (nonpos_of_mul_nonpos_right hle t.scale_pos)
  · rintro ⟨hadmits, hcentre⟩
    cases hkind : t.kind with
    | zero => exact ⟨hadmits, fun z _ => by simp [cost_zero hkind]⟩
    | nonneg => exact ⟨hadmits, fun z _ => by simp [cost_nonneg hkind]⟩
    | square =>
      have hslope := isSlope_tangent hkind 0
      rwa [hcentre (by rw [hkind]; rfl), sub_zero, mul_zero] at hslope
    | abs =>
      have hslope := isSlope_vertex hkind (s := 0) (by rw [abs_zero]; exact le_of_lt t.scale_pos)
      rwa [hcentre (by rw [hkind]; rfl)] at hslope

/-- Terms that are cheapest at zero are so together. -/
theorem isSubgradient_zeros {ts : List (Term ℝ)} (h : ∀ t ∈ ts, t.IsSlope 0 0) :
    IsSubgradient ts (Vec.zeros ts.length) (Vec.zeros ts.length) := by
  induction ts with
  | nil => exact .nil
  | cons t ts ih =>
    rw [List.forall_mem_cons] at h
    exact .cons h.1 (ih h.2)

/-- A plane through the value at zero. -/
theorem IsSubgradient.le_of_zeros {ts : List (Term ℝ)} {n : ℕ} {p z : List ℝ}
    (h : IsSubgradient ts (Vec.zeros n) p) (hz : z.length = n) (hadm : AllAdmit ts z) :
    totalCost ts (Vec.zeros n) + Vec.dot p z ≤ totalCost ts z := by
  have hle := h.le z (hz.trans (Vec.length_zeros n).symm) hadm
  rwa [Vec.sub_zeros hz] at hle

/-- The slopes of the losses of a lasso at zero are the opposite of the observations. -/
theorem isSubgradient_squaresAt (b : List ℝ) :
    IsSubgradient (squaresAt b) (Vec.zeros b.length) (Vec.scale (-1) b) := by
  induction b with
  | nil => exact .nil
  | cons c b ih =>
    have hslope : (unit .square c).IsSlope 0 (-1 * c) := by
      have htangent := isSlope_tangent (t := unit .square c) rfl 0
      rwa [show (unit .square c).scale * (0 - (unit .square c).offset) = -1 * c by
        show 1 * (0 - c) = -1 * c
        ring] at htangent
    exact .cons hslope ih

end Term

/-! ### Points that are right for every penalty -/

/-- What is not negative for every positive weight has no negative part. -/
theorem nonneg_of_forall_pos {a b : ℝ} (h : ∀ lam, 0 < lam → 0 ≤ a + lam * b) : 0 ≤ a ∧ 0 ≤ b := by
  have hb : 0 ≤ b := by
    by_contra hneg
    rw [not_le] at hneg
    -- A weight for which the second part outweighs the first.
    have hle := h ((|a| + 1) / -b) (div_pos (by positivity) (neg_pos.2 hneg))
    have hweight : (|a| + 1) / -b * b = -(|a| + 1) := by
      rw [div_neg, neg_mul, div_mul_cancel₀ _ (ne_of_lt hneg)]
    linarith [le_abs_self a]
  refine ⟨le_of_forall_pos_le_add fun ε hε => ?_, hb⟩
  -- A weight for which the second part does not exceed `ε`.
  have hle := h (ε / (b + 1)) (div_pos hε (by linarith))
  have hweight : ε / (b + 1) * b ≤ ε := by
    rw [div_mul_eq_mul_div, div_le_iff₀ (by linarith)]
    linarith
  linarith

namespace GraphForm

variable {P : GraphForm ℝ} {x : List ℝ}

/-- A point of finite value that is the best one for the rows alone and for the columns alone. -/
structure IsSeparateMinimiser (P : GraphForm ℝ) (x : List ℝ) : Prop where
  /-- One entry for each column. -/
  length : x.length = P.matrix.cols
  /-- The value is finite. -/
  admits : P.Admits x
  /-- No point of finite value is better for the rows. -/
  rows : ∀ z : List ℝ, z.length = P.matrix.cols → P.Admits z →
    Term.totalCost P.rowTerms (P.matrix.mulVec x) ≤ Term.totalCost P.rowTerms (P.matrix.mulVec z)
  /-- None is better for the columns. -/
  columns : ∀ z : List ℝ, z.length = P.matrix.cols → P.Admits z →
    Term.totalCost P.colTerms x ≤ Term.totalCost P.colTerms z

/-- What a problem admits does not depend on the penalty. -/
theorem admits_withPenalty {lam : ℝ} (h : 0 < lam) : (P.withPenalty lam h).Admits x ↔ P.Admits x :=
  and_congr_right fun _ => Term.allAdmit_withScale h

/-- The penalty is the weight of the columns. -/
theorem cost_withPenalty {lam : ℝ} (h : 0 < lam) (x : List ℝ) :
    (P.withPenalty lam h).cost x = Term.totalCost P.rowTerms (P.matrix.mulVec x) +
      lam * Term.totalCost (P.withPenalty 1 one_pos).colTerms x :=
  congrArg _ (Term.totalCost_withScale P.colTerms h x)

/-- A point is a minimiser for every penalty exactly if it is one for the rows and for the columns. -/
theorem isMinimiser_withPenalty_iff :
    (∀ lam h, (P.withPenalty lam h).IsMinimiser x) ↔
      (P.withPenalty 1 one_pos).IsSeparateMinimiser x := by
  constructor
  · intro hmin
    have hunit := hmin 1 one_pos
    have hparts : ∀ z : List ℝ, z.length = P.matrix.cols → P.Admits z →
        0 ≤ Term.totalCost P.rowTerms (P.matrix.mulVec z) -
            Term.totalCost P.rowTerms (P.matrix.mulVec x) ∧
          0 ≤ Term.totalCost (P.withPenalty 1 one_pos).colTerms z -
            Term.totalCost (P.withPenalty 1 one_pos).colTerms x := by
      intro z hz hadm
      refine nonneg_of_forall_pos fun lam h => ?_
      have hle := (hmin lam h).le z hz ((admits_withPenalty h).2 hadm)
      rw [cost_withPenalty, cost_withPenalty] at hle
      linarith
    refine ⟨hunit.length, hunit.admits, fun z hz hadm => ?_, fun z hz hadm => ?_⟩
    · exact sub_nonneg.1 (hparts z hz ((admits_withPenalty one_pos).1 hadm)).1
    · exact sub_nonneg.1 (hparts z hz ((admits_withPenalty one_pos).1 hadm)).2
  · intro hseparate lam h
    have hadmits : ∀ {z : List ℝ}, (P.withPenalty lam h).Admits z ↔
        (P.withPenalty 1 one_pos).Admits z :=
      (admits_withPenalty h).trans (admits_withPenalty one_pos).symm
    refine ⟨hseparate.length, hadmits.2 hseparate.admits, fun z hz hadm => ?_⟩
    rw [cost_withPenalty, cost_withPenalty]
    exact add_le_add (hseparate.rows z hz (hadmits.1 hadm))
      (mul_le_mul_of_nonneg_left (hseparate.columns z hz (hadmits.1 hadm)) (le_of_lt h))

end GraphForm

/-! ### Terms that follow the observations -/

/-- The slopes of the rows at zero are a multiple of the observations, and every column is cheapest
    at zero. -/
structure Problem.Centred (p : Problem ℝ) : Prop where
  /-- The slopes of the rows. -/
  rows : ∃ c : ℝ, Term.IsSubgradient p.rowTerms (Vec.zeros p.height) (Vec.scale c p.observations)
  /-- The columns. -/
  columns : ∀ t ∈ p.colTerms, t.IsSlope 0 0

namespace Problem

variable {p : Problem ℝ}

/-- The row losses of a lasso follow the observations. -/
theorem WellFormed.centred (hp : p.WellFormed) (hrows : p.rowTerms = Term.squaresAt p.observations)
    (hcolumns : ∀ t ∈ p.colTerms, t.IsSlope 0 0) : p.Centred := by
  refine ⟨⟨-1, ?_⟩, hcolumns⟩
  rw [hrows, ← hp.observations]
  exact Term.isSubgradient_squaresAt _

/-- If no column has a product with the observations, zero is the best point of a centred problem
    for the rows alone and for the columns alone. -/
theorem Centred.isSeparateMinimiser (h : p.Centred) (hp : p.WellFormed)
    (horthogonal : p.design.matrix.transpose.mulVec p.observations = Vec.zeros p.width) :
    (p.request.form.withPenalty 1 one_pos).IsSeparateMinimiser (Vec.zeros p.width) := by
  obtain ⟨c, hrows⟩ := h.rows
  have hcolumns : Term.IsSubgradient (p.colTerms.map fun t => t.withScale 1 one_pos)
      (Vec.zeros p.width) (Vec.zeros p.width) := by
    have hslopes : ∀ t ∈ p.colTerms.map fun t => t.withScale 1 one_pos, t.IsSlope 0 0 := by
      intro t ht
      obtain ⟨u, hu, rfl⟩ := List.mem_map.1 ht
      exact (h.columns u hu).withScale_zero one_pos
    have hzeros := Term.isSubgradient_zeros hslopes
    rwa [List.length_map, hp.colTerms] at hzeros
  have hproduct : p.design.matrix.mulVec (Vec.zeros p.width) = Vec.zeros p.height :=
    p.design.matrix.mulVec_zeros
  -- The slopes of the rows vanish along every product, as the observations do.
  have hpull : ∀ z : List ℝ, z.length = p.width →
      Vec.dot (Vec.scale c p.observations) (p.design.matrix.mulVec z) = 0 := by
    intro z hz
    have hAz := p.design.matrix.length_mulVec z
    rw [Vec.dot_scale c hp.observations hAz, Vec.dot_comm hp.observations hAz,
      p.design.matrix.dot_mulVec hz hp.observations, horthogonal, Vec.dot_zeros hz, mul_zero]
  refine ⟨Vec.length_zeros _, ⟨?_, hcolumns.admits⟩, fun z hz hadm => ?_, fun z hz hadm => ?_⟩
  · show Term.AllAdmit p.rowTerms (p.design.matrix.mulVec (Vec.zeros p.width))
    rw [hproduct]
    exact hrows.admits
  · have hle := hrows.le_of_zeros (p.design.matrix.length_mulVec z) hadm.1
    rw [hpull z hz, add_zero, ← hproduct] at hle
    exact hle
  · have hz' : z.length = p.width := hz
    have hle := hcolumns.le_of_zeros hz' hadm.2
    rw [Vec.dot_comm (Vec.length_zeros _) hz', Vec.dot_zeros hz', add_zero] at hle
    exact hle

end Problem

/-! ### Paths that are over before their first step -/

namespace Path

variable {σ : Type} {s : Setup ℝ σ} {d : Driver ℝ σ} {p : Problem ℝ} {r : Result ℝ}

/-- What is known of the answer of a path that is over before its first step. -/
structure ZeroAnswer (p : Problem ℝ) (r : Result ℝ) : Prop where
  /-- There is no step. -/
  points : r.points = []
  /-- The answer is zero, -/
  x : r.x = Vec.zeros p.width
  /-- also in the rows. -/
  y : r.y = Vec.zeros p.height
  /-- The observations are orthogonal to all columns. -/
  orthogonal : p.design.matrix.transpose.mulVec p.observations = Vec.zeros p.width
  /-- The answer is right for every penalty exactly if it is the best point for the rows alone and
      for the columns alone. -/
  isMinimiser_iff : (∀ lam h, (p.request.form.withPenalty lam h).IsMinimiser r.x) ↔
    (p.request.form.withPenalty 1 one_pos).IsSeparateMinimiser r.x
  /-- If the terms follow the observations it is. -/
  isMinimiser_of_centred : p.Centred → ∀ lam h, (p.request.form.withPenalty lam h).IsMinimiser r.x

namespace Driver

/-- Zero is the threshold exactly if the observations are orthogonal to all columns. -/
theorem threshold_le_zero_iff (p : Problem ℝ) :
    Vec.normInf (p.design.matrix.transpose.mulVec p.observations) ≤ 0 ↔
      p.design.matrix.transpose.mulVec p.observations = Vec.zeros p.width :=
  Vec.normInf_le_zero_iff (p.design.matrix.length_transpose_mulVec p.observations)

/-- The top of the schedule of a problem is the largest entry of `|Aᵀ b|`, whatever its terms. -/
theorem isTop_normInf (hp : p.WellFormed) :
    IsTop p none (Vec.normInf (p.design.matrix.transpose.mulVec p.observations)) :=
  .inr ⟨rfl, lambdaMax_eq hp.observations⟩

/-- If the observations are orthogonal to all columns the path returns zero without a step. -/
theorem outcome_of_orthogonal (s : Setup ℝ σ) (d : Driver ℝ σ) (hp : p.WellFormed)
    (h : p.design.matrix.transpose.mulVec p.observations = Vec.zeros p.width) :
    (d.run s p none).outcome =
      .ok ⟨[], .degenerate, 0, [], Vec.zeros p.width, Vec.zeros p.height⟩ := by
  rw [run_degenerate (isTop_normInf hp) ((threshold_le_zero_iff p).2 h)]
  rfl

/-- A path with a result is over before its first step exactly if the observations are orthogonal to
    all columns. -/
theorem phase_eq_degenerate_iff (hp : p.WellFormed) (hr : (d.run s p none).outcome = .ok r) :
    r.phase = .degenerate ↔
      p.design.matrix.transpose.mulVec p.observations = Vec.zeros p.width := by
  by_cases horthogonal : p.design.matrix.transpose.mulVec p.observations = Vec.zeros p.width
  · rw [outcome_of_orthogonal s d hp horthogonal] at hr
    obtain rfl := Except.ok.inj hr
    exact iff_of_true rfl horthogonal
  · have htop := mt (threshold_le_zero_iff p).1 horthogonal
    obtain ⟨schedule, hschedule, -⟩ := exists_schedule? (isTop_normInf hp) htop hr
    refine iff_of_false (fun hphase => ?_) horthogonal
    have hend := (Stopping.of_run hschedule hr).phase
    rw [hphase] at hend
    exact absurd hend (by decide)

/-- The answer of a path that is over before its first step is zero.  It is right for every penalty
    exactly if zero is the best point for the rows alone and for the columns alone, as it is if the
    terms follow the observations. -/
theorem zeroAnswer_of_degenerate (hp : p.WellFormed) (hr : (d.run s p none).outcome = .ok r)
    (hphase : r.phase = .degenerate) : ZeroAnswer p r := by
  have horthogonal := (phase_eq_degenerate_iff hp hr).1 hphase
  rw [outcome_of_orthogonal s d hp horthogonal] at hr
  obtain rfl := Except.ok.inj hr
  exact ⟨rfl, rfl, rfl, horthogonal, GraphForm.isMinimiser_withPenalty_iff, fun hcentred =>
    GraphForm.isMinimiser_withPenalty_iff.2 (hcentred.isSeparateMinimiser hp horthogonal)⟩

/-- A column of two ones with opposite observations, and a half-line that holds zero. -/
noncomputable def levelProblem : Problem ℝ where
  design := ⟨0, ⟨1, [[(0, 1)], [(0, 1)]], by simp⟩⟩
  observations := [1, -1]
  rowTerms := Term.squaresAt [1, -1]
  colTerms := [.unit .nonneg (-1)]
  x := [0]
  y := [0, 0]

/-- The path of the problem is over before its first step, and its answer is right. -/
theorem zeroAnswer_of_degenerate_level :
    ∃ r, (Driver.run ⟨briefConfig, zeroEngine, fun i => (i : ℝ)⟩ (.new ()) levelProblem
        none).outcome = .ok r ∧ levelProblem.WellFormed ∧ r.phase = .degenerate ∧
      ZeroAnswer levelProblem r ∧ levelProblem.Centred := by
  have hp : levelProblem.WellFormed := ⟨rfl, rfl, rfl, rfl, rfl⟩
  have horthogonal : levelProblem.design.matrix.transpose.mulVec levelProblem.observations =
      Vec.zeros levelProblem.width := by
    simp [levelProblem, RowMatrix.mulVec, RowMatrix.transpose, RowMatrix.column, RowMatrix.rowDot,
      Problem.width, Vec.zeros]
  have hcolumns : ∀ t ∈ levelProblem.colTerms, t.IsSlope 0 0 := by
    intro t ht
    obtain rfl := List.mem_singleton.1 ht
    refine Term.isSlope_zero_iff.2 ⟨fun _ => ?_, fun h => by cases h⟩
    show (0 : ℝ) ≤ 0 - -1
    norm_num
  have hr := outcome_of_orthogonal ⟨briefConfig, zeroEngine, fun i => (i : ℝ)⟩ (.new ()) hp
    horthogonal
  exact ⟨_, hr, hp, rfl, zeroAnswer_of_degenerate hp hr rfl, hp.centred rfl hcolumns⟩

/-- The lasso of a single number with the observation `0`, but with its loss centred at `1`. -/
noncomputable def shiftedProblem : Problem ℝ where
  design := ⟨0, .identity 1⟩
  observations := [0]
  rowTerms := Term.squaresAt [1]
  colTerms := Term.penalties 1
  x := [0]
  y := [0]

/-- The answer of a path that is over before its first step need not be right. -/
theorem not_forall_isMinimiser :
    ¬ ∀ (s : Setup ℝ Unit) (d : Driver ℝ Unit) (design : Design ℝ) (b : List ℝ)
      (f g : Option (List (Term ℝ))) (x y : Option (List ℝ)) (p : Problem ℝ) (r : Result ℝ),
        Problem.make design b f g x y = .ok p → (d.run s p none).outcome = .ok r →
          r.phase = .degenerate → r.x = Vec.zeros p.width →
            ∀ lam h, (p.request.form.withPenalty lam h).IsMinimiser (Vec.zeros p.width) := by
  intro hclaim
  have hp : shiftedProblem.WellFormed := ⟨rfl, rfl, rfl, rfl, rfl⟩
  have horthogonal : shiftedProblem.design.matrix.transpose.mulVec shiftedProblem.observations =
      Vec.zeros shiftedProblem.width := by
    simp [shiftedProblem, RowMatrix.identity, RowMatrix.mulVec, RowMatrix.transpose,
      RowMatrix.column, RowMatrix.rowDot, Problem.width, Vec.zeros]
  have hmake : Problem.make ⟨0, .identity 1⟩ [0] (some (Term.squaresAt [1])) none none none =
      .ok shiftedProblem := rfl
  have hr := outcome_of_orthogonal ⟨briefConfig, zeroEngine, fun i => (i : ℝ)⟩ (.new ()) hp
    horthogonal
  have hmin := hclaim _ _ _ _ _ _ _ _ _ _ hmake hr rfl rfl (1 / 2) one_half_pos
  -- The terms are those of the lasso with the observation `1`, whose threshold is `1`.
  refine GraphForm.not_isMinimiser_zeros (A := .identity 1) (b := [1]) rfl ?_ hmin
  simp [RowMatrix.identity, RowMatrix.mulVec, RowMatrix.transpose, RowMatrix.column,
    RowMatrix.rowDot, Vec.normInf]
  norm_num

end Driver

end Path

end RegPath
