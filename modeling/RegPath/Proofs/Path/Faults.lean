import RegPath.Proofs.Lasso.Threshold
import RegPath.Proofs.Matrix.Similar
import RegPath.Proofs.Path.Fitting
import RegPath.Proofs.Splitting.Service

namespace RegPath

/-!
# The faults of a fit

In exact arithmetic a fit with the splitting engine has three faults.  The observations are judged
before anything is computed; the size of the schedule has to be reported before the first step; and
the policy may stop the path at a step that reached the cap on its iterations.  Everything that is
computed on the way is defined: no logarithm is taken of a number that is not positive, no divisor is
zero, the systems have one solution, and all vectors have the lengths of their sides.

* `Schedule.Defined`, `Request.Defined` — what is computed for a schedule and for a call of the
  engine is defined;
* `Path.Verdict` — the ends of a path, with the condition of each (`Path.Verdict.overflow_iff`,
  `Path.Verdict.failure_iff`);
* `Path.Driver.run_of_largestSize_lt` — a schedule whose size cannot be reported ends a path;
* `Path.Driver.FitFaults`, `Path.Driver.fitFaults` — the faults of a fit, each with its condition.
-/

/-- All numbers of a schedule are defined: two logarithms, the distance of the entries where there
    are two, and the entries, which are positive. -/
structure Schedule.Defined (s : Schedule ℝ) : Prop where
  /-- The first entry has a logarithm. -/
  top : 0 < s.top
  /-- The last entry has a logarithm. -/
  bottom : 0 < s.ratio * s.top
  /-- A schedule of one entry divides by nothing, any other one by a number that is not zero. -/
  divisor : s.count ≠ 1 → ((s.count - 1 : ℕ) : ℝ) ≠ 0
  /-- Every entry is a positive number. -/
  entry : ∀ i, i < s.count → ∃ lam, s.entry? i = some lam ∧ 0 < lam

/-- They are for every schedule. -/
theorem Schedule.defined (s : Schedule ℝ) : s.Defined where
  top := s.top_pos
  bottom := mul_pos s.ratio_mem.1 s.top_pos
  divisor := by
    intro hcount
    have hpos := s.count_pos
    exact Nat.cast_ne_zero.2 (by omega)
  entry := fun i _ => s.exists_entry? i

/-- The normal system of a matrix has one solution for every right-hand side. -/
theorem RowMatrix.existsUnique_normal {F : Factorization ℝ} (hF : F.Exact) (A : RowMatrix ℝ)
    {r : List ℝ} (hr : r.length = A.cols) :
    ∃! x, x.length = A.cols ∧ Vec.add x (A.transpose.mulVec (A.mulVec x)) = r := by
  obtain ⟨solve, -, hsolves⟩ := A.solve_normal hF
  obtain ⟨hlength, hsolve⟩ := hsolves r hr
  refine ⟨solve r, ⟨hlength, hsolve⟩, ?_⟩
  rintro x ⟨hx, heq⟩
  exact A.eq_of_normal hx hlength (heq.trans hsolve.symm)

/-- What the splitting computes for a request with the penalty parameter `rho` is defined. -/
structure Request.Defined (q : Request ℝ) (rho : ℝ) : Prop where
  /-- All lists of terms and all vectors have the lengths of their sides. -/
  fits : q.Fits
  /-- The soft threshold divides by the penalty parameter. -/
  threshold : rho ≠ 0
  /-- The weighted mean divides by the sum of both weights. -/
  weights : ∀ t ∈ q.rowTerms ++ q.colTerms, t.scale + rho ≠ 0
  /-- The projection solves a system with one solution. -/
  system : ∀ r : List ℝ, r.length = q.width → ∃! x, x.length = q.width ∧
    Vec.add x (q.design.matrix.transpose.mulVec (q.design.matrix.mulVec x)) = r

/-- It is for every request that fits together. -/
theorem Request.Fits.defined {q : Request ℝ} (h : q.Fits) {F : Factorization ℝ} (hF : F.Exact)
    (S : Admm.Settings ℝ) : q.Defined S.rho where
  fits := h
  threshold := ne_of_gt S.rho_pos_real
  weights := fun t _ => ne_of_gt (add_pos t.scale_pos S.rho_pos_real)
  system := fun _ hr => q.design.matrix.existsUnique_normal hF hr

namespace Path

/-- The call was answered by a step that was not solved: it reached its cap or found nothing. -/
def Unsolved (c : Request ℝ × Reply ℝ) : Prop :=
  ∃ a, c.2.outcome = .ok a ∧ (a.status = .maxIter ∨ a.status = .failed)

/-- The policy is to stop at unsolved steps, and one of the calls was such a step. -/
def Stops (config : Config ℝ) (calls : List (Request ℝ × Reply ℝ)) : Prop :=
  config.policy = .stop ∧ ∃ c ∈ calls, Unsolved c

/-- There is a schedule to walk whose size cannot be reported. -/
def Unreportable (config : Config ℝ) (A : RowMatrix ℝ) (b : List ℝ) : Prop :=
  (∃ top, lambdaMax A b = .ok top ∧ 0 < top) ∧ Schedule.largestSize < config.count

/-- How a path on a matrix and observations ends that has made some calls: at the size of its
    schedule, at the failure policy, or with a result. -/
inductive Verdict (config : Config ℝ) (A : RowMatrix ℝ) (b : List ℝ)
    (calls : List (Request ℝ × Reply ℝ)) : Except (Fault ℝ) (Result ℝ) → Prop where
  /-- At the size of the schedule, before the first step. -/
  | unreportable (h : Unreportable config A b) (quiet : ¬ Stops config calls) :
      Verdict config A b calls (.error .overflow)
  /-- At an unsolved step. -/
  | stopped (h : ¬ Unreportable config A b) (stops : Stops config calls) (i : ℕ) (lam : ℝ)
      (status : Status) : Verdict config A b calls (.error (.solverFailure i lam status))
  /-- With a result. -/
  | returned (h : ¬ Unreportable config A b) (quiet : ¬ Stops config calls) (r : Result ℝ) :
      Verdict config A b calls (.ok r)

namespace Verdict

variable {config : Config ℝ} {A : RowMatrix ℝ} {b : List ℝ} {calls : List (Request ℝ × Reply ℝ)}
  {outcome : Except (Fault ℝ) (Result ℝ)}

/-- The size of the schedule is the fault exactly if it cannot be reported. -/
theorem overflow_iff (h : Verdict config A b calls outcome) :
    outcome = .error .overflow ↔ Unreportable config A b := by
  cases h with
  | unreportable h => exact iff_of_true rfl h
  | stopped h => exact iff_of_false (by simp) h
  | returned h => exact iff_of_false (by simp) h

/-- An unsolved step is the fault exactly if the policy stops at one. -/
theorem failure_iff (h : Verdict config A b calls outcome) :
    (∃ i lam status, outcome = .error (.solverFailure i lam status)) ↔ Stops config calls := by
  cases h with
  | unreportable _ quiet => exact iff_of_false (by simp) quiet
  | stopped _ stops i lam status => exact iff_of_true ⟨i, lam, status, rfl⟩ stops
  | returned _ quiet => exact iff_of_false (by simp) quiet

/-- Without either the path returns. -/
theorem exists_ok (h : Verdict config A b calls outcome) (hreport : ¬ Unreportable config A b)
    (hquiet : ¬ Stops config calls) : ∃ r, outcome = .ok r := by
  cases h with
  | unreportable h => exact absurd h hreport
  | stopped _ stops => exact absurd stops hquiet
  | returned _ _ r => exact ⟨r, rfl⟩

/-- There is no third fault. -/
theorem fault_eq (h : Verdict config A b calls outcome) {f : Fault ℝ} (hf : outcome = .error f) :
    f = .overflow ∨ ∃ i lam status, f = .solverFailure i lam status := by
  cases h with
  | unreportable => exact .inl (Except.error.inj hf).symm
  | stopped _ _ i lam status => exact .inr ⟨i, lam, status, (Except.error.inj hf).symm⟩
  | returned => cases hf

end Verdict

namespace Driver

/-! ### Paths -/

section Paths

variable {σ : Type} {s : Setup ℝ σ} {d : Driver ℝ σ} {p : Problem ℝ} {pinned : Option ℝ} {top : ℝ}

/-- In exact arithmetic a path from a positive top is over before its first step, if the size of its
    schedule cannot be reported. -/
theorem run_of_largestSize_lt (htop : IsTop p pinned top) (hpos : 0 < top)
    (hcount : Schedule.largestSize < s.config.count) :
    (d.run s p pinned).outcome = .error .overflow ∧ d.calls s p pinned = [] := by
  obtain ⟨schedule, hmake⟩ := Schedule.exists_make hpos s.config.count_pos s.config.ratio_mem
  have hsize : schedule.count = s.config.count := Int.ofNat_inj.1 (Schedule.make_ok hmake).2.1
  have hends : schedule.ends = .error .overflow := by
    rw [Schedule.ends, Schedule.size, if_neg (by omega)]
  have hnone : s.schedule? p pinned = none := by
    simp only [Setup.schedule?, isTop_iff.1 htop, if_neg (not_le.2 hpos), hmake, hends]
  refine ⟨?_, calls_of_none hnone⟩
  rw [run_eq_finish htop, start, if_neg (not_le.2 hpos)]
  simp only [hmake, hends, Begun.finish]

/-- A path from a top that is not positive makes no calls. -/
theorem calls_of_not_pos (htop : IsTop p pinned top) (hpos : ¬ 0 < top) :
    d.calls s p pinned = [] := by
  refine calls_of_none ?_
  simp only [Setup.schedule?, isTop_iff.1 htop, if_pos (not_lt.1 hpos)]

/-- A path whose engine answers after success or at its cap is stopped by the policy exactly if a
    call was not solved. -/
theorem Concluded.verdict (h : Concluded s d p pinned) {A : RowMatrix ℝ} {b : List ℝ}
    (hreport : ¬ Unreportable s.config A b)
    (hstatus : ∀ c ∈ d.calls s p pinned, ∀ a, c.2.outcome = .ok a →
      a.status = .success ∨ a.status = .maxIter) :
    Verdict s.config A b (d.calls s p pinned) (d.run s p pinned).outcome := by
  rcases h with ⟨r, hr, hsolved⟩ | ⟨hstop, i, lam, c, a, hc, ha, hunsolved, houtcome⟩
  · rw [hr]
    refine .returned hreport ?_ r
    rintro ⟨hstop, c, hc, a, ha, hstatus⟩
    obtain ⟨a', ha', hok⟩ := hsolved hstop c hc
    obtain rfl := Except.ok.inj (ha.symm.trans ha')
    rw [Status.ok_iff] at hok
    rw [hok] at hstatus
    exact absurd hstatus (by decide)
  · rw [houtcome]
    refine .stopped hreport ⟨hstop, c, hc, a, ha, .inl ?_⟩ i lam a.status
    rcases hstatus c hc a ha with hsuccess | hcap
    · rw [hsuccess] at hunsolved
      cases hunsolved
    · exact hcap

end Paths

section Splitting

variable {F : Factorization ℝ} {S : Admm.Settings ℝ} {config : Config ℝ} {elapsed : ℕ → ℝ}
  {d : Driver ℝ (Admm.Cache ℝ)} {p : Problem ℝ} {pinned : Option ℝ}

/-- Every call of a path with the splitting engine is about its problem and answered. -/
theorem answer_of_call (hF : F.Exact) (hd : d.engine.Intact F p.design) (hp : p.WellFormed)
    {c : Request ℝ × Reply ℝ} (hc : c ∈ d.calls ⟨config, Admm.engine F S, elapsed⟩ p pinned) :
    c.1.IsAbout p ∧ ∃ a, c.2.outcome = .ok a ∧ a.x.length = p.width ∧ a.y.length = p.height ∧
      (a.status = .success ∨ a.status = .maxIter) := by
  obtain ⟨e, he, habout, hreply⟩ := exists_served (hd.servesFrom hF S hp) hp hc
  obtain ⟨a, ha, hx, hy, hstatus⟩ := (hd.of_reaches he).exists_answer hF S hp habout
  refine ⟨habout, a, by rw [hreply, ha], hx, ?_, hstatus⟩
  rw [hy]
  exact p.design.matrix.length_mulVec _

/-- A path with the splitting engine has no other end. -/
theorem verdict (hF : F.Exact) (hd : d.engine.Intact F p.design) (hp : p.WellFormed) :
    Verdict config p.design.matrix p.observations
      (d.calls ⟨config, Admm.engine F S, elapsed⟩ p none)
      (d.run ⟨config, Admm.engine F S, elapsed⟩ p none).outcome := by
  have hmax := lambdaMax_eq (A := p.design.matrix) hp.observations
  generalize Vec.normInf (p.design.matrix.transpose.mulVec p.observations) = top at hmax
  have htop : IsTop p none top := .inr ⟨rfl, hmax⟩
  by_cases hpos : 0 < top
  · by_cases hcount : config.count ≤ Schedule.largestSize
    · obtain ⟨schedule, hschedule⟩ :=
        exists_schedule?_of_le (s := ⟨config, Admm.engine F S, elapsed⟩) htop hpos hcount
      obtain ⟨lambdas, hgrid⟩ := schedule.exists_grid
      have hconcluded :=
        concluded hschedule hgrid (Schedule.pos_of_grid hgrid) (hd.servesFrom hF S hp) hp
      refine hconcluded.verdict (fun h => absurd h.2 (not_lt.2 hcount)) fun c hc a ha => ?_
      obtain ⟨-, a', ha', -, -, hstatus⟩ := answer_of_call hF hd hp hc
      obtain rfl := Except.ok.inj (ha.symm.trans ha')
      exact hstatus
    · obtain ⟨houtcome, hcalls⟩ := run_of_largestSize_lt (d := d)
        (s := ⟨config, Admm.engine F S, elapsed⟩) htop hpos (not_le.1 hcount)
      rw [houtcome, hcalls]
      exact .unreportable ⟨⟨top, hmax, hpos⟩, not_le.1 hcount⟩ fun ⟨_, c, hc, _⟩ => by cases hc
  · -- Without a positive threshold nothing is asked of the engine.
    rw [calls_of_not_pos htop hpos, run_degenerate htop (not_lt.1 hpos)]
    refine .returned ?_ (fun ⟨_, c, hc, _⟩ => by cases hc) _
    rintro ⟨⟨top', hmax', hpos'⟩, -⟩
    obtain rfl := Except.ok.inj (hmax.symm.trans hmax')
    exact hpos hpos'

end Splitting

/-! ### Fits -/

/-- The faults of a fit with an engine of penalty parameter `rho`, each with its condition, and what
    is computed on the way. -/
structure FitFaults {σ : Type} (s : Setup ℝ σ) (d : Driver ℝ σ) (rho : ℝ) (depth key : ℕ)
    (form : MatrixForm ℝ) (A : RowMatrix ℝ) (b : List ℝ) : Prop where
  /-- The number of observations is refused if it is not the number of rows. -/
  dimension : (∃ got rows, (d.fit s depth key form b).outcome =
    .error (.observationCount got rows)) ↔ b.length ≠ A.height
  /-- Else the size of the schedule is too large if it cannot be reported. -/
  overflow : b.length = A.height →
    ((d.fit s depth key form b).outcome = .error .overflow ↔ Unreportable s.config A b)
  /-- Else the policy stops the path if a step is not solved. -/
  failure : b.length = A.height →
    ((∃ i lam status, (d.fit s depth key form b).outcome =
      .error (.solverFailure i lam status)) ↔ Stops s.config (d.fitCalls s depth key form b))
  /-- Else the fit returns. -/
  returned : b.length = A.height → ¬ Unreportable s.config A b →
    ¬ Stops s.config (d.fitCalls s depth key form b) →
      ∃ r, (d.fit s depth key form b).outcome = .ok r
  /-- There is no other fault. -/
  others : ∀ f, (d.fit s depth key form b).outcome = .error f →
    (∃ got rows, f = .observationCount got rows) ∨ f = .overflow ∨
      ∃ i lam status, f = .solverFailure i lam status
  /-- There is a schedule for every positive threshold, and its numbers are defined. -/
  schedule : ∀ top, lambdaMax A b = .ok top → 0 < top →
    ∃ schedule, Schedule.make top s.config.count s.config.ratio = .ok schedule ∧ schedule.Defined
  /-- Every call is about the matrix with a positive penalty, what is computed for it is defined, and
      it is answered with vectors of the right lengths. -/
  call : ∀ c ∈ d.fitCalls s depth key form b, c.1.design = ⟨key, A⟩ ∧
    (∃ lam, 0 < lam ∧ ∀ t ∈ c.1.colTerms, t.scale = lam) ∧ c.1.Defined rho ∧
      ∃ a, c.2.outcome = .ok a ∧ a.x.length = A.cols ∧ a.y.length = A.height

/-- With exact solves a fit with the splitting engine has no other fault than these. -/
theorem fitFaults {F : Factorization ℝ} (hF : F.Exact) (S : Admm.Settings ℝ) (config : Config ℝ)
    (elapsed : ℕ → ℝ) {d : Driver ℝ (Admm.Cache ℝ)} (depth key : ℕ) {form : MatrixForm ℝ}
    {A : RowMatrix ℝ} (hA : form.read = .ok A) (hd : d.engine.Intact F ⟨key, A⟩) (b : List ℝ) :
    FitFaults ⟨config, Admm.engine F S, elapsed⟩ d S.rho depth key form A b := by
  have hschedule : ∀ top, lambdaMax A b = .ok top → 0 < top → ∃ schedule,
      Schedule.make top config.count config.ratio = .ok schedule ∧ schedule.Defined := by
    intro top _ hpos
    obtain ⟨schedule, hmake⟩ := Schedule.exists_make hpos config.count_pos config.ratio_mem
    exact ⟨schedule, hmake, schedule.defined⟩
  by_cases hb : b.length = A.height
  · have hp : (Problem.ofLasso ⟨key, A⟩ b).WellFormed := Problem.wellFormed_ofLasso hb
    have houtcome := fit_outcome ⟨config, Admm.engine F S, elapsed⟩ d depth key hA hb
    have hcalls := fitCalls_eq ⟨config, Admm.engine F S, elapsed⟩ d depth key hA hb
    have hverdict : Verdict config A b
        (d.fitCalls ⟨config, Admm.engine F S, elapsed⟩ depth key form b)
        (d.fit ⟨config, Admm.engine F S, elapsed⟩ depth key form b).outcome := by
      rw [houtcome, hcalls]
      exact verdict hF hd hp
    constructor
    case dimension =>
      refine iff_of_false ?_ (not_not.2 hb)
      rintro ⟨got, rows, hcount⟩
      rcases hverdict.fault_eq hcount with h | ⟨i, lam, status, h⟩
      · cases h
      · cases h
    case overflow => exact fun _ => hverdict.overflow_iff
    case failure => exact fun _ => hverdict.failure_iff
    case returned => exact fun _ => hverdict.exists_ok
    case others => exact fun f hf => .inr (hverdict.fault_eq hf)
    case schedule => exact hschedule
    case call =>
      intro c hc
      rw [hcalls] at hc
      obtain ⟨habout, a, ha, hx, hy, -⟩ := answer_of_call hF hd hp hc
      obtain ⟨i, hi⟩ := List.getElem?_of_mem hc
      obtain ⟨schedule, -, lam, x, y, hasked⟩ := exists_askedAt hi
      obtain ⟨hpos, -⟩ := hasked.request
      exact ⟨habout.design, ⟨lam, hpos, hasked.problem.2.2.scales⟩,
        (habout.fits hp).defined hF S, a, ha, hx, hy⟩
  · obtain ⟨houtcome, hcalls⟩ :=
      fit_of_length_ne ⟨config, Admm.engine F S, elapsed⟩ d depth key hA hb
    refine ⟨iff_of_true ⟨_, _, houtcome⟩ hb, fun h => absurd h hb, fun h => absurd h hb,
      fun h => absurd h hb, fun f hf => ?_, hschedule, fun c hc => ?_⟩
    · exact .inl ⟨_, _, Except.error.inj (hf.symm.trans houtcome)⟩
    · rw [hcalls] at hc
      cases hc

/-- The fit of a single number has no other fault. -/
theorem fitFaults_single :
    FitFaults ⟨briefConfig, Admm.engine .elimination (.plain 0 1 le_rfl one_pos), fun _ => 0⟩
      (.new .empty) 1 0 0 (.dense (Grid.ofRow [1])) (Grid.ofRow [1]).toRows [3] :=
  fitFaults Factorization.elimination_exact (.plain 0 1 le_rfl one_pos) briefConfig (fun _ => 0) 0 0
    rfl (Admm.Cache.intact_empty _ _) [3]

/-- A configuration whose schedules are one entry too long, which stops at unsolved steps. -/
noncomputable def endlessConfig : Config ℝ :=
  { briefConfig with
    count := Schedule.largestSize + 1
    policy := .stop
    count_pos := Nat.succ_pos _ }

/-- There are fits with observations of the right number that neither return nor stop at an unsolved
    step: the size of a schedule may be the only thing that is wrong. -/
theorem not_forall_fit_returns :
    ¬ ∀ (config : Config ℝ) (b : List ℝ), b.length = 1 →
      (∃ r, (Driver.fit ⟨config, Admm.engine .elimination (.plain 0 1 le_rfl one_pos), fun _ => 0⟩
        (.new .empty) 0 0 (.dense (Grid.ofRow [1])) b).outcome = .ok r) ∨
      ∃ i lam status, (Driver.fit
        ⟨config, Admm.engine .elimination (.plain 0 1 le_rfl one_pos), fun _ => 0⟩
        (.new .empty) 0 0 (.dense (Grid.ofRow [1])) b).outcome =
          .error (.solverFailure i lam status) := by
  intro h
  have hmax : lambdaMax (Grid.ofRow [1]).toRows [3] = .ok (3 : ℝ) := by
    rw [lambdaMax_eq rfl]
    simp [Grid.ofRow, Grid.toRows, Grid.entries, RowMatrix.transpose, RowMatrix.column,
      RowMatrix.mulVec, RowMatrix.rowDot, Vec.normInf]
  have hread : (MatrixForm.dense (Grid.ofRow [1]) : MatrixForm ℝ).read =
      .ok (Grid.ofRow [1]).toRows := rfl
  have houtcome := fit_outcome
    ⟨endlessConfig, Admm.engine .elimination (.plain 0 1 le_rfl one_pos), fun _ => 0⟩
    (.new .empty) 0 0 hread (b := [3]) rfl
  rw [(run_of_largestSize_lt (.inr ⟨rfl, hmax⟩) three_pos (Nat.lt_succ_self _)).1] at houtcome
  rcases h endlessConfig [3] rfl with ⟨r, hr⟩ | ⟨i, lam, status, hf⟩
  · exact absurd (houtcome.symm.trans hr) (by simp)
  · exact absurd (houtcome.symm.trans hf) (by simp)

end Driver

end Path

end RegPath
