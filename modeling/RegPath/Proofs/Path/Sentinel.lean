import RegPath.Proofs.Path.Fitting
import RegPath.Proofs.Path.Prefix
import RegPath.Proofs.Path.Stopping

namespace RegPath

/-!
# The first step and the sentinel

The first iterate of a path is compared with a vector of largest values, which stands for the
iterate before it.  This sentinel is no mark of its own but a vector like others: an iterate agrees
with it if their difference is within the tolerance times the absolute sum of the iterate, and then
the path has converged after one step.  A coordinate of ordinary size keeps it from that, unless
the tolerance times the absolute sum is itself of the size of the largest value.

* `Scalar.Headroom` — values that are far from the largest one;
* `le_tol_mul_of_agrees` — an iterate with such a value that agrees with the sentinel;
* `Path.Stopping.converged_first_iff`, `Path.Driver.converged_first` — paths of one step that have
  converged;
* `Engine.AnswersFinite`, `Path.Driver.not_forall_unconverged` — there are such paths over the
  doubles, with finite iterates.
-/

variable {α : Type} [Scalar α]

/-! ### Far from the largest value -/

/-- Values up to `h` are at least `h` away from the largest one.  Of doubles this holds for half the
    largest value, since rounding is monotone. -/
structure Scalar.Headroom (h : α) : Prop extends Scalar.Ordered α where
  /-- The larger of two values is within a bound only if both are.  If one of the two is not a
      number the larger is none, and within no bound. -/
  sup_le : ∀ a b c : α, sup a b ≤ c → a ≤ c ∧ b ≤ c
  /-- The distance from the largest value. -/
  le_abs_sub_largest : ∀ a : α, a ≤ h → h ≤ abs (a - largest)

/-- In exact arithmetic it holds for half the largest value. -/
theorem Scalar.headroom_real : Scalar.Headroom (Scalar.half * Scalar.largest : ℝ) where
  toOrdered := ordered_real
  sup_le a b c hle := by
    rw [sup_real] at hle
    exact max_le_iff.1 hle
  le_abs_sub_largest a ha := by
    rw [abs_real]
    rw [half_real] at ha ⊢
    have habs := neg_abs_le (a - largest)
    linarith

/-- A largest entry is within a bound only if all entries are. -/
theorem Vec.abs_le_of_normInf_le {h : α} (hfar : Scalar.Headroom h) {x : List α} {c : α}
    (hle : normInf x ≤ c) : ∀ a ∈ x, Scalar.abs a ≤ c := by
  induction x with
  | nil => exact fun a ha => absurd ha List.not_mem_nil
  | cons b x ih =>
    obtain ⟨hb, hx⟩ := hfar.sup_le _ _ c hle
    exact List.forall_mem_cons.2 ⟨hb, ih hx⟩

/-- If something comes of pairing a vector with copies of one value, each of its entries is paired
    with the value. -/
theorem Vec.mem_of_pair?_replicate {β : Type} {op : β → β → β} {x d : List β} {n : Nat} {c : β}
    (h : pair? op x (List.replicate n c) = some d) (hd : d ≠ []) {a : β} (ha : a ∈ x) :
    op a c ∈ d := by
  unfold pair? at h
  split at h
  · -- A single entry is stretched to all copies.
    obtain rfl := Option.some.inj h
    obtain rfl := List.mem_singleton.1 ha
    rw [List.map_replicate] at hd ⊢
    have hn : n ≠ 0 := fun hn => hd (by rw [hn, List.replicate_zero])
    exact List.mem_replicate.2 ⟨hn, rfl⟩
  · -- The only copy is stretched to all entries.
    rename_i b _ hb
    obtain rfl := Option.some.inj h
    have hbc : b = c := List.eq_of_mem_replicate (hb.symm ▸ List.mem_singleton_self b)
    exact hbc ▸ List.mem_map_of_mem ha
  · rename_i x _ _ _ _
    split at h
    · rename_i hlen
      obtain rfl := Option.some.inj h
      obtain ⟨i, hi, rfl⟩ := List.getElem_of_mem ha
      have hi' : i < (List.zipWith op x (List.replicate n c)).length := by
        rw [List.length_zipWith, ← hlen, Nat.min_self]
        exact hi
      have hget := List.getElem_zipWith (h := hi')
      rw [List.getElem_replicate] at hget
      exact hget ▸ List.getElem_mem hi'
    · cases h

/-- An iterate that agrees with the sentinel although it has a value far from the largest one: its
    absolute sum is of the size of the largest value, but for the tolerance. -/
theorem le_tol_mul_of_agrees {h : α} (hfar : Scalar.Headroom h) {tol : α} {x : List α} {n : Nat}
    (hconverged : converged? tol x (List.replicate n Scalar.largest) = some true) {a : α}
    (ha : a ∈ x) (hle : a ≤ h) : h ≤ tol * Vec.norm1 x := by
  obtain ⟨c, hchange, hc⟩ := Option.map_eq_some_iff.1 hconverged
  have hbound := of_decide_eq_true hc
  unfold largestChange? at hchange
  split at hchange
  · rename_i hempty
    rw [List.isEmpty_iff.1 hempty] at ha
    exact absurd ha List.not_mem_nil
  · split at hchange
    · cases hchange
    · cases hchange
    · rename_i d hd hpair
      obtain rfl := Option.some.inj hchange
      have hmem := Vec.mem_of_pair?_replicate hpair hd ha
      exact hfar.trans _ _ _ (hfar.le_abs_sub_largest a hle)
        (Vec.abs_le_of_normInf_le hfar hbound _ hmem)

/-- Whatever the engine answers has finite entries. -/
def Engine.AnswersFinite {σ : Type} (E : Engine α σ) : Prop :=
  ∀ e q a, (E.solve e q).1.outcome = .ok a →
    (∀ v ∈ a.x, Scalar.IsFinite v) ∧ ∀ v ∈ a.y, Scalar.IsFinite v

namespace Path

variable {σ : Type}

/-! ### Paths that have converged after one step -/

/-- A path has converged after one step exactly if its first iterate agrees with the sentinel. -/
theorem Stopping.converged_first_iff {s : Setup α σ} {p : Problem α} {schedule : Schedule α}
    {calls : List (Request α × Reply α)} {r : Result α} (h : Stopping s p schedule calls r)
    {pt : Point α} (hpt : r.points[0]? = some pt) :
    (r.phase = .converged ∧ r.points.length = 1) ↔
      s.config.Agrees pt.x (List.replicate p.width Scalar.largest) := by
  have hagrees : r.points.length = 1 → (r.phase = .converged ↔
      s.config.Agrees pt.x (List.replicate p.width Scalar.largest)) := by
    intro hone
    have hlast : r.points.length - 1 = 0 := by omega
    rw [h.converged, h.x_eq_last (hlast ▸ hpt), hlast]
    exact Iff.rfl
  constructor
  · rintro ⟨hphase, hone⟩
    exact (hagrees hone).1 hphase
  · intro hfirst
    have hone : r.points.length = 1 := by
      by_contra hne
      have hpos := h.pos
      exact (h.goes_on 0 pt hpt (by omega)).1 hfirst
    exact ⟨(hagrees hone).2 hfirst, hone⟩

/-- A path with a result has converged after one step exactly if its first iterate agrees with the
    sentinel.  If the iterate has a coordinate that is far from the largest value, this takes a
    tolerance or an absolute sum of that size. -/
theorem Driver.converged_first {h : α} (hfar : Scalar.Headroom h) {s : Setup α σ} {d : Driver α σ}
    {p : Problem α} {pinned : Option α} {top : α} {r : Result α} (htop : IsTop p pinned top)
    (hpos : ¬ top ≤ 0) (hr : (d.run s p pinned).outcome = .ok r) :
    ∃ pt, r.points[0]? = some pt ∧
      ((r.phase = .converged ∧ r.points.length = 1) ↔
        s.config.Agrees pt.x (List.replicate p.width Scalar.largest)) ∧
      (∀ a ∈ pt.x, a ≤ h → ¬ h ≤ s.config.tol * Vec.norm1 pt.x →
        ¬ (r.phase = .converged ∧ r.points.length = 1)) := by
  obtain ⟨schedule, hschedule, -⟩ := exists_schedule? htop hpos hr
  have hstopping := Stopping.of_run hschedule hr
  have hpt := List.getElem?_eq_getElem hstopping.pos
  have hiff := hstopping.converged_first_iff hpt
  refine ⟨_, hpt, hiff, fun a ha hle hsmall hone => hsmall ?_⟩
  exact le_tol_mul_of_agrees hfar (hiff.1 hone).2.2 ha hle

/-- The path of a single number whose engine answers zero has not converged after one step. -/
theorem Driver.converged_first_brief :
    ∃ r pt, (Driver.run ⟨briefConfig, zeroEngine, fun i => (i : ℝ)⟩ (.new ()) briefProblem
        (some 1)).outcome = .ok r ∧
      r.points[0]? = some pt ∧
      ((r.phase = .converged ∧ r.points.length = 1) ↔
        briefConfig.Agrees pt.x (List.replicate 1 Scalar.largest)) ∧
      (∀ a ∈ pt.x, a ≤ Scalar.half * Scalar.largest →
        ¬ Scalar.half * Scalar.largest ≤ briefConfig.tol * Vec.norm1 pt.x →
          ¬ (r.phase = .converged ∧ r.points.length = 1)) := by
  obtain ⟨r, hr⟩ := brief_returns fun i => (i : ℝ)
  obtain ⟨pt, hpt, hiff, hsmall⟩ :=
    Driver.converged_first Scalar.headroom_real (.inl rfl) (by norm_num) hr
  exact ⟨r, pt, hr, hpt, hiff, hsmall⟩

/-! ### Doubles -/

/-- One hundredth is a proper fraction. -/
theorem hundredth_mem : 0 < (Scalar.ratio 1 100 : Float) ∧ (Scalar.ratio 1 100 : Float) < 1 := by
  decide +kernel

/-- No time limit is an acceptable one. -/
theorem Config.maxTime_nonneg_of_none : ∀ t ∈ (none : Option α), ¬ t < 0 :=
  fun _ h => absurd h (Option.not_mem_none _)

/-- The default configuration with a schedule of one entry and the tolerance `tol`. -/
def loneConfig (tol : Float) (h : ¬ tol < 0) : Config Float where
  count := 1
  ratio := Scalar.ratio 1 100
  tol := tol
  warmStart := true
  earlyStop := true
  policy := .keep
  maxTime := none
  maxSteps := none
  count_pos := Nat.one_pos
  ratio_mem := hundredth_mem
  tol_nonneg := h
  maxTime_nonneg := Config.maxTime_nonneg_of_none
  maxSteps_pos := Config.maxSteps_pos_of_none

/-- The engine that answers one number and its copy whatever it is asked. -/
def steadyEngine (c : Float) : Engine Float Unit where
  solve _ _ := (.quiet (.ok ⟨[c], [c], .success, 1⟩), ())

/-- The setup of both with a clock that stands still. -/
def loneSetup (tol : Float) (h : ¬ tol < 0) (c : Float) : Setup Float Unit :=
  ⟨loneConfig tol h, steadyEngine c, fun _ => 0⟩

/-- The lasso of a single number, with the observation `1`. -/
def loneProblem : Problem Float := .ofLasso ⟨0, .identity 1⟩ [1]

/-- The engine answers finite vectors if the number is finite. -/
theorem steadyEngine_answersFinite {c : Float} (h : Scalar.IsFinite c) :
    (steadyEngine c).AnswersFinite := by
  rintro _ _ _ ⟨⟩
  exact ⟨List.forall_mem_singleton.2 h, List.forall_mem_singleton.2 h⟩

/-- The largest value is an accepted tolerance. -/
theorem largest_tolerance : ¬ (Scalar.largest : Float) < 0 := by decide +kernel

/-- With the largest value as its tolerance the path has converged after one step. -/
theorem lone_converged :
    ((Driver.run (loneSetup Scalar.largest largest_tolerance 1) (.new ()) loneProblem
      (some 1)).outcome.toOption.any fun r => decide (r.phase = .converged ∧ r.points.length = 1)) =
        true := by
  decide +kernel

/-- A path of finite iterates from a positive top may have converged after one step. -/
theorem Driver.not_forall_unconverged :
    ¬ ∀ (s : Setup Float Unit) (d : Driver Float Unit) (p : Problem Float) (pinned : Option Float)
      (top : Float) (r : Result Float), s.engine.AnswersFinite → p.WellFormed →
        IsTop p pinned top → 0 < top → (d.run s p pinned).outcome = .ok r →
          ¬ (r.phase = .converged ∧ r.points.length = 1) := by
  intro hclaim
  have hlone := lone_converged
  cases hr : (Driver.run (loneSetup Scalar.largest largest_tolerance 1) (.new ()) loneProblem
      (some 1)).outcome with
  | error f =>
    rw [hr] at hlone
    cases hlone
  | ok r =>
    rw [hr] at hlone
    exact hclaim _ _ loneProblem (some 1) 1 r (steadyEngine_answersFinite (by decide +kernel))
      ⟨rfl, rfl, rfl, rfl, rfl⟩ (.inl rfl) (by decide) hr (of_decide_eq_true hlone)

/-- So may one with the default tolerance, if its first iterate is at the sentinel. -/
example : ((Driver.run (loneSetup (Scalar.ratio 1 1000) (by decide +kernel) Scalar.largest)
    (.new ()) loneProblem (some 1)).outcome.toOption.any fun r =>
      decide (r.phase = .converged ∧ r.points.length = 1)) = true := by
  decide +kernel

end Path

end RegPath
