import RegPath.Proofs.Proximal
import RegPath.Proofs.Proximal.Passes

namespace RegPath.Term

/-!
# Proximal points are minimisers

A proximal point minimises its term together with a quadratic pull towards a given number, and it is
the only point that does: every other point is worse by the square of its distance.

* `Term.pulled?`, `Term.IsProximalPoint` — the term with the pull, and its minimisers;
* `Term.pulled_prox_le` — how much worse another point is;
* `Term.isProximalPoint_iff` — the proximal point is the only minimiser;
* `Term.proxAll?_isProximalPoint` — the proximal points of a vector, entry by entry.
-/

/-- The term at `u` with the pull towards `v`, `none` where the term is infinite. -/
noncomputable def pulled? (t : Term ℝ) (v rho u : ℝ) : Option ℝ :=
  (t.value? u).map fun c => c + Scalar.half * rho * ((u - v) * (u - v))

/-- A point where the term with the pull is finite, and nowhere smaller. -/
def IsProximalPoint (t : Term ℝ) (v rho u : ℝ) : Prop :=
  ∃ c, t.pulled? v rho u = some c ∧ ∀ w d, t.pulled? v rho w = some d → c ≤ d

variable {t : Term ℝ} {v rho u w c : ℝ}

/-- The term with the pull is finite where the term is. -/
theorem pulled?_eq_some_iff :
    t.pulled? v rho u = some c ↔ t.Admits u ∧ t.cost u + rho / 2 * (u - v) ^ 2 = c := by
  have hpull : Scalar.half * rho * ((u - v) * (u - v)) = rho / 2 * (u - v) ^ 2 := by
    rw [Scalar.half_real]
    ring
  rw [pulled?, Option.map_eq_some_iff, hpull]
  constructor
  · rintro ⟨d, hvalue, rfl⟩
    obtain ⟨hadmits, rfl⟩ := (t.value?_eq_some_iff u d).1 hvalue
    exact ⟨hadmits, rfl⟩
  · rintro ⟨hadmits, rfl⟩
    exact ⟨t.cost u, (t.value?_eq_some_iff u _).2 ⟨hadmits, rfl⟩, rfl⟩

/-- Minimisers without infinite values. -/
theorem isProximalPoint_iff_admits :
    t.IsProximalPoint v rho u ↔ t.Admits u ∧ ∀ w, t.Admits w →
      t.cost u + rho / 2 * (u - v) ^ 2 ≤ t.cost w + rho / 2 * (w - v) ^ 2 := by
  constructor
  · rintro ⟨c, hc, hle⟩
    obtain ⟨hadmits, rfl⟩ := pulled?_eq_some_iff.1 hc
    exact ⟨hadmits, fun w hw => hle w _ (pulled?_eq_some_iff.2 ⟨hw, rfl⟩)⟩
  · rintro ⟨hadmits, hle⟩
    refine ⟨_, pulled?_eq_some_iff.2 ⟨hadmits, rfl⟩, fun w d hd => ?_⟩
    obtain ⟨hw, rfl⟩ := pulled?_eq_some_iff.1 hd
    exact hle w hw

/-- Any other point is worse than the proximal one by the square of its distance. -/
theorem pulled_prox_le (t : Term ℝ) (v : ℝ) (hrho : 0 < rho) (hw : t.Admits w) :
    t.cost (t.prox v rho) + rho / 2 * (t.prox v rho - v) ^ 2 + rho / 2 * (w - t.prox v rho) ^ 2 ≤
      t.cost w + rho / 2 * (w - v) ^ 2 := by
  have hslope := (t.isSlope_prox v hrho).le w hw
  generalize t.prox v rho = p at hslope ⊢
  -- The square around `v` is the one around `p`, shifted by the line of the pull.
  have hsquare : rho / 2 * (w - v) ^ 2 =
      rho / 2 * (p - v) ^ 2 + rho / 2 * (w - p) ^ 2 - rho * (v - p) * (w - p) := by ring
  linarith

/-- The proximal point is the only minimiser. -/
theorem isProximalPoint_iff (t : Term ℝ) (v : ℝ) (hrho : 0 < rho) :
    t.IsProximalPoint v rho u ↔ u = t.prox v rho := by
  have hhalf : 0 < rho / 2 := half_pos hrho
  have hadmits := (t.isSlope_prox v hrho).admits
  rw [isProximalPoint_iff_admits]
  constructor
  · rintro ⟨hu, hle⟩
    have hgap := t.pulled_prox_le v hrho hu
    have hother := hle _ hadmits
    have hdistance : rho / 2 * (u - t.prox v rho) ^ 2 ≤ 0 := by linarith
    have hzero : (u - t.prox v rho) ^ 2 ≤ 0 := nonpos_of_mul_nonpos_right hdistance hhalf
    exact sub_eq_zero.1 (pow_eq_zero_iff two_ne_zero |>.1 (le_antisymm hzero (sq_nonneg _)))
  · rintro rfl
    refine ⟨hadmits, fun w hw => ?_⟩
    have hgap := t.pulled_prox_le v hrho hw
    have hdistance := mul_nonneg (le_of_lt hhalf) (sq_nonneg (w - t.prox v rho))
    linarith

/-- The proximal points of a vector with a term for each entry, in one pass for each shape: each is
    the only minimiser of its own term with the pull towards its own entry, and the same as the
    proximal point of that entry alone. -/
theorem proxAll?_isProximalPoint {ts : List (Term ℝ)} {v : List ℝ} (hrho : 0 < rho)
    (h : ts.length = v.length) :
    ∃ r, proxAll? ts v rho = .ok r ∧ proxByShape ts v rho = r ∧ r.length = v.length ∧
      ∀ (j : ℕ) (t : Term ℝ) (a : ℝ), ts[j]? = some t → v[j]? = some a →
        r[j]? = some (t.prox a rho) ∧ proxAll? [t] [a] rho = .ok [t.prox a rho] ∧
          ∀ u, t.IsProximalPoint a rho u ↔ u = t.prox a rho := by
  have hserves : Serves ts v.length := .inr h
  refine ⟨proxAll ts v rho, if_pos hserves, proxByShape_eq rho h, length_proxAll rho hserves, ?_⟩
  intro j t a ht ha
  refine ⟨?_, if_pos (.inr rfl), fun u => t.isProximalPoint_iff a hrho⟩
  rw [proxAll_of_length_eq rho h, List.getElem?_zipWith, ht, ha]

/-- All four shapes in one vector. -/
theorem proxAll?_isProximalPoint_mixed :
    ∃ r, proxAll? [unit .square 1, unit .abs 1, unit .nonneg 0, unit .zero 1]
        [(0 : ℝ), 3, -1, 5] 1 = .ok r ∧
      proxByShape [unit .square 1, unit .abs 1, unit .nonneg 0, unit .zero 1] [0, 3, -1, 5] 1 = r ∧
      r.length = 4 ∧
      ∀ (j : ℕ) (t : Term ℝ) (a : ℝ),
        [unit .square 1, unit .abs 1, unit .nonneg 0, unit .zero 1][j]? = some t →
          [0, 3, -1, 5][j]? = some a →
            r[j]? = some (t.prox a 1) ∧ proxAll? [t] [a] 1 = .ok [t.prox a 1] ∧
              ∀ u, t.IsProximalPoint a 1 u ↔ u = t.prox a 1 :=
  proxAll?_isProximalPoint one_pos rfl

end RegPath.Term
