import Mathlib.Tactic.Linarith
import RegPath.Objective
import RegPath.Proofs.Coordinates

namespace RegPath

/-!
# Proximal points and slopes

In exact arithmetic a proximal point is characterised by a slope: the term lies above the line
through its value there whose slope is the pull of the proximal term.

* `Term.IsSlope` — the slope of a line below a term that touches it;
* `Term.isSlope_prox` — what a proximal point is, for each shape;
* `Term.IsSubgradient` — the same for a list of terms and a vector;
* `Term.isSubgradient_proxAll` — what a vector of proximal points is.
-/

namespace Term

/-! ### One term -/

/-- The line of slope `s` through the value at `a` is nowhere above the term. -/
structure IsSlope (t : Term ℝ) (a s : ℝ) : Prop where
  /-- The value is finite. -/
  admits : t.Admits a
  /-- No finite value is below the line. -/
  le : ∀ z, t.Admits z → t.cost a + s * (z - a) ≤ t.cost z

variable {t : Term ℝ}

/-- Only the half-line has infinite values. -/
theorem admits_of_ne (h : t.kind ≠ .nonneg) (a : ℝ) : t.Admits a := fun h' => absurd h' h

/-- The half-line admits what is not below its offset. -/
theorem admits_nonneg (h : t.kind = .nonneg) {a : ℝ} : t.Admits a ↔ t.offset ≤ a := by
  rw [Admits, forall_prop_of_true h, sub_nonneg]

/-- Nothing costs nothing. -/
theorem cost_zero (h : t.kind = .zero) (a : ℝ) : t.cost a = 0 := by
  simp only [cost, h]

/-- Half a square. -/
theorem cost_square (h : t.kind = .square) (a : ℝ) :
    t.cost a = t.scale / 2 * (a - t.offset) ^ 2 := by
  simp only [cost, h, Scalar.half_real]
  ring

/-- An absolute value. -/
theorem cost_abs (h : t.kind = .abs) (a : ℝ) : t.cost a = t.scale * |a - t.offset| := by
  simp only [cost, h, Scalar.abs_real]

/-- A half-line costs nothing where it is finite. -/
theorem cost_nonneg (h : t.kind = .nonneg) (a : ℝ) : t.cost a = 0 := by
  simp only [cost, h]

/-- An absolute value lies above every line through its vertex that is not steeper. -/
theorem isSlope_vertex (h : t.kind = .abs) {s : ℝ} (hs : |s| ≤ t.scale) :
    t.IsSlope t.offset s := by
  refine ⟨admits_of_ne (by rw [h]; decide) _, fun z _ => ?_⟩
  rw [cost_abs h, cost_abs h, sub_self, abs_zero, mul_zero, zero_add]
  calc s * (z - t.offset) ≤ |s * (z - t.offset)| := le_abs_self _
    _ = |s| * |z - t.offset| := abs_mul _ _
    _ ≤ t.scale * |z - t.offset| := mul_le_mul_of_nonneg_right hs (abs_nonneg _)

/-- Beyond its vertex an absolute value lies above the line that it follows. -/
theorem isSlope_above (h : t.kind = .abs) {a : ℝ} (ha : t.offset ≤ a) : t.IsSlope a t.scale := by
  refine ⟨admits_of_ne (by rw [h]; decide) _, fun z _ => ?_⟩
  rw [cost_abs h, cost_abs h, abs_of_nonneg (sub_nonneg.2 ha)]
  have hz := mul_le_mul_of_nonneg_left (le_abs_self (z - t.offset)) (le_of_lt t.scale_pos)
  linarith

/-- Before its vertex an absolute value lies above the line that it follows. -/
theorem isSlope_below (h : t.kind = .abs) {a : ℝ} (ha : a ≤ t.offset) : t.IsSlope a (-t.scale) := by
  refine ⟨admits_of_ne (by rw [h]; decide) _, fun z _ => ?_⟩
  rw [cost_abs h, cost_abs h, abs_of_nonpos (sub_nonpos.2 ha)]
  have hz := mul_le_mul_of_nonneg_left (neg_abs_le (z - t.offset)) (le_of_lt t.scale_pos)
  linarith

/-- Half a square lies above its tangents. -/
theorem isSlope_tangent (h : t.kind = .square) (a : ℝ) :
    t.IsSlope a (t.scale * (a - t.offset)) := by
  refine ⟨admits_of_ne (by rw [h]; decide) _, fun z _ => ?_⟩
  rw [cost_square h, cost_square h]
  have hsq := mul_nonneg (le_of_lt t.scale_pos) (sq_nonneg (z - a))
  linarith

/-- The pull on the proximal point of nothing. -/
theorem isSlope_prox_zero (h : t.kind = .zero) (v rho : ℝ) :
    t.IsSlope (t.prox v rho) (rho * (v - t.prox v rho)) := by
  refine ⟨admits_of_ne (by rw [h]; decide) _, fun z _ => ?_⟩
  simp [cost_zero h, prox, h]

/-- The pull on the proximal point of half a square is its derivative. -/
theorem isSlope_prox_square (h : t.kind = .square) (v : ℝ) {rho : ℝ} (hrho : 0 < rho) :
    t.IsSlope (t.prox v rho) (rho * (v - t.prox v rho)) := by
  have hpos : 0 < t.scale + rho := add_pos t.scale_pos hrho
  have hpull : rho * (v - t.prox v rho) = t.scale * (t.prox v rho - t.offset) := by
    simp only [prox, h]
    field_simp
    ring
  rw [hpull]
  exact isSlope_tangent h _

/-- The pull on the proximal point of an absolute value: at the vertex whatever is left of the
    argument, elsewhere the slope of the side. -/
theorem isSlope_prox_abs (h : t.kind = .abs) (v : ℝ) {rho : ℝ} (hrho : 0 < rho) :
    t.IsSlope (t.prox v rho) (rho * (v - t.prox v rho)) := by
  have hprox : t.prox v rho =
      t.offset + Scalar.sign (v - t.offset) * max (|v - t.offset| - t.scale / rho) 0 := by
    simp only [prox, h, Scalar.abs_real, Scalar.sup_real]
  have hk : 0 < t.scale / rho := div_pos t.scale_pos hrho
  by_cases hv : |v - t.offset| ≤ t.scale / rho
  · -- Within the threshold: the vertex.
    rw [max_eq_right (sub_nonpos.2 hv), mul_zero, add_zero] at hprox
    rw [hprox]
    apply isSlope_vertex h
    rw [abs_mul, abs_of_pos hrho]
    rwa [le_div_iff₀' hrho] at hv
  · rw [not_le] at hv
    rw [max_eq_left (sub_nonneg.2 (le_of_lt hv))] at hprox
    rcases lt_or_ge (v - t.offset) 0 with hneg | hnonneg
    · rw [abs_of_neg hneg] at hv hprox
      rw [Scalar.sign, if_pos hneg] at hprox
      have hpull : rho * (v - t.prox v rho) = -t.scale := by
        rw [hprox]
        field_simp
        ring
      rw [hpull]
      exact isSlope_below h (by linarith)
    · rw [abs_of_nonneg hnonneg] at hv hprox
      rw [Scalar.sign, if_neg (not_lt.2 hnonneg), if_pos (lt_trans hk hv)] at hprox
      have hpull : rho * (v - t.prox v rho) = t.scale := by
        rw [hprox]
        field_simp
        ring
      rw [hpull]
      exact isSlope_above h (by linarith)

/-- The pull on the proximal point of a half-line pushes against its end. -/
theorem isSlope_prox_nonneg (h : t.kind = .nonneg) (v : ℝ) {rho : ℝ} (hrho : 0 < rho) :
    t.IsSlope (t.prox v rho) (rho * (v - t.prox v rho)) := by
  have hprox : t.prox v rho = max v t.offset := by
    simp only [prox, h, Scalar.sup_real]
  refine ⟨(admits_nonneg h).2 (hprox ▸ le_max_right _ _), fun z hz => ?_⟩
  rw [admits_nonneg h] at hz
  rw [cost_nonneg h, cost_nonneg h, zero_add, hprox, mul_assoc]
  apply mul_nonpos_of_nonneg_of_nonpos (le_of_lt hrho)
  rcases le_total v t.offset with hv | hv
  · rw [max_eq_right hv]
    exact mul_nonpos_of_nonpos_of_nonneg (sub_nonpos.2 hv) (sub_nonneg.2 hz)
  · rw [max_eq_left hv, sub_self, zero_mul]

/-- The pull on a proximal point is a slope of the term there. -/
theorem isSlope_prox (t : Term ℝ) (v : ℝ) {rho : ℝ} (hrho : 0 < rho) :
    t.IsSlope (t.prox v rho) (rho * (v - t.prox v rho)) := by
  cases h : t.kind with
  | zero => exact isSlope_prox_zero h v rho
  | square => exact isSlope_prox_square h v hrho
  | abs => exact isSlope_prox_abs h v hrho
  | nonneg => exact isSlope_prox_nonneg h v hrho

/-! ### Lists of terms -/

/-- No terms admit everything. -/
@[simp] theorem allAdmit_nil (x : List ℝ) : AllAdmit [] x := by
  simp [AllAdmit]

/-- A list of terms admits a vector entry by entry. -/
@[simp] theorem allAdmit_cons {ts : List (Term ℝ)} {a : ℝ} {x : List ℝ} :
    AllAdmit (t :: ts) (a :: x) ↔ t.Admits a ∧ AllAdmit ts x := by
  simp [AllAdmit]

/-- No terms cost nothing. -/
@[simp] theorem totalCost_nil (x : List ℝ) : totalCost [] x = 0 := by
  simp [totalCost]

/-- The cost is added entry by entry. -/
@[simp] theorem totalCost_cons {ts : List (Term ℝ)} {a : ℝ} {x : List ℝ} :
    totalCost (t :: ts) (a :: x) = t.cost a + totalCost ts x := by
  simp [totalCost]

/-- The plane with the slopes `p` through the value at `x` is nowhere above the sum of the terms. -/
structure IsSubgradient (ts : List (Term ℝ)) (x p : List ℝ) : Prop where
  /-- The value is finite. -/
  admits : AllAdmit ts x
  /-- No finite value is below the plane. -/
  le : ∀ z, z.length = x.length → AllAdmit ts z →
    totalCost ts x + Vec.dot p (Vec.sub z x) ≤ totalCost ts z

/-- No terms have no slopes. -/
theorem IsSubgradient.nil : IsSubgradient [] [] [] :=
  ⟨allAdmit_nil _, fun z _ _ => by simp [Vec.dot]⟩

/-- Slopes entry by entry form a subgradient. -/
theorem IsSubgradient.cons {ts : List (Term ℝ)} {a s : ℝ} {x p : List ℝ} (ht : t.IsSlope a s)
    (hts : IsSubgradient ts x p) : IsSubgradient (t :: ts) (a :: x) (s :: p) := by
  refine ⟨allAdmit_cons.2 ⟨ht.admits, hts.admits⟩, fun z hz hadm => ?_⟩
  obtain ⟨b, z, rfl⟩ := List.exists_cons_of_length_eq_add_one hz
  rw [allAdmit_cons] at hadm
  have hhead := ht.le b hadm.1
  have htail := hts.le z (Nat.succ.inj hz) hadm.2
  rw [totalCost_cons, totalCost_cons,
    show Vec.sub (b :: z) (a :: x) = (b - a) :: Vec.sub z x from rfl, Vec.dot_cons]
  linarith

/-- The pull on a vector of proximal points is a subgradient there. -/
theorem isSubgradient_proxAll {ts : List (Term ℝ)} {v : List ℝ} {rho : ℝ} (hrho : 0 < rho)
    (h : ts.length = v.length) :
    IsSubgradient ts (proxAll ts v rho) (Vec.scale rho (Vec.sub v (proxAll ts v rho))) := by
  rw [proxAll_of_length_eq rho h]
  induction ts generalizing v with
  | nil =>
    rw [List.length_nil, eq_comm, List.length_eq_zero_iff] at h
    subst h
    exact .nil
  | cons t ts ih =>
    obtain ⟨a, v, rfl⟩ := List.exists_cons_of_length_eq_add_one h.symm
    exact IsSubgradient.cons (t.isSlope_prox a hrho) (ih (Nat.succ.inj h))

end Term

end RegPath
