import Mathlib.Analysis.SpecialFunctions.Log.Basic
import RegPath.Scalar

namespace RegPath

/-!
# Exact arithmetic

The reading of every algorithm over the real numbers.  No operation rounds, every value is a finite
number, and the derived operations are the ones of mathematics.

* `Scalar.real` — the real numbers as scalars;
* `Scalar.abs_real`, `Scalar.sup_real`, `Scalar.half_real`, … — what the derived operations are;
* `Scalar.MulMono`, `Scalar.Ordered`, `Scalar.BoundsNumbers` — the laws of numbers that the
  comparison of two tolerances and the search for a smallest value need.
-/

/-- The real numbers: only the logarithm of a number that is not positive fails.  The largest value
    is the one of a double, since the algorithms use it as a number; arrays have no bound. -/
noncomputable instance Scalar.real : Scalar ℝ where
  toZero := Real.instZero
  toOne := Real.instOne
  toAdd := Real.instAdd
  toSub := Real.instSub
  toMul := Real.instMul
  toDiv := DivInvMonoid.toDiv
  toNeg := Real.instNeg
  toNatCast := Real.instNatCast
  toLE := Real.instLE
  toLT := Real.instLT
  decLe := Real.decidableLE
  decLt := Real.decidableLT
  sqrt := Real.sqrt
  exp? x := some (Real.exp x)
  log? x := if x ≤ 0 then none else some (Real.log x)
  largest := 2 ^ 1024 - 2 ^ 971
  one_pos := zero_lt_one

namespace Scalar

/-- The square root is the one of the real numbers. -/
@[simp] theorem sqrt_real (a : ℝ) : Scalar.sqrt a = Real.sqrt a := rfl

/-- The exponential never fails. -/
@[simp] theorem exp?_real (a : ℝ) : Scalar.exp? a = some (Real.exp a) := rfl

/-- The logarithm of a positive number. -/
theorem log?_of_pos {a : ℝ} (h : 0 < a) : Scalar.log? a = some (Real.log a) :=
  if_neg (not_le.2 h)

/-- Arrays of real numbers may be of any length. -/
theorem hasRoom_real (n : ℕ) : HasRoom ℝ n := fun _ h => nomatch h

/-- The absolute value. -/
@[simp] theorem abs_real (a : ℝ) : Scalar.abs a = |a| := by
  unfold Scalar.abs
  split
  · rename_i h
    rw [abs_of_nonpos h, zero_sub]
  · rename_i h
    rw [abs_of_pos (not_le.1 h)]

/-- The sign. -/
theorem sign_real (a : ℝ) : Scalar.sign a = (SignType.sign a : ℝ) := by
  rcases lt_trichotomy a 0 with h | rfl | h
  · rw [Scalar.sign, if_pos h, sign_neg h, SignType.coe_neg_one]
  · simp [Scalar.sign]
  · rw [Scalar.sign, if_neg (not_lt_of_gt h), if_pos h, sign_pos h, SignType.coe_one]

/-- The larger of two values: the third case of the definition does not occur. -/
@[simp] theorem sup_real (a b : ℝ) : Scalar.sup a b = max a b := by
  unfold Scalar.sup
  split
  · rename_i h
    rw [max_eq_right h]
  · rename_i h
    have hba : b ≤ a := le_of_lt (not_le.1 h)
    rw [if_pos hba, max_eq_left hba]

/-- The later value if it is larger, that is the larger value. -/
@[simp] theorem laterIfLarger_real (a b : ℝ) : Scalar.laterIfLarger a b = max a b := by
  unfold Scalar.laterIfLarger
  split
  · rename_i h
    rw [max_eq_right (le_of_lt h)]
  · rename_i h
    rw [max_eq_left (not_lt.1 h)]

/-- One half. -/
@[simp] theorem half_real : (Scalar.half : ℝ) = 1 / 2 := by
  unfold Scalar.half
  norm_num

/-- One half is a proper fraction. -/
theorem half_mem : 0 < (Scalar.half : ℝ) ∧ (Scalar.half : ℝ) < 1 := by
  rw [half_real]
  norm_num

/-- One is a factor. -/
theorem one_factor : (0 : ℝ) < 1 := one_pos

/-- Zero is a tolerance. -/
theorem zero_tolerance : ¬ (0 : ℝ) < 0 := lt_irrefl 0

/-- Every value is a number. -/
theorem isNumber_real (a : ℝ) : Scalar.IsNumber a := le_refl a

/-- Every value is finite. -/
theorem isFinite_real (a : ℝ) : Scalar.IsFinite a := isNumber_real _

/-- There is one zero. -/
@[simp] theorem isZero_real (a : ℝ) : Scalar.IsZero a ↔ a = 0 :=
  ⟨fun h => le_antisymm h.1 h.2, fun h => ⟨le_of_eq h, le_of_eq h.symm⟩⟩

/-- The largest value of a double is more than one. -/
theorem one_lt_largest : (1 : ℝ) < Scalar.largest := by
  have hpow : (2 : ℝ) ^ 1024 = 2 ^ 53 * 2 ^ 971 := by rw [← pow_add]
  have hone : (1 : ℝ) ≤ 2 ^ 971 := one_le_pow₀ one_le_two
  show (1 : ℝ) < 2 ^ 1024 - 2 ^ 971
  rw [hpow]
  generalize (2 : ℝ) ^ 971 = y at hone ⊢
  linarith

/-- Products with a positive number keep upper bounds when the other factor grows.  Rounding to the
    nearest does not change this. -/
def MulMono (α : Type) [Scalar α] : Prop :=
  ∀ t t' v d : α, ¬ t < 0 → t ≤ t' → 0 < v → d ≤ t * v → d ≤ t' * v

/-- In exact arithmetic they do. -/
theorem mulMono_real : MulMono ℝ :=
  fun _ _ _ _ _ ht hv hd => le_trans hd (mul_le_mul_of_nonneg_right ht (le_of_lt hv))

/-- The order is transitive, and two numbers can be compared.  Both hold of doubles as well. -/
structure Ordered (α : Type) [Scalar α] : Prop where
  /-- The order is transitive. -/
  trans : ∀ a b c : α, a ≤ b → b ≤ c → a ≤ c
  /-- Two numbers can be compared. -/
  total : ∀ a b : α, IsNumber a → IsNumber b → a ≤ b ∨ b ≤ a

/-- The order of the real numbers is of this kind. -/
theorem ordered_real : Ordered ℝ := ⟨fun _ _ _ => le_trans, fun a b _ _ => le_total a b⟩

/-- What is not a number is larger than nothing.  This holds of doubles as well. -/
def BoundsNumbers (α : Type) [Scalar α] : Prop := ∀ a b : α, a ≤ b → IsNumber b

end Scalar

end RegPath
