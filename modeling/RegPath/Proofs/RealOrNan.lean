import RegPath.Proofs.Exact
import RegPath.Vec

namespace RegPath

/-!
# Exact arithmetic with a value that is not a number

The real numbers and one more value, which every operation hands on and which compares false with
everything.  A quotient by zero is this value.  So it passes through sums and means as it does for
doubles, and nothing else differs from exact arithmetic.

* `RealOrNan`, `Scalar.realOrNan` — these values as scalars;
* `RealOrNan.isNumber_iff` — which of them are numbers;
* `RealOrNan.ordered`, `RealOrNan.boundsNumbers` — the laws of their order;
* `RealOrNan.mean_of_not_number` — a mean is not a number if one of its values is none.
-/

/-- A real number, or what is not a number. -/
inductive RealOrNan where
  /-- A real number. -/
  | real (a : ℝ)
  /-- Not a number. -/
  | nan

namespace RealOrNan

/-- An operation on two values; what is not a number is handed on. -/
def lift (op : ℝ → ℝ → RealOrNan) : RealOrNan → RealOrNan → RealOrNan
  | real a, real b => op a b
  | _, _ => nan

/-- A comparison of two values, false unless both are numbers. -/
def Compare (r : ℝ → ℝ → Prop) : RealOrNan → RealOrNan → Prop
  | real a, real b => r a b
  | _, _ => False

end RealOrNan

/-- The values as scalars.  As for doubles, the exponential and the logarithm of what is not a
    number do not fail. -/
noncomputable instance Scalar.realOrNan : Scalar RealOrNan where
  zero := .real 0
  one := .real 1
  add := RealOrNan.lift fun a b => .real (a + b)
  sub := RealOrNan.lift fun a b => .real (a - b)
  mul := RealOrNan.lift fun a b => .real (a * b)
  div := RealOrNan.lift fun a b => if b = 0 then .nan else .real (a / b)
  neg
    | .real a => .real (-a)
    | .nan => .nan
  natCast n := .real n
  le := RealOrNan.Compare fun a b => a ≤ b
  lt := RealOrNan.Compare fun a b => a < b
  decLe _ _ := Classical.propDecidable _
  decLt _ _ := Classical.propDecidable _
  sqrt
    | .real a => if a < 0 then .nan else .real (Scalar.sqrt a)
    | .nan => .nan
  exp?
    | .real a => (Scalar.exp? a).map .real
    | .nan => some .nan
  log?
    | .real a => (Scalar.log? a).map .real
    | .nan => some .nan
  largest := .real Scalar.largest
  one_pos := Scalar.one_factor

namespace RealOrNan

/-- Arrays of values may be of any length. -/
theorem hasRoom (n : ℕ) : Scalar.HasRoom RealOrNan n := fun _ h => nomatch h

/-! ### Real numbers among the values -/

/-- Zero is a real number. -/
theorem zero_eq : (0 : RealOrNan) = real 0 := rfl

/-- So is one. -/
theorem one_eq : (1 : RealOrNan) = real 1 := rfl

/-- So are the natural numbers. -/
theorem natCast_eq (n : ℕ) : (n : RealOrNan) = real n := rfl

/-- Real numbers are added as such. -/
theorem real_add (a b : ℝ) : real a + real b = real (a + b) := rfl

/-- They are multiplied as such. -/
theorem real_mul (a b : ℝ) : real a * real b = real (a * b) := rfl

/-- They are divided as such unless by zero. -/
theorem real_div (a : ℝ) {b : ℝ} (hb : b ≠ 0) : real a / real b = real (a / b) := if_neg hb

/-- They are compared as such. -/
theorem real_le_real (a b : ℝ) : real a ≤ real b ↔ a ≤ b := Iff.rfl

/-- So they are strictly. -/
theorem real_lt_real (a b : ℝ) : real a < real b ↔ a < b := Iff.rfl

/-- One half is a real number. -/
theorem half_eq : (Scalar.half : RealOrNan) = real Scalar.half := by
  show real 1 / (real 1 + real 1) = _
  rw [real_add, real_div 1 (by norm_num)]
  rfl

/-- The exponential of a real number. -/
theorem exp?_real (a : ℝ) : Scalar.exp? (real a) = some (real (Real.exp a)) := rfl

/-- The logarithm of a positive real number. -/
theorem log?_real {a : ℝ} (h : 0 < a) : Scalar.log? (real a) = some (real (Real.log a)) := by
  show (Scalar.log? a).map real = _
  rw [Scalar.log?_of_pos h, Option.map_some]

/-! ### Numbers -/

/-- Every real number is a number. -/
theorem isNumber_real (a : ℝ) : Scalar.IsNumber (real a) := le_refl a

/-- The other value is none. -/
theorem not_isNumber_nan : ¬ Scalar.IsNumber nan := fun h => h

/-- The numbers are the real ones. -/
theorem isNumber_iff {v : RealOrNan} : Scalar.IsNumber v ↔ ∃ a, v = real a := by
  cases v with
  | real a => exact iff_of_true (isNumber_real a) ⟨a, rfl⟩
  | nan => exact iff_of_false not_isNumber_nan (by simp)

/-- A sum with what is not a number is none. -/
theorem nan_add (v : RealOrNan) : nan + v = nan := rfl

/-- So it is from the other side. -/
theorem add_nan (v : RealOrNan) : v + nan = nan := by cases v <;> rfl

/-- A quotient of what is not a number is none. -/
theorem nan_div (v : RealOrNan) : nan / v = nan := rfl

/-- What is smaller than anything is a number. -/
theorem isNumber_of_le : ∀ {u v : RealOrNan}, u ≤ v → Scalar.IsNumber u
  | real a, real _, _ => isNumber_real a

/-- So is what is larger than anything. -/
theorem boundsNumbers : Scalar.BoundsNumbers RealOrNan
  | real _, real b, _ => isNumber_real b

/-- The order is transitive, and real numbers can be compared. -/
theorem ordered : Scalar.Ordered RealOrNan where
  trans := by
    intro u v w huv hvw
    obtain ⟨a, rfl⟩ := isNumber_iff.1 (isNumber_of_le huv)
    obtain ⟨b, rfl⟩ := isNumber_iff.1 (isNumber_of_le hvw)
    obtain ⟨c, rfl⟩ := isNumber_iff.1 (boundsNumbers _ _ hvw)
    exact le_trans ((real_le_real a b).1 huv) ((real_le_real b c).1 hvw)
  total := by
    intro u v hu hv
    obtain ⟨a, rfl⟩ := isNumber_iff.1 hu
    obtain ⟨b, rfl⟩ := isNumber_iff.1 hv
    exact le_total a b

/-! ### Means -/

/-- A sum of numbers is one. -/
theorem isNumber_sum {l : List RealOrNan} (h : ∀ v ∈ l, Scalar.IsNumber v) :
    Scalar.IsNumber l.sum := by
  induction l with
  | nil => exact isNumber_real 0
  | cons v l ih =>
    obtain ⟨a, rfl⟩ := isNumber_iff.1 (h v List.mem_cons_self)
    obtain ⟨c, hc⟩ := isNumber_iff.1 (ih fun u hu => h u (List.mem_cons_of_mem _ hu))
    rw [List.sum_cons, hc]
    exact isNumber_real (a + c)

/-- A sum is none if one of its values is none. -/
theorem sum_of_not_number {l : List RealOrNan} (h : nan ∈ l) : l.sum = nan := by
  induction l with
  | nil => cases h
  | cons v l ih =>
    rw [List.sum_cons]
    rcases List.mem_cons.1 h with rfl | h
    · exact nan_add _
    · rw [ih h, add_nan]

/-- A mean of numbers is one, if there are any. -/
theorem isNumber_mean {l : List RealOrNan} (hl : l ≠ []) (h : ∀ v ∈ l, Scalar.IsNumber v) :
    Scalar.IsNumber (Vec.mean l) := by
  obtain ⟨a, ha⟩ := isNumber_iff.1 (isNumber_sum h)
  have hlen : (l.length : ℝ) ≠ 0 := Nat.cast_ne_zero.2 (List.length_pos_iff.2 hl).ne'
  rw [Vec.mean, ha, natCast_eq, real_div a hlen]
  exact isNumber_real _

/-- A mean is not a number if one of its values is none. -/
theorem mean_of_not_number {l : List RealOrNan} (h : nan ∈ l) : Vec.mean l = nan := by
  rw [Vec.mean, sum_of_not_number h, nan_div]

end RealOrNan

end RegPath
