import RegPath.Fault
import RegPath.Vec

namespace RegPath

/-!
# Terms

The separable terms of a problem in graph form: one for each row and one for each column.  A term
is a shape applied to a shifted argument and multiplied by a positive scale.

* `Kind` — the four shapes: nothing, half a square, an absolute value, a half-line;
* `Term` — a shape with its scale and offset;
* `Term.Admits`, `Term.cost`, `Term.value?` — the value, infinite where the half-line fails;
* `Term.prox` — the point that minimises the term plus a quadratic pull towards a given point;
* `Term.values?`, `Term.proxAll?` — the same for a list of terms and a vector, with `Term.Serves`
  and `Term.proxGiven?`;
* `Term.withPenalty?` — one new scale for all terms.
-/

/-- The shape of a term. -/
inductive Kind where
  /-- Nothing: `0`. -/
  | zero
  /-- Half a square: `u² / 2`. -/
  | square
  /-- The absolute value: `|u|`. -/
  | abs
  /-- The half-line: `0` for `u ≥ 0`, infinite elsewhere. -/
  | nonneg
  deriving DecidableEq, Repr

namespace Kind

/-- All shapes, in the order of their codes. -/
def all : List Kind := [zero, square, abs, nonneg]

/-- The number of a shape in tables. -/
def code : Kind → Nat
  | zero => 0
  | square => 1
  | abs => 2
  | nonneg => 3

/-- The word for a shape. -/
def name : Kind → String
  | zero => "zero"
  | square => "square"
  | abs => "abs"
  | nonneg => "ind_ge0"

/-- The shape that a word stands for. -/
def ofName? (s : String) : Option Kind := all.find? fun k => k.name = s

/-- Whether a shape changes with its scale. -/
def scaled : Kind → Bool
  | zero | nonneg => false
  | square | abs => true

/-- Every shape is found by its name. -/
theorem ofName?_name (k : Kind) : ofName? k.name = some k := by
  cases k <;> decide

end Kind

/-- A term `scale · h (v - offset)` with a positive scale. -/
structure Term (α : Type) [Scalar α] where
  /-- The shape `h`. -/
  kind : Kind
  /-- The factor. -/
  scale : α
  /-- Where the argument counts from. -/
  offset : α
  /-- The factor is positive. -/
  scale_pos : 0 < scale

namespace Term

variable {α : Type} [Scalar α]

/-- A term of the given shape, if the scale is positive. -/
def make (kind : Kind) (scale offset : α) : Except (Fault α) (Term α) :=
  if h : 0 < scale then .ok ⟨kind, scale, offset, h⟩ else .error (.scaleNotPositive scale)

/-- A term whose shape is given by its name; the name is judged before the scale.  A missing name
    or scale is refused. -/
def ofName (name : Option String) (scale : Option α) (offset : α) : Except (Fault α) (Term α) :=
  match name.bind Kind.ofName? with
  | none => .error (.unknownKind name)
  | some kind => match scale with
    | none => .error .absent
    | some scale => make kind scale offset

/-! ### Value -/

/-- Whether the value of the term at `v` is not infinite by its shape. -/
def Admits (t : Term α) (v : α) : Prop := t.kind = .nonneg → 0 ≤ v - t.offset

instance (t : Term α) (v : α) : Decidable (t.Admits v) :=
  inferInstanceAs (Decidable (_ → _))

/-- The value of the term at a point that it admits. -/
def cost (t : Term α) (v : α) : α :=
  let u := v - t.offset
  match t.kind with
  | .zero => 0
  | .square => Scalar.half * t.scale * (u * u)
  | .abs => t.scale * Scalar.abs u
  | .nonneg => 0

/-- The value of the term, `none` where it is infinite. -/
def value? (t : Term α) (v : α) : Option α := if t.Admits v then some (t.cost v) else none

/-- The value is the cost exactly at the points that the term admits. -/
theorem value?_eq_some_iff (t : Term α) (v c : α) :
    t.value? v = some c ↔ t.Admits v ∧ t.cost v = c := by
  unfold value?
  split
  · rename_i h
    simp [h]
  · rename_i h
    simp [h]

/-- The values of a list of terms at the entries of a vector.  A single entry serves all terms;
    a single term does not serve several entries. -/
def values? (ts : List (Term α)) (v : List α) : Except (Fault α) (List (Option α)) :=
  match v with
  | [a] => .ok (ts.map fun t => t.value? a)
  | v =>
    if ts.length = v.length then .ok (List.zipWith value? ts v)
    else if ts.length = 1 then .error .termCount
    else .error .lengths

/-! ### Proximal point -/

/-- The minimiser over `u` of the term at `u` plus `(rho / 2) (u - v)²`. -/
def prox (t : Term α) (v rho : α) : α :=
  match t.kind with
  | .zero => v
  -- The weighted mean of the two centres.
  | .square => (t.scale * t.offset + rho * v) / (t.scale + rho)
  | .abs =>
    -- The soft threshold around the offset.
    let u := v - t.offset
    t.offset + Scalar.sign u * Scalar.sup (Scalar.abs u - t.scale / rho) 0
  | .nonneg => Scalar.sup v t.offset

/-- Whether a list of terms can serve a vector of `n` entries: there is a term for each entry, or
    no term at all. -/
def Serves (ts : List (Term α)) (n : Nat) : Prop := ts.length = 0 ∨ ts.length = n

instance (ts : List (Term α)) (n : Nat) : Decidable (Serves ts n) :=
  inferInstanceAs (Decidable (_ ∨ _))

/-- Proximal points entry by entry.  Without terms nothing pulls, and the vector stays. -/
def proxAll (ts : List (Term α)) (v : List α) (rho : α) : List α :=
  if ts.length = 0 then v else List.zipWith (fun t a => t.prox a rho) ts v

/-- Proximal points of a vector that the terms can serve. -/
def proxAll? (ts : List (Term α)) (v : List α) (rho : α) : Except (Fault α) (List α) :=
  if Serves ts v.length then .ok (proxAll ts v rho) else .error .termCount

/-- Proximal points where the strength of the pull may be left out: only terms that change with
    their scale depend on it. -/
def proxGiven? (ts : List (Term α)) (v : List α) (rho : Option α) : Except (Fault α) (List α) :=
  match rho with
  | some rho => proxAll? ts v rho
  | none => match proxAll? ts v 1 with
    | .error f => .error f
    | .ok x => if ts.any fun t => t.kind.scaled then .error .absent else .ok x

/-- One term for each entry: they are paired. -/
theorem proxAll_of_length_eq {ts : List (Term α)} {v : List α} (rho : α)
    (h : ts.length = v.length) :
    proxAll ts v rho = List.zipWith (fun t a => t.prox a rho) ts v := by
  rw [proxAll]
  split
  · rename_i h0
    rw [List.eq_nil_of_length_eq_zero h0, List.zipWith_nil_left]
    exact List.eq_nil_of_length_eq_zero (h ▸ h0)
  · rfl

/-- There are as many proximal points as entries. -/
theorem length_proxAll {ts : List (Term α)} {v : List α} (rho : α) (h : Serves ts v.length) :
    (proxAll ts v rho).length = v.length := by
  rw [proxAll]
  split
  · rfl
  · rename_i h0
    rw [List.length_zipWith, h.resolve_left h0, Nat.min_self]

/-! ### Scales -/

/-- The term with another scale. -/
def withScale (t : Term α) (scale : α) (h : 0 < scale) : Term α := ⟨t.kind, scale, t.offset, h⟩

/-- Gives every term the same positive scale. -/
def withPenalty? (ts : List (Term α)) (lam : α) : Except (Fault α) (List (Term α)) :=
  if h : 0 < lam then .ok (ts.map fun t => t.withScale lam h) else .error (.penaltyNotPositive lam)

/-- A new scale leaves the shape. -/
@[simp] theorem kind_withScale (t : Term α) (scale : α) (h : 0 < scale) :
    (t.withScale scale h).kind = t.kind := rfl

/-- A new scale is the scale. -/
@[simp] theorem scale_withScale (t : Term α) (scale : α) (h : 0 < scale) :
    (t.withScale scale h).scale = scale := rfl

/-- A new scale leaves the offset. -/
@[simp] theorem offset_withScale (t : Term α) (scale : α) (h : 0 < scale) :
    (t.withScale scale h).offset = t.offset := rfl

/-- A positive penalty becomes the scale of every term. -/
theorem withPenalty?_of_pos (ts : List (Term α)) {lam : α} (h : 0 < lam) :
    withPenalty? ts lam = .ok (ts.map fun t => t.withScale lam h) := by
  rw [withPenalty?, dif_pos h]

/-- Any other penalty is refused. -/
theorem withPenalty?_of_not_pos (ts : List (Term α)) {lam : α} (h : ¬ 0 < lam) :
    withPenalty? ts lam = .error (.penaltyNotPositive lam) := by
  rw [withPenalty?, dif_neg h]

/-! ### The terms of a lasso -/

/-- A term of scale one. -/
def unit (kind : Kind) (offset : α) : Term α := ⟨kind, 1, offset, Scalar.one_pos⟩

/-- The row losses `(1/2) (yᵢ - bᵢ)²`. -/
def squaresAt (b : List α) : List (Term α) := b.map (unit .square)

/-- The column penalties `|xⱼ|`. -/
def penalties (n : Nat) : List (Term α) := List.replicate n (unit .abs 0)

/-- One loss for each observation. -/
@[simp] theorem length_squaresAt (b : List α) : (squaresAt b).length = b.length := by
  simp [squaresAt]

/-- One penalty for each column. -/
@[simp] theorem length_penalties (n : Nat) : (penalties n : List (Term α)).length = n := by
  simp [penalties]

end Term

end RegPath
