import RegPath.Matrix.Rows
import RegPath.Term

namespace RegPath

/-!
# Objectives

What the engines minimise: the sum of the row terms at `A x` and of the column terms at `x`,
infinite where a half-line fails.

* `Term.AllAdmit`, `Term.totalCost` — a list of terms at a vector;
* `GraphForm` — a problem in graph form, with `GraphForm.value?`;
* `GraphForm.IsMinimiser` — what a solution is;
* `GraphForm.lasso` — the problem `(1/2) |A x - b|² + λ |x|₁`.
-/

variable {α : Type} [Scalar α]

namespace Term

/-- Whether no term is infinite at its entry of a vector. -/
def AllAdmit (ts : List (Term α)) (v : List α) : Prop := ∀ p ∈ List.zip ts v, p.1.Admits p.2

instance (ts : List (Term α)) (v : List α) : Decidable (AllAdmit ts v) :=
  inferInstanceAs (Decidable (∀ p ∈ List.zip ts v, p.1.Admits p.2))

/-- The sum of the values of terms that are not infinite. -/
def totalCost (ts : List (Term α)) (v : List α) : α := (List.zipWith cost ts v).sum

end Term

/-- A matrix with a term for each row and each column. -/
structure GraphForm (α : Type) [Scalar α] where
  /-- The matrix. -/
  matrix : RowMatrix α
  /-- The terms of the rows. -/
  rowTerms : List (Term α)
  /-- The terms of the columns. -/
  colTerms : List (Term α)

namespace GraphForm

/-- Whether no term is infinite at a point. -/
def Admits (P : GraphForm α) (x : List α) : Prop :=
  Term.AllAdmit P.rowTerms (P.matrix.mulVec x) ∧ Term.AllAdmit P.colTerms x

instance (P : GraphForm α) (x : List α) : Decidable (P.Admits x) :=
  inferInstanceAs (Decidable (_ ∧ _))

/-- The sum of all terms at a point that they admit. -/
def cost (P : GraphForm α) (x : List α) : α :=
  Term.totalCost P.rowTerms (P.matrix.mulVec x) + Term.totalCost P.colTerms x

/-- The objective, `none` where it is infinite. -/
def value? (P : GraphForm α) (x : List α) : Option α :=
  if P.Admits x then some (P.cost x) else none

/-- A point of finite value below which no other point is. -/
structure IsMinimiser (P : GraphForm α) (x : List α) : Prop where
  /-- One entry for each column. -/
  length : x.length = P.matrix.cols
  /-- The value is finite. -/
  admits : P.Admits x
  /-- No point of finite value is better. -/
  le : ∀ z : List α, z.length = P.matrix.cols → P.Admits z → P.cost x ≤ P.cost z

/-- The lasso with penalty `lam`. -/
def lasso (A : RowMatrix α) (b : List α) (lam : α) (h : 0 < lam) : GraphForm α where
  matrix := A
  rowTerms := Term.squaresAt b
  colTerms := (Term.penalties A.cols).map fun t => t.withScale lam h

end GraphForm

end RegPath
