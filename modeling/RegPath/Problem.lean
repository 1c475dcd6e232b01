import RegPath.Engine

namespace RegPath

/-!
# Problems

A matrix with observations, terms, and the vectors from which the next solve starts.

* `Problem`, `Problem.make` — the problem and the checks that it is made with;
* `Problem.WellFormed` — every vector and list of terms has the length of its side;
* `lambdaMax` — the smallest penalty for which zero solves the lasso.
-/

/-- A problem with its present `x` and `y`. -/
structure Problem (α : Type) [Scalar α] where
  /-- The matrix. -/
  design : Design α
  /-- The observations. -/
  observations : List α
  /-- The terms of the rows. -/
  rowTerms : List (Term α)
  /-- The terms of the columns. -/
  colTerms : List (Term α)
  /-- Where the columns start. -/
  x : List α
  /-- Where the rows start. -/
  y : List α

namespace Problem

variable {α : Type} [Scalar α]

/-- Number of rows. -/
def height (p : Problem α) : Nat := p.design.matrix.height

/-- Number of columns. -/
def width (p : Problem α) : Nat := p.design.matrix.cols

/-- A problem from its parts.  Missing terms are those of the lasso, missing starts are zero; the
    observations are judged first, then the terms, then the starts. -/
def make (design : Design α) (observations : List α) (rowTerms colTerms : Option (List (Term α)))
    (x y : Option (List α)) : Except (Fault α) (Problem α) :=
  let m := design.matrix.height
  let n := design.matrix.cols
  let rowTerms := rowTerms.getD (Term.squaresAt observations)
  let colTerms := colTerms.getD (Term.penalties n)
  let x := x.getD (Vec.zeros n)
  let y := y.getD (Vec.zeros m)
  if observations.length ≠ m then .error (.observationCount observations.length m)
  else if rowTerms.length ≠ m then .error (.rowTermCount rowTerms.length m)
  else if colTerms.length ≠ n then .error (.columnTermCount colTerms.length n)
  else if x.length ≠ n ∨ y.length ≠ m then .error (.startLengths n m)
  else .ok { design, observations, rowTerms, colTerms, x, y }

/-- The lasso on a matrix and observations. -/
def lasso (design : Design α) (observations : List α) : Except (Fault α) (Problem α) :=
  make design observations none none none none

/-- Forgets the present vectors. -/
def reset (p : Problem α) : Problem α := { p with x := Vec.zeros p.width, y := Vec.zeros p.height }

/-- Gives every column term the scale `lam`. -/
def withPenalty? (p : Problem α) (lam : α) : Except (Fault α) (Problem α) :=
  (Term.withPenalty? p.colTerms lam).map fun colTerms => { p with colTerms }

/-- What an engine is asked. -/
def request (p : Problem α) : Request α :=
  { design := p.design, rowTerms := p.rowTerms, colTerms := p.colTerms, x := p.x, y := p.y }

/-- Every vector and list of terms has the length of its side. -/
structure WellFormed (p : Problem α) : Prop where
  /-- One observation for each row. -/
  observations : p.observations.length = p.height
  /-- One term for each row. -/
  rowTerms : p.rowTerms.length = p.height
  /-- One term for each column. -/
  colTerms : p.colTerms.length = p.width
  /-- One entry of `x` for each column. -/
  x : p.x.length = p.width
  /-- One entry of `y` for each row. -/
  y : p.y.length = p.height

/-- What passes the checks is well formed. -/
theorem wellFormed_of_make {design : Design α} {observations : List α}
    {rowTerms colTerms : Option (List (Term α))} {x y : Option (List α)} {p : Problem α}
    (h : make design observations rowTerms colTerms x y = .ok p) : p.WellFormed := by
  unfold make at h
  simp only at h
  split at h
  · exact absurd h (by simp)
  · split at h
    · exact absurd h (by simp)
    · split at h
      · exact absurd h (by simp)
      · split at h
        · exact absurd h (by simp)
        · rename_i h1 h2 h3 h4
          simp only [ne_eq, not_or, Decidable.not_not] at h1 h2 h3 h4
          obtain rfl := Except.ok.inj h
          exact ⟨h1, h2, h3, h4.1, h4.2⟩

end Problem

/-- The largest entry of `|Aᵀ b|`, zero if nothing is stored.  Zero minimises
    `(1/2) |A x - b|² + λ |x|₁` exactly for the `λ` from here on. -/
def lambdaMax {α : Type} [Scalar α] (A : RowMatrix α) (b : List α) : Except (Fault α) α :=
  if b.length ≠ A.height then .error (.observationCount b.length A.height)
  -- Without stored entries no column has to be visited, and no product is made.
  else if A.stored = 0 then .ok 0
  else if ¬ Scalar.HasRoom α A.cols then .error .malformedArray
  else .ok (Vec.normInf (A.transpose.mulVec b))

end RegPath
