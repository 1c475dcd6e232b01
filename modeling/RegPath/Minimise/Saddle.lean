import RegPath.Elimination
import RegPath.Minimise.Program

namespace RegPath.Minimise

/-!
# Saddle point systems

The linear equations that every step of an interior point method solves: for a program with
curvature `P` and coefficients `A`, and for non-negative weights `h` of its constraints,

    P x + Aᵀ z = r,    A x - h z = t.

The matrix may be singular.  A slightly shifted one is eliminated, and the solution is then improved
by what the equations themselves leave over.

* `Program.saddle` — the rows of the matrix;
* `Program.saddleSolver?` — the solver, `none` where elimination gets stuck.
-/

variable {α : Type} [Scalar α]

/-- The shift of the diagonal, away from zero on both blocks. -/
def diagonalShift : α := Scalar.ratio 1 (Nat.pow 10 8)

/-- The rows of a diagonal matrix. -/
def diagonal (ds : List α) : List (List α) :=
  ds.zipIdx.map fun d => (List.range ds.length).map fun i => if i = d.2 then d.1 else 0

namespace Program

/-- The rows of the saddle point matrix with a shifted diagonal. -/
def saddle (p : Program α) (h : List α) (shift : α) : List (List α) :=
  let columns := p.rows.foldr (List.zipWith (· :: ·)) (List.replicate p.unknowns [])
  List.zipWith (· ++ ·) (diagonal (p.curvature.map (· + shift))) columns ++
    List.zipWith (· ++ ·) p.rows (diagonal (h.map fun a => -(a + shift)))

end Program

/-- Improves an approximate solution with error `e`, up to a number of times, as long as that
    reduces the error to less than a fifth; `none` if the error is not finite. -/
def improve (matrix : List (List α)) (solve : List α → List α) (rhs : List α) (tolerance : α) :
    Nat → List α → List α → Option (List α)
  | 0, x, _ => some x
  | k + 1, x, e =>
    if Vec.normInf e ≤ tolerance then some x
    else
      let y := Vec.add x (solve e)
      let e' := Vec.sub rhs (matrix.map fun r => Vec.dot r y)
      if ¬ Scalar.IsFinite (Vec.normInf e') then none
      else if Vec.normInf e < ((5 : Nat) : α) * Vec.normInf e' then
        some (if Vec.normInf e' < Vec.normInf e then y else x)
      else improve matrix solve rhs tolerance k y e'

/-- The solution of a system of which a neighbour has been factored. -/
def solveNear (matrix : List (List α)) (solve : List α → List α) (rhs : List α) :
    Option (List α) :=
  let x := solve rhs
  let e := Vec.sub rhs (matrix.map fun r => Vec.dot r x)
  if ¬ Scalar.IsFinite (Vec.normInf e) then none
  else improve matrix solve rhs
    (Scalar.ratio 1 (Nat.pow 10 12) + Scalar.ratio 1 (Nat.pow 10 13) * Vec.normInf rhs) 10 x e

/-- The solver for right-hand sides in two parts. -/
def Program.saddleSolver? (p : Program α) (h : List α) :
    Option (List α → List α → Option (List α × List α)) :=
  (Factor.ofRows? (p.unknowns + p.rows.length) (p.saddle h diagonalShift)).map fun f r t =>
    (solveNear (p.saddle h 0) f.solve (r ++ t)).map (List.splitAt p.unknowns)

end RegPath.Minimise
