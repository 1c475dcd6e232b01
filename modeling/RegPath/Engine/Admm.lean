import RegPath.Elimination
import RegPath.Engine

namespace RegPath

/-!
# Graph-form splitting

The alternating direction method of multipliers for problems in graph form.  Each iteration takes
proximal points of the terms, projects onto the graph `y = A x`, and adds what is left to a pair
of scaled dual vectors; it stops when the two residuals are small.

* `Admm.Settings` — penalty parameter, tolerances and iteration cap;
* `Admm.Kernel.project` — the projection, by one solve with `I + Aᵀ A`;
* `Admm.Iterate.next`, `Admm.Settings.verdict?` — one iteration and its stopping test;
* `Admm.run` — the iteration up to its end;
* `Admm.engine` — the engine, which factors a matrix once and keeps the factor while the matrix
  object stays the same.
-/

namespace Admm

variable {α : Type} [Scalar α]

/-! ### Settings -/

/-- Accepted settings. -/
structure Settings (α : Type) [Scalar α] where
  /-- Penalty parameter. -/
  rho : α
  /-- Absolute tolerance on the residuals. -/
  absTol : α
  /-- Relative tolerance on the residuals. -/
  relTol : α
  /-- Iteration cap. -/
  maxIter : Nat
  /-- The penalty parameter is not zero or below. -/
  rho_pos : ¬ rho ≤ 0
  /-- The absolute tolerance is not negative. -/
  absTol_nonneg : ¬ absTol < 0
  /-- The relative tolerance is not negative. -/
  relTol_nonneg : ¬ relTol < 0
  /-- At least one iteration is allowed. -/
  maxIter_pos : 0 < maxIter

/-- Settings as they are asked for, with their defaults. -/
structure Parameters (α : Type) [Scalar α] where
  /-- Penalty parameter. -/
  rho : Option α := some 1
  /-- Absolute tolerance. -/
  absTol : Option α := some (Scalar.ratio 1 10000)
  /-- Relative tolerance. -/
  relTol : Option α := some (Scalar.ratio 1 1000)
  /-- Iteration cap. -/
  maxIter : Option Int := some 2500

/-- Accepts settings or names the first that is missing or out of range. -/
def Parameters.accept (p : Parameters α) : Except (Fault α) (Settings α) := do
  let rho ← Fault.required p.rho
  if hr : rho ≤ 0 then .error (.penaltyParameter rho) else
  let absTol ← Fault.required p.absTol
  if ha : absTol < 0 then .error .engineTolerances else
  let relTol ← Fault.required p.relTol
  if ht : relTol < 0 then .error .engineTolerances else
  let maxIter ← Fault.required p.maxIter
  if hi : maxIter < 1 then .error (.iterationLimit maxIter) else
  return {
    rho, absTol, relTol
    maxIter := maxIter.toNat
    rho_pos := hr
    absTol_nonneg := ha
    relTol_nonneg := ht
    maxIter_pos := Fault.toNat_pos hi }

/-! ### Projection -/

/-- A matrix with its transpose and a solver for `I + Aᵀ A`. -/
structure Kernel (α : Type) where
  /-- The matrix. -/
  matrix : RowMatrix α
  /-- Its transpose. -/
  transpose : RowMatrix α
  /-- Solves with `I + Aᵀ A`. -/
  solve : List α → List α

/-- Entrywise sum in which a single second entry serves all first ones. -/
def addStretched (c t : List α) : List α :=
  match t with
  | [a] => c.map (· + a)
  | t => Vec.add c t

/-- The point of the graph `y = A x` that is nearest to `(c, d)`. -/
def Kernel.project (k : Kernel α) (c d : List α) : List α × List α :=
  let x := k.solve (addStretched c (k.transpose.mulVec d))
  (x, k.matrix.mulVec x)

/-- Whether the transpose can serve the matrix. -/
def Kernel.Fits (k : Kernel α) : Prop :=
  k.transpose.cols = k.matrix.height ∧
    (k.transpose.height = k.matrix.cols ∨ k.transpose.height = 1)

instance (k : Kernel α) : Decidable k.Fits := inferInstanceAs (Decidable (_ ∧ _))

/-! ### Iteration -/

/-- The vectors of the iteration after a number of rounds. -/
structure Iterate (α : Type) where
  /-- Projected columns. -/
  x : List α
  /-- Projected rows. -/
  y : List α
  /-- Scaled dual of the columns. -/
  xDual : List α
  /-- Scaled dual of the rows. -/
  yDual : List α
  /-- Proximal columns. -/
  xHalf : List α
  /-- Proximal rows. -/
  yHalf : List α
  /-- Projected columns of the round before. -/
  xPrev : List α
  /-- Projected rows of the round before. -/
  yPrev : List α

/-- Before the first round: the guess, with zero duals. -/
def Iterate.start (x y : List α) : Iterate α where
  x := x
  y := y
  xDual := Vec.zeros x.length
  yDual := Vec.zeros y.length
  xHalf := x
  yHalf := y
  xPrev := x
  yPrev := y

/-- One round: proximal points, projection, duals. -/
def Iterate.next (rho : α) (k : Kernel α) (rowTerms colTerms : List (Term α)) (s : Iterate α) :
    Iterate α :=
  -- Proximal points of the projected pair less its duals.
  let xHalf := Term.proxAll colTerms (Vec.sub s.x s.xDual) rho
  let yHalf := Term.proxAll rowTerms (Vec.sub s.y s.yDual) rho
  -- The duals are added back before the projection.
  let (x, y) := k.project (Vec.add xHalf s.xDual) (Vec.add yHalf s.yDual)
  { x, y
    xDual := Vec.add s.xDual (Vec.sub xHalf x)
    yDual := Vec.add s.yDual (Vec.sub yHalf y)
    xHalf, yHalf
    xPrev := s.x
    yPrev := s.y }

namespace Iterate

/-- How far the proximal point is from the graph. -/
def primal (s : Iterate α) : α := Vec.pairNorm (Vec.sub s.xHalf s.x) (Vec.sub s.yHalf s.y)

/-- How far the projected point moved, times the penalty parameter. -/
def dual (rho : α) (s : Iterate α) : α :=
  rho * Vec.pairNorm (Vec.sub s.x s.xPrev) (Vec.sub s.y s.yPrev)

end Iterate

namespace Settings

/-- The part of both thresholds that does not depend on the iterate. -/
def absPart (S : Settings α) (m n : Nat) : α := Scalar.sqrt ((m + n : Nat) : α) * S.absTol

/-- What the primal residual is compared with. -/
def primalBound (S : Settings α) (m n : Nat) (s : Iterate α) : α :=
  S.absPart m n + S.relTol *
    Scalar.laterIfLarger (Vec.pairNorm s.xHalf s.yHalf) (Vec.pairNorm s.x s.y)

/-- What the dual residual is compared with. -/
def dualBound (S : Settings α) (m n : Nat) (s : Iterate α) : α :=
  S.absPart m n + S.relTol * S.rho * Vec.pairNorm s.xDual s.yDual

/-- Whether both residuals are finite. -/
def Healthy (S : Settings α) (s : Iterate α) : Prop :=
  Scalar.IsFinite s.primal ∧ Scalar.IsFinite (s.dual S.rho)

instance (S : Settings α) (s : Iterate α) : Decidable (S.Healthy s) :=
  inferInstanceAs (Decidable (_ ∧ _))

/-- Whether both residuals are within their thresholds. -/
def Passes (S : Settings α) (m n : Nat) (s : Iterate α) : Prop :=
  s.primal ≤ S.primalBound m n s ∧ s.dual S.rho ≤ S.dualBound m n s

instance (S : Settings α) (m n : Nat) (s : Iterate α) : Decidable (S.Passes m n s) :=
  inferInstanceAs (Decidable (_ ∧ _))

/-- Whether the iteration ends here, and how. -/
def verdict? (S : Settings α) (m n : Nat) (s : Iterate α) : Option Status :=
  -- A residual that is not finite would pass or fail the test by accident, so it comes first.
  if ¬ S.Healthy s then some .failed
  else if S.Passes m n s then some .success
  else none

end Settings

/-- A problem that the iteration works on. -/
structure Task (α : Type) [Scalar α] where
  /-- The settings. -/
  settings : Settings α
  /-- The matrix. -/
  kernel : Kernel α
  /-- The terms of the rows. -/
  rowTerms : List (Term α)
  /-- The terms of the columns. -/
  colTerms : List (Term α)

namespace Task

/-- One round on the task. -/
def next (t : Task α) (s : Iterate α) : Iterate α :=
  s.next t.settings.rho t.kernel t.rowTerms t.colTerms

/-- Whether the iteration ends at this iterate, and how. -/
def verdict? (t : Task α) (s : Iterate α) : Option Status :=
  t.settings.verdict? t.kernel.matrix.height t.kernel.matrix.cols s

/-- Up to `fuel` more rounds after `done` of them: the last iterate, its status and the number of
    rounds. -/
def iterate (t : Task α) (s : Iterate α) (done : Nat) : Nat → Iterate α × Status × Nat
  | 0 => (s, .maxIter, done)
  | fuel + 1 =>
    let s' := t.next s
    match t.verdict? s' with
    | some status => (s', status, done + 1)
    | none => t.iterate s' (done + 1) fuel

/-- The whole iteration from a guess.  The answer is the proximal point of the last round, on the
    graph. -/
def run (t : Task α) (x y : List α) : Solution α :=
  let (s, status, rounds) := t.iterate (.start x y) 0 t.settings.maxIter
  { x := s.xHalf
    y := t.kernel.matrix.mulVec s.xHalf
    status
    iterations := rounds }

end Task

/-! ### The engine -/

/-- What the engine keeps between its calls. -/
structure Cache (α : Type) where
  /-- The transpose of the last matrix that was to be factored. -/
  transpose : RowMatrix α
  /-- The key of the last matrix that was factored, with the solver of its system. -/
  factored : Option (Nat × (List α → List α))

/-- Nothing kept. -/
def Cache.empty : Cache α := ⟨.empty 0 0, none⟩

/-- Makes the factor of a matrix unless the last one belongs to the same object.  A matrix whose
    system cannot be factored leaves the old factor in place. -/
def Cache.prepare (F : Factorization α) (c : Cache α) (d : Design α) :
    Except (Fault α) (Kernel α) × List (Event α) × Cache α :=
  match c.factored.filter fun e => e.1 = d.key with
  | some (_, solve) => (.ok ⟨d.matrix, c.transpose, solve⟩, [], c)
  | none =>
    -- The transpose is kept before it is known whether the system can be factored.
    let transpose := d.matrix.transpose
    let system : Triangle α := d.matrix.normalTriangle
    match F.solver? system with
    | none => (.error .singular, [], { c with transpose })
    | some solve =>
      (.ok ⟨d.matrix, transpose, solve⟩, [.factored d.matrix.cols system.nonzeros],
        ⟨transpose, some (d.key, solve)⟩)

/-- A guess of `n` entries; a single entry stands for all of them. -/
def guess? (n : Nat) (x : List α) : Option (List α) :=
  Vec.pair? (fun a _ => a) x (List.replicate n ())

/-- The guess and the terms judged in the order in which the first round uses them: columns
    before rows, the guess before the number of terms, and the length of the results last. -/
def judge (k : Kernel α) (q : Request α) : Except (Fault α) (List α × List α) :=
  match guess? q.width q.x with
  | none => .error .lengths
  | some x =>
    if ¬ Term.Serves q.colTerms x.length then .error .termCount
    else match guess? q.height q.y with
      | none => .error .lengths
      | some y =>
        if ¬ Term.Serves q.rowTerms y.length then .error .termCount
        -- What is left can only fail when a product of the first round is formed.
        else if x.length = q.width ∧ y.length = q.height ∧ k.Fits then .ok (x, y)
        else .error .lengths

/-- The engine with given settings. -/
def engine (F : Factorization α) (S : Settings α) : Engine α (Cache α) where
  solve c q :=
    match c.prepare F q.design with
    | (.error fault, events, c') => (⟨.error fault, events⟩, c')
    | (.ok kernel, events, c') =>
      match judge kernel q with
      | .error fault => (⟨.error fault, events⟩, c')
      | .ok (x, y) =>
        let solution := Task.run ⟨S, kernel, q.rowTerms, q.colTerms⟩ x y
        (⟨.ok solution, events ++ [.iterated solution.status solution.iterations]⟩, c')

end Admm

end RegPath
