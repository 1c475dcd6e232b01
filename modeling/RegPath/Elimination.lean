import RegPath.Vec

namespace RegPath

/-!
# Elimination

Linear systems with a symmetric matrix, solved by eliminating one unknown after the other.  The
matrix is given by its upper triangle: for each unknown the diagonal entry and the entries to its
right.  An unknown is eliminated by the row in which it is largest.  Products with a zero entry of
the matrix are left out, so that a value which is not finite reaches only the unknowns that are
tied to it.

* `Triangle` — the upper triangle, with `Triangle.nonzeros` and `Triangle.rows`;
* `Factor.ofRows?` — the pivots and multipliers, `none` where no row has a usable pivot;
* `Factor.solve` — the solution for a right-hand side;
* `Factorization` — any way to turn a triangle into a solver, `Factorization.elimination` the one
  that runs.
-/

variable {α : Type}

/-- The upper triangle of a symmetric matrix. -/
abbrev Triangle (α : Type) := List (α × List α)

namespace Triangle

/-- Number of entries of the whole matrix that are not zero. -/
def nonzeros [Scalar α] (t : Triangle α) : Nat :=
  Vec.nonzeros (t.map Prod.fst) + 2 * Vec.nonzeros (t.flatMap Prod.snd)

/-- The rows of the whole matrix. -/
def rows : Triangle α → List (List α)
  | [] => []
  | r :: rest => (r.1 :: r.2) :: List.zipWith (· :: ·) r.2 (rows rest)

end Triangle

/-- How one unknown is eliminated. -/
structure Pivot (α : Type) where
  /-- The position, among the rows that are left, of the row that eliminates it. -/
  row : Nat
  /-- The entry of that row for the unknown. -/
  lead : α
  /-- The entries of that row for the later unknowns. -/
  tail : List α
  /-- The multiples of that row that are subtracted from the others. -/
  multipliers : List α

/-- The eliminations of all unknowns, in order. -/
abbrev Factor (α : Type) := List (Pivot α)

namespace Factor

variable [Scalar α]

/-- The position of the entry with the largest absolute value, the first one of several; `none` if
    every entry is zero or not a number. -/
def largest? (column : List α) : Option Nat :=
  (column.zipIdx.foldl (fun best e => match best with
    | none => if 0 < Scalar.abs e.1 then some e else none
    | some b => if Scalar.abs b.1 < Scalar.abs e.1 then some e else some b) none).map Prod.snd

/-- The product `a b` of a matrix entry, zero if the entry is. -/
def timesEntry (a b : α) : α := if Scalar.IsZero a then 0 else a * b

/-- What is left of a row without its first unknown, after the multiple of a pivot row that removes
    it.  The multiple comes first. -/
def reduce (lead : α) (tail : List α) : List α → α × List α
  | [] => (0, [])
  | a :: as =>
    if Scalar.IsZero a then (0, as)
    else (a / lead, List.zipWith (fun c b => c - timesEntry b (a / lead)) as tail)

/-- The eliminations of `n` unknowns. -/
def ofRows? : (n : Nat) → List (List α) → Option (Factor α)
  | 0, _ => some []
  | n + 1, rows =>
    match largest? (rows.map fun r => r.headD 0) with
    | none => none
    | some i =>
      let pivot := rows[i]?.getD []
      let lead := pivot.headD 0
      let reduced := (rows.eraseIdx i).map (reduce lead pivot.tail)
      (ofRows? n (reduced.map Prod.snd)).map fun f =>
        ⟨i, lead, pivot.tail, reduced.map Prod.fst⟩ :: f

/-- Forward elimination on the way down, back substitution on the way up. -/
def solve : Factor α → List α → List α
  | [], _ => []
  | p :: f, rs =>
    let r := rs[p.row]?.getD 0
    -- The later unknowns first, from what is left of the other right-hand sides.
    let xs := solve f (List.zipWith (fun s l => s - timesEntry l r) (rs.eraseIdx p.row)
      p.multipliers)
    (r - (List.zipWith timesEntry p.tail xs).sum) / p.lead :: xs

/-- There is one elimination for each unknown. -/
theorem length_of_ofRows? {n : Nat} {rows : List (List α)} {f : Factor α}
    (h : ofRows? n rows = some f) : f.length = n := by
  induction n generalizing rows f with
  | zero =>
    obtain rfl := Option.some.inj h
    rfl
  | succ n ih =>
    rw [ofRows?] at h
    split at h
    · cases h
    · obtain ⟨g, hg, rfl⟩ := Option.map_eq_some_iff.1 h
      rw [List.length_cons, ih hg]

/-- There is one solution for each elimination. -/
@[simp] theorem length_solve (f : Factor α) (rs : List α) : (f.solve rs).length = f.length := by
  induction f generalizing rs with
  | nil => rfl
  | cons p f ih => simp [solve, ih]

end Factor

/-- A way to solve symmetric systems: the solver of a triangle, or `none` if there is none. -/
structure Factorization (α : Type) where
  /-- The solver for all right-hand sides. -/
  solver? : Triangle α → Option (List α → List α)

/-- Elimination by the largest pivots. -/
def Factorization.elimination [Scalar α] : Factorization α where
  solver? t := (Factor.ofRows? t.length (Triangle.rows t)).map Factor.solve

end RegPath
