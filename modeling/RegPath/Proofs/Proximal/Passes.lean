import RegPath.Term

namespace RegPath

/-!
# Proximal points shape by shape

The proximal points of a vector can be taken in one pass for each shape: the terms and the entries
at the positions of the shape are gathered, the formula of the shape is applied to all of them at
once, and the results are put back at their positions.  Every entry is then written by the pass of
its own shape only, with the scale and the offset of its own term.

* `Term.gather`, `Term.scatter` — the entries at marked positions, and new entries for them;
* `Term.proxPass`, `Term.proxByShape` — one pass, and all of them;
* `Term.proxPass_cons` — what a pass does to one entry;
* `Term.proxByShape_eq` — the passes give the proximal points entry by entry.
-/

namespace Term

/-- The entries at the marked positions, in order. -/
def gather {β : Type} : List Bool → List β → List β
  | true :: marks, a :: l => a :: gather marks l
  | false :: marks, _ :: l => gather marks l
  | _, _ => []

/-- The list with new entries at the marked positions, which are given in order. -/
def scatter {β : Type} : List Bool → List β → List β → List β
  | true :: marks, _ :: l, b :: new => b :: scatter marks l new
  | false :: marks, a :: l, new => a :: scatter marks l new
  | _, l, _ => l

variable {α : Type} [Scalar α]

/-- The term with another shape. -/
def withKind (t : Term α) (kind : Kind) : Term α := { t with kind }

/-- Its own shape changes nothing. -/
@[simp] theorem withKind_kind (t : Term α) : t.withKind t.kind = t := rfl

/-- The positions of a shape. -/
def marks (kind : Kind) (ts : List (Term α)) : List Bool := ts.map fun t => decide (t.kind = kind)

/-- One pass: the proximal points of the entries of `v` whose terms have the shape replace those of
    `out`.  The formula is that of the shape, with the scales and offsets of the terms. -/
def proxPass (kind : Kind) (ts : List (Term α)) (v : List α) (rho : α) (out : List α) : List α :=
  scatter (marks kind ts) out <|
    List.zipWith (fun t a => (t.withKind kind).prox a rho) (gather (marks kind ts) ts)
      (gather (marks kind ts) v)

/-- All passes, from the vector itself. -/
def proxByShape (ts : List (Term α)) (v : List α) (rho : α) : List α :=
  [Kind.square, .abs, .nonneg].foldl (fun out kind => proxPass kind ts v rho out) v

variable {kind : Kind} {t : Term α} {ts : List (Term α)} {a b rho : α} {v out : List α}

/-- Without terms nothing is written. -/
@[simp] theorem proxPass_nil : proxPass kind [] v rho out = out := by
  simp [proxPass, marks, scatter]

/-- The first entry is written by the pass of its shape and left alone by the others. -/
theorem proxPass_cons :
    proxPass kind (t :: ts) (a :: v) rho (b :: out) =
      (if t.kind = kind then t.prox a rho else b) :: proxPass kind ts v rho out := by
  by_cases h : t.kind = kind
  · subst h
    simp [proxPass, marks, gather, scatter]
  · simp [proxPass, marks, gather, scatter, h]

/-- Without terms the vector stays as it is. -/
theorem proxByShape_nil : proxByShape [] v rho = v := by
  simp [proxByShape]

/-- After all passes the first entry is the proximal point of the first term. -/
theorem proxByShape_cons :
    proxByShape (t :: ts) (a :: v) rho = t.prox a rho :: proxByShape ts v rho := by
  simp only [proxByShape, List.foldl_cons, List.foldl_nil, proxPass_cons]
  congr 1
  cases h : t.kind with
  | zero =>
    -- No pass writes the entry: nothing pulls, and the point stays.
    simp [prox, h]
  | square => simp
  | abs => simp
  | nonneg => simp

/-- The passes give the proximal points entry by entry. -/
theorem proxByShape_eq (rho : α) (h : ts.length = v.length) :
    proxByShape ts v rho = proxAll ts v rho := by
  rw [proxAll_of_length_eq rho h]
  induction ts generalizing v with
  | nil =>
    obtain rfl := List.eq_nil_of_length_eq_zero h.symm
    exact proxByShape_nil
  | cons t ts ih =>
    obtain ⟨a, v, rfl⟩ := List.exists_cons_of_length_eq_add_one h.symm
    rw [proxByShape_cons, List.zipWith_cons_cons, ih (Nat.succ.inj h)]

end Term

end RegPath
