import RegPath.Fault
import RegPath.Random.Twister

namespace RegPath.CrossValidation

/-!
# Folds

How rows are split for cross-validation: a random order is cut into consecutive pieces of nearly
equal length, and each piece in turn is left out of the training rows.

* `Split` — the training rows and the test rows of a fold, both in increasing order;
* `pieces` — consecutive pieces of nearly equal length;
* `splits` — the folds of a seed.
-/

/-- The training rows and the test rows of a fold. -/
structure Split where
  /-- The rows to train on. -/
  train : List Nat
  /-- The rows to test on. -/
  test : List Nat
  deriving DecidableEq, Repr

/-- The split of `m` rows that leaves out the given ones. -/
def Split.leaving (m : Nat) (piece : List Nat) : Split where
  train := (List.range m).filter fun i => i ∉ piece
  test := (List.range m).filter fun i => i ∈ piece

/-- Cuts a list into pieces of the given lengths. -/
def cut {β : Type} : List Nat → List β → List (List β)
  | [], _ => []
  | n :: rest, l => l.take n :: cut rest (l.drop n)

/-- Cuts a list into `k` pieces, of which the first ones are longer by one where the length is no
    multiple of `k`. -/
def pieces {β : Type} (k : Nat) (l : List β) : List (List β) :=
  cut ((List.range k).map fun t => l.length / k + if t < l.length % k then 1 else 0) l

/-- The first number that is no seed any more. -/
def seedBound : Nat := Nat.pow 2 32

/-- The `k` folds of `m` rows for a seed; there must be a row for each fold. -/
def splits {α : Type} (m k : Nat) (seed : Int) : Except (Fault α) (List Split) :=
  if m < k ∨ seed < 0 ∨ seedBound ≤ seed then .error .unsplittable
  else
    let order := (Random.Twister.ofSeed (UInt32.ofNat seed.toNat)).shuffle (List.range m)
    .ok ((pieces k order).map (Split.leaving m))

end RegPath.CrossValidation
