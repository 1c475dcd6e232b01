import RegPath.Fault
import RegPath.Random.Normal
import RegPath.Scalar

namespace RegPath.Random

/-!
# Sources of randomness

What random problems are drawn from, with a state that moves on at each request.

* `Source` — integers, numbers between two bounds, and normal numbers;
* `Source.seeded` — the generator of a seed;
* `Source.scripted` — prepared numbers, read over and over, with a record of the requests.
-/

/-- A source with a state of type `σ`. -/
structure Source (α : Type) (σ : Type) where
  /-- Integers from `low` up to and without `high`, as many as asked for. -/
  integers : (low high count : Nat) → σ → Except (Fault α) (List Nat) × σ
  /-- Numbers from `low` up to and without `high`, as many as asked for. -/
  uniform : (low high : α) → (count : Nat) → σ → Except (Fault α) (List α) × σ
  /-- Standard normal numbers, as many as asked for. -/
  normal : (count : Nat) → σ → List α × σ

/-- The bound that integers of a seeded generator may have at most. -/
def mostChoices : Nat := Nat.pow 2 63

/-- The generator of a seed.  It refuses integers with too high a bound or too many of them, and
    numbers between bounds whose distance is not a finite number. -/
def Source.seeded : Source Float Pcg64 where
  integers low high count g :=
    if mostChoices < high then (.error .drawRange, g)
    else if longestArray < count then (.error .malformedArray, g)
    else
      let (vs, g) := g.integers low high count
      (.ok vs, g)
  uniform low high count g :=
    if (high - low).isFinite then
      let (us, g) := g.uniforms low high count
      (.ok us, g)
    else (.error .overflow, g)
  normal count g := g.normals count

/-- The generator of a seed, which must not be negative. -/
def Pcg64.ofSeed? {α : Type} (seed : Int) : Except (Fault α) Pcg64 :=
  if seed < 0 then .error .negativeSeed else .ok (.ofSeed seed.toNat)

/-! ### Prepared numbers -/

/-- A request of one of the three kinds. -/
inductive Asked (α : Type) where
  /-- Integers. -/
  | integers (low high count : Nat)
  /-- Numbers between bounds. -/
  | uniform (low high : α) (count : Nat)
  /-- Normal numbers. -/
  | normal (count : Nat)

/-- Prepared numbers of each kind, how many of each kind have been read, and the requests. -/
structure Script (α : Type) where
  /-- Integers. -/
  integers : List Int
  /-- Fractions of the distance between two bounds. -/
  units : List α
  /-- Normal numbers. -/
  normals : List α
  /-- How many integers have been read. -/
  integersRead : Nat := 0
  /-- How many fractions have been read. -/
  unitsRead : Nat := 0
  /-- How many normal numbers have been read. -/
  normalsRead : Nat := 0
  /-- The requests so far. -/
  asked : List (Asked α) := []

/-- Elements of a list that is read over and over: `count` of them after the first `start`. -/
def cyclic {β : Type} (l : List β) (start count : Nat) : List β :=
  (List.range count).filterMap fun k => l[(start + k) % l.length]?

/-- Prepared numbers.  An integer is reduced to its range. -/
def Source.scripted {α : Type} [Scalar α] : Source α (Script α) where
  integers low high count s :=
    (.ok ((cyclic s.integers s.integersRead count).map fun v =>
        low + (v % ((high : Int) - low)).toNat),
      { s with
        integersRead := s.integersRead + count
        asked := s.asked ++ [.integers low high count] })
  uniform low high count s :=
    (.ok ((cyclic s.units s.unitsRead count).map fun u => low + (high - low) * u),
      { s with
        unitsRead := s.unitsRead + count
        asked := s.asked ++ [.uniform low high count] })
  normal count s :=
    (cyclic s.normals s.normalsRead count,
      { s with
        normalsRead := s.normalsRead + count
        asked := s.asked ++ [.normal count] })

end RegPath.Random
