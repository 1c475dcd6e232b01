import RegPath.Matrix.Assemble
import RegPath.Random.Source

namespace RegPath

/-!
# Random problems

Sparse matrices with random positions and values.  Positions are drawn with repetition and merged,
so that there may be fewer entries than asked for; values are attached in the order of the
positions.

* `RandomProblem.Size` — an accepted size;
* `RandomProblem.distinct` — the drawn positions in increasing order, each once;
* `RandomProblem.matrix` — a random matrix;
* `RandomProblem.withObservations` — a random matrix with observations.
-/

namespace RandomProblem

variable {α : Type} [Scalar α] {σ : Type}

/-- A number of rows, of columns, and of entries to draw. -/
structure Size where
  /-- Number of rows. -/
  rows : Nat
  /-- Number of columns. -/
  cols : Nat
  /-- Number of entries to draw. -/
  entries : Nat

namespace Size

/-- One part of a size: it has to be given and must not be negative. -/
def part (n : Option Int) : Except (Fault α) Nat :=
  match n with
  | none => .error .absent
  | some n => if n < 0 then .error .negativeSize else .ok n.toNat

/-- A size whose parts are judged in turn. -/
def make (rows cols entries : Option Int) : Except (Fault α) Size := do
  return ⟨← part rows, ← part cols, ← part entries⟩

/-- Number of positions. -/
def positions (s : Size) : Nat := s.rows * s.cols

/-- Number of draws: as many as asked for, but not more than there are positions. -/
def draws (s : Size) : Nat := min s.entries s.positions

end Size

/-- Keeps one of each run of equal entries. -/
def mergeRuns : List Nat → List Nat
  | a :: b :: rest => if a = b then mergeRuns (b :: rest) else a :: mergeRuns (b :: rest)
  | l => l

/-- The entries in increasing order, each once. -/
def distinct (l : List Nat) : List Nat := mergeRuns (l.mergeSort (· ≤ ·))

/-- The drawn positions, in increasing order; nothing is drawn where there is nothing to draw. -/
def drawPositions (S : Random.Source α σ) (size : Size) (g : σ) :
    Except (Fault α) (List Nat) × σ :=
  if size.draws = 0 then (.ok [], g)
  else
    let (flat, g) := S.integers 0 size.positions size.draws g
    (flat.map distinct, g)

/-- Values at positions that count through the rows.  There has to be room for the row pointer with
    one entry for each row and one for the end. -/
def place (size : Size) (flat : List Nat) (values : List α) :
    Except (Fault α) (RowMatrix α) :=
  -- Positions count through the first row, then the second, and so on.
  let entries := List.zipWith (fun t v => (⟨t / size.cols, t % size.cols, v⟩ : Triplet α))
    flat values
  match Shape.judge size.rows size.cols with
  | .error f => .error f
  | .ok shape =>
    if longestArray < shape.height + 1 then .error .malformedArray
    else match Triplets.ofList? shape.height shape.cols entries with
    | some triplets => .ok triplets.toRows
    | none => .error .malformedArray

/-- A matrix whose layout is examined before it is given away. -/
def judged (A : RowMatrix α) : Except (Fault α) (RowMatrix α) :=
  match A.toCsr.flaw? with
  | some flaw => .error (.layout flaw)
  | none => .ok A

/-- Draws positions and values.  Positions are told apart by their columns, whose number has to be
    in range, before the values are drawn. -/
def draw (S : Random.Source α σ) (size : Size) (low high : α) (g : σ) :
    Except (Fault α) (RowMatrix α) × σ :=
  match drawPositions S size g with
  | (.error f, g) => (.error f, g)
  | (.ok flat, g) =>
    if Shape.largest < size.cols then (.error .overflow, g)
    else match S.uniform low high flat.length g with
    | (.error f, g) => (.error f, g)
    | (.ok values, g) => ((place size flat values).bind judged, g)

/-- The bounds of a range of values: two, both given, the second not below the first. -/
def bounds (range : List (Option α)) : Except (Fault α) (α × α) :=
  match range with
  | [some low, some high] =>
    if high < low then .error (.valueRange low high) else .ok (low, high)
  | [_, _] => .error .absent
  | _ => .error .malformedArray

/-- A random matrix with values from the first bound of a range up to and without the second.  The
    size is judged first, then the range, and then whether there is a generator. -/
def matrix (S : Random.Source α σ) (rng : Except (Fault α) σ) (rows cols entries : Option Int)
    (range : List (Option α)) : Except (Fault α) (RowMatrix α) × Except (Fault α) σ :=
  match Size.make rows cols entries with
  | .error f => (.error f, rng)
  | .ok size => match bounds range with
    | .error f => (.error f, rng)
    | .ok (low, high) => match rng with
      | .error f => (.error f, rng)
      | .ok g =>
        let (A, g) := draw S size low high g
        (A, .ok g)

/-- The factor of random observations. -/
def spread : α := ((4 : Nat) : α)

/-- A random matrix with values from `-1` up to and without `1`, and normal observations.  Whether
    there is a generator is judged first. -/
def withObservations (S : Random.Source α σ) (rng : Except (Fault α) σ)
    (rows cols entries : Option Int) :
    Except (Fault α) (RowMatrix α × List α) × Except (Fault α) σ :=
  match rng with
  | .error f => (.error f, rng)
  | .ok _ =>
    match matrix S rng rows cols entries [some (-1), some 1] with
    | (.ok A, .ok g) =>
      let (b, g) := S.normal A.height g
      (.ok (A, b.map (spread * ·)), .ok g)
    | (.ok _, .error f) => (.error f, .error f)
    | (.error f, rng) => (.error f, rng)

end RandomProblem

end RegPath
