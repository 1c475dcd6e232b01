import RegPath.Random.Seeding

namespace RegPath.Random

/-!
# A permuted congruential generator

A linear congruential generator with 128 bits of state, whose output is the exclusive or of the
two halves, rotated by the highest bits.

* `Pcg64`, `Pcg64.ofSeed` — the generator;
* `Pcg64.next64`, `Pcg64.next32`, `Pcg64.nextUnit` — words, half words, and numbers in `[0, 1)`;
* `Pcg64.below`, `Pcg64.integers` — integers below a bound, without bias.
-/

/-- The state of the generator. -/
structure Pcg64 where
  /-- The state of the congruence. -/
  state : BitVec 128
  /-- The increment of the congruence. -/
  inc : BitVec 128
  /-- The half of a word that was not used yet. -/
  spare : Option UInt32

namespace Pcg64

/-- The multiplier of the congruence. -/
def multiplier : BitVec 128 := 0x2360ED051FC65DA44385DF649FCCF645

/-- One step of the congruence. -/
def step (g : Pcg64) : Pcg64 := { g with state := g.state * multiplier + g.inc }

/-- Two words as one of twice the width. -/
def wide (hi lo : UInt64) : BitVec 128 := hi.toBitVec ++ lo.toBitVec

/-- The generator of four words: two for the state, two for the increment. -/
def ofWords (w0 w1 w2 w3 : UInt64) : Pcg64 :=
  let g : Pcg64 := step ⟨0, (wide w2 w3 <<< 1) ||| 1, none⟩
  step { g with state := g.state + wide w0 w1 }

/-- The generator of a seed. -/
def ofSeed (seed : Nat) : Pcg64 :=
  match seedWords seed 4 with
  | [w0, w1, w2, w3] => ofWords w0 w1 w2 w3
  | _ => ofWords 0 0 0 0

/-- A word; a spare half is not touched. -/
def next64 (g : Pcg64) : UInt64 × Pcg64 :=
  let g := g.step
  let s := g.state
  -- The six highest bits of the state say how far to rotate.
  let x : BitVec 64 := (s >>> 64).truncate 64 ^^^ s.truncate 64
  (UInt64.ofBitVec (x.rotateRight (s >>> 122).toNat), g)

/-- Half a word: the spare one, or the low half of a fresh word, of which the high half is
    spared. -/
def next32 (g : Pcg64) : UInt32 × Pcg64 :=
  match g.spare with
  | some w => (w, { g with spare := none })
  | none =>
    let (w, g) := g.next64
    (w.toUInt32, { g with spare := some (w >>> 32).toUInt32 })

/-- A number in `[0, 1)` with 53 random bits. -/
def nextUnit (g : Pcg64) : Float × Pcg64 :=
  let (w, g) := g.next64
  ((w >>> 11).toFloat * Float.scaleB 1.0 (-53), g)

/-! ### Integers below a bound -/

/-- Words of `bits` bits. -/
def nextWord (bits : Nat) (g : Pcg64) : Nat × Pcg64 :=
  if bits = 32 then
    let (w, g) := g.next32
    (w.toNat, g)
  else
    let (w, g) := g.next64
    (w.toNat, g)

/-- Draws a word until its product with `size` leaves a low part that is not over-represented, and
    returns the high part.  At most `fuel` words are rejected. -/
def scaledWord (bits size : Nat) (g : Pcg64) : Nat → Nat × Pcg64
  | 0 =>
    let (w, g) := g.nextWord bits
    (w * size / Nat.pow 2 bits, g)
  | fuel + 1 =>
    let (w, g') := g.nextWord bits
    -- `Nat.pow 2 bits mod size` low parts would occur once too often.
    if w * size % Nat.pow 2 bits < (Nat.pow 2 bits - size) % size then scaledWord bits size g' fuel
    else (w * size / Nat.pow 2 bits, g')

/-- How many words may be rejected in a row; each is rejected with a chance of at most one half. -/
def patience : Nat := 1000

/-- An integer below `size`, for a positive `size` up to `2 ^ 64`. -/
def below (size : Nat) (g : Pcg64) : Nat × Pcg64 :=
  if size ≤ 1 then (0, g)
  else if size < Nat.pow 2 32 then scaledWord 32 size g patience
  else if size = Nat.pow 2 32 then g.nextWord 32
  else scaledWord 64 size g patience

/-- Draws of one kind, `count` of them. -/
def draws {β : Type} (draw : Pcg64 → β × Pcg64) (g : Pcg64) : Nat → List β × Pcg64
  | 0 => ([], g)
  | count + 1 =>
    let (b, g) := draw g
    let (bs, g) := draws draw g count
    (b :: bs, g)

/-- Integers from `low` up to and without `high`, `count` of them. -/
def integers (low high count : Nat) (g : Pcg64) : List Nat × Pcg64 :=
  let (vs, g) := draws (below (high - low)) g count
  (vs.map (low + ·), g)

/-- Numbers between `low` and `high`, `count` of them. -/
def uniforms (low high : Float) (count : Nat) (g : Pcg64) : List Float × Pcg64 :=
  let (us, g) := draws nextUnit g count
  (us.map fun u => low + (high - low) * u, g)

end Pcg64

end RegPath.Random
