namespace RegPath.Random

/-!
# The Mersenne twister

A generator of 32-bit words from a twisted feedback register of 624 words.

* `Twister`, `Twister.ofSeed` — the generator;
* `Twister.next` — a word;
* `Twister.upTo` — an integer up to a bound, by masking and rejection;
* `Twister.shuffle` — a random order.
-/

/-- The words that are left of a block, and the block itself. -/
structure Twister where
  /-- The register. -/
  block : Array UInt32
  /-- The words of the register that were not output yet. -/
  rest : List UInt32

namespace Twister

/-- Number of words of the register. -/
def size : Nat := 624

/-- Distance of the feedback. -/
def offset : Nat := 397

/-- The words of the register for a seed, from number `i` on, after the word `w`. -/
def seeded (w : UInt32) (i : Nat) : Nat → List UInt32
  | 0 => []
  | n + 1 =>
    let v := (1812433253 : UInt32) * (w ^^^ (w >>> 30)) + UInt32.ofNat i
    v :: seeded v (i + 1) n

/-- The generator of a seed. -/
def ofSeed (seed : UInt32) : Twister := ⟨(seed :: seeded seed 1 (size - 1)).toArray, []⟩

/-- The new word for a word, the one after it and the one at the feedback distance. -/
def twist (u v m : UInt32) : UInt32 :=
  let y := (u &&& 0x80000000) ||| (v &&& 0x7fffffff)
  m ^^^ (y >>> 1) ^^^ (if y &&& 1 == 1 then 0x9908b0df else 0)

/-- The next register: its words are replaced one after the other. -/
def advance (block : Array UInt32) : Array UInt32 :=
  (List.range size).foldl
    (fun b k => b.setIfInBounds k (twist (b.getD k 0) (b.getD ((k + 1) % size) 0)
      (b.getD ((k + offset) % size) 0)))
    block

/-- Spreads the bits of a word of the register. -/
def temper (y : UInt32) : UInt32 :=
  let y := y ^^^ (y >>> 11)
  let y := y ^^^ ((y <<< 7) &&& 0x9d2c5680)
  let y := y ^^^ ((y <<< 15) &&& 0xefc60000)
  y ^^^ (y >>> 18)

/-- A word. -/
def next (g : Twister) : UInt32 × Twister :=
  match g.rest with
  | w :: rest => (temper w, { g with rest })
  | [] =>
    let block := advance g.block
    match block.toList with
    | w :: rest => (temper w, ⟨block, rest⟩)
    | [] => (0, ⟨block, []⟩)

/-- An integer up to `bound`: words are masked to the bits of the bound until one is in range.  At
    most `fuel` words are rejected. -/
def upTo (bound : Nat) (g : Twister) : Nat → Nat × Twister
  | 0 => (0, g)
  | fuel + 1 =>
    let (w, g) := g.next
    -- The mask is the smallest `2 ^ p - 1` that is not below the bound.
    let j := w.toNat % Nat.pow 2 (bound.log2 + 1)
    if j ≤ bound then (j, g) else upTo bound g fuel

/-- How many words may be rejected in a row; each is rejected with a chance of at most one half. -/
def patience : Nat := 1000

/-- Exchanges two entries. -/
def exchange (a : List Nat) (i j : Nat) : List Nat :=
  (a.set i (a[j]?.getD 0)).set j (a[i]?.getD 0)

/-- Exchanges each of the entries `i`, `i - 1`, …, `1` with a random one that is not after it. -/
def shuffleFrom (g : Twister) (a : List Nat) : Nat → List Nat
  | 0 => a
  | i + 1 =>
    let (j, g) := upTo (i + 1) g patience
    shuffleFrom g (exchange a (i + 1) j) i

/-- A random order of the entries. -/
def shuffle (g : Twister) (a : List Nat) : List Nat := shuffleFrom g a (a.length - 1)

end Twister

end RegPath.Random
