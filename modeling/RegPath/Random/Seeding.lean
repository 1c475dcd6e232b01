namespace RegPath.Random

/-!
# Seed sequences

How a seed of any size is spread over the initial words of a generator: its words are hashed into
a pool of four, each word of the pool is mixed with each other one, and the output words are
hashed from the pool in turn.

* `entropy` — the words of a seed;
* `pool` — the mixed pool;
* `seedWords` — the 64-bit words for a generator.
-/

namespace Seeding

/-- A number of more than one word is larger than what is left after its lowest word. -/
theorem div_lt_of_not_lt {n : Nat} (h : ¬ n < Nat.pow 2 32) : n / Nat.pow 2 32 < n := by
  simp only [Nat.pow_eq] at h ⊢
  omega

/-- The 32-bit words of a number, the lowest first; a single zero for zero. -/
def entropy (seed : Nat) : List UInt32 :=
  if seed < Nat.pow 2 32 then [UInt32.ofNat seed]
  else UInt32.ofNat (seed % Nat.pow 2 32) :: entropy (seed / Nat.pow 2 32)
termination_by seed
decreasing_by exact div_lt_of_not_lt ‹_›

/-- Hashes a word with a running constant; the constant changes. -/
def hashmix (h v : UInt32) : UInt32 × UInt32 :=
  let v := v ^^^ h
  let h := h * 0x931e8875
  let v := v * h
  (h, v ^^^ (v >>> 16))

/-- Mixes a word into another one. -/
def mix (x y : UInt32) : UInt32 :=
  let r := 0xca01f9dd * x - 0x4973f715 * y
  r ^^^ (r >>> 16)

/-- Number of words of a pool. -/
def poolSize : Nat := 4

/-- A pool while it is being filled, with its running constant. -/
structure Mixing where
  /-- The running constant. -/
  hash : UInt32
  /-- The words. -/
  words : List UInt32

/-- Mixes a hashed word into word `d` of the pool. -/
def Mixing.absorb (p : Mixing) (d : Nat) (v : UInt32) : Mixing :=
  let (hash, v) := hashmix p.hash v
  ⟨hash, p.words.modify d fun x => mix x v⟩

/-- The first words of a seed, hashed. -/
def Mixing.fill (ws : List UInt32) : Mixing :=
  (List.range poolSize).foldl
    (fun p i =>
      let (hash, v) := hashmix p.hash (ws[i]?.getD 0)
      ⟨hash, p.words ++ [v]⟩)
    ⟨0x43b0d7e5, []⟩

/-- Mixes each word of the pool into each other one. -/
def Mixing.stir (p : Mixing) : Mixing :=
  (List.range poolSize).foldl
    (fun p s => (List.range poolSize).foldl
      (fun p d => if s = d then p else p.absorb d (p.words[s]?.getD 0)) p)
    p

/-- The pool of a seed: words beyond the size of the pool are mixed into all of it. -/
def pool (seed : Nat) : List UInt32 :=
  -- Seeds of up to four words only fill the pool; longer ones are stirred in afterwards.
  let ws := entropy seed
  ((ws.drop poolSize).foldl
    (fun p w => (List.range poolSize).foldl (fun p d => p.absorb d w) p)
    (Mixing.fill ws).stir).words

/-- Output words of a pool: `n` of them, from output `i` on with constant `h`. -/
def output (pool : List UInt32) (h : UInt32) (i : Nat) : Nat → List UInt32
  | 0 => []
  | n + 1 =>
    let v := pool[i % poolSize]?.getD 0 ^^^ h
    let h := h * 0x58f38ded
    let v := v * h
    (v ^^^ (v >>> 16)) :: output pool h (i + 1) n

/-- Joins pairs of words, the low half first. -/
def join : List UInt32 → List UInt64
  | lo :: hi :: rest => (hi.toUInt64 <<< 32 ||| lo.toUInt64) :: join rest
  | _ => []

end Seeding

/-- The first `n` 64-bit words for a seed. -/
def seedWords (seed n : Nat) : List UInt64 :=
  Seeding.join (Seeding.output (Seeding.pool seed) 0x8b51f9dd 0 (2 * n))

end RegPath.Random
