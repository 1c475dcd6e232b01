import Mathlib.Data.List.Chain
import RegPath.Matrix.Csr

namespace RegPath

/-!
# Distances in words

The test of a row pointer measures its steps in the words that hold it.  From a pointer to a later
one the distance is the plain difference, but not always from a later one to an earlier: without a
sign no distance is negative, and with one the distance between pointers of different signs may wrap
around.

* `Word.wrap_of_holds` — what is a word is left as it is;
* `Csr.span_eq` — between which pointers the distance is the difference;
* `Csr.nonDecreasing_of_isChain` — pointers that do not decrease pass the test;
* `Csr.isChain_of_nonDecreasing` — the converse, for words with a sign.
-/

namespace Word

variable {w : Word} {d : ℤ}

/-- There are words beyond zero. -/
theorem high_pos (w : Word) : 0 < w.high := Int.natCast_pos.2 (Nat.pow_pos (by decide))

/-- The smallest word is not positive. -/
theorem low_le (w : Word) : w.low ≤ 0 := by
  have hhigh := w.high_pos
  unfold low
  split
  · omega
  · exact Int.le_refl 0

/-- With a sign there are as many words below zero as from zero on. -/
theorem low_of_signed (h : w.signed) : w.low = -w.high := if_pos h

/-- What is a word is left as it is. -/
theorem wrap_of_holds (h : w.Holds d) : w.wrap d = d := by
  have hlow := h.1
  have hhigh := h.2
  rw [wrap, Int.emod_eq_of_lt (by omega) (by omega)]
  omega

/-- The words that are chosen for some numbers hold each of them that a wide word holds. -/
theorem holds_choose {numbers : List ℤ} {p : ℤ} (hp : p ∈ numbers) (hwide : wide.Holds p) :
    (choose numbers).Holds p := by
  unfold choose
  split
  · rename_i hnarrow
    exact hnarrow p hp
  · exact hwide

/-- They have a sign. -/
theorem signed_choose (numbers : List ℤ) : (choose numbers).signed := by
  unfold choose
  split
  · rfl
  · rfl

/-- Wide words count the entries of an array. -/
theorem holds_wide {n : ℕ} (h : n ≤ longestArray) : wide.Holds n := by
  have hlow := wide.low_le
  have hhigh : (longestArray : ℤ) < wide.high := by decide
  exact ⟨by omega, by omega⟩

end Word

namespace Csr

variable {α : Type} {c : Csr α}

/-- The distance between two pointers that are words is their difference, if they are in order or if
    words have a sign. -/
theorem span_eq {p q : ℤ} (hp : 0 ≤ p ∧ c.word.Holds p) (hq : 0 ≤ q ∧ c.word.Holds q)
    (h : p ≤ q ∨ c.word.signed) : c.span p q = q - p := by
  have hp' := hp.2.2
  have hq' := hq.2.2
  refine Word.wrap_of_holds ⟨?_, by omega⟩
  rcases h with hle | hsigned
  · have hlow := c.word.low_le
    omega
  · rw [Word.low_of_signed hsigned]
    omega

/-- Pointers that do not decrease pass the test of their order. -/
theorem nonDecreasing_of_isChain {ps : List ℤ} (hps : ∀ p ∈ ps, 0 ≤ p ∧ c.word.Holds p)
    (h : ps.IsChain (· ≤ ·)) : c.NonDecreasing ps := by
  induction ps with
  | nil => trivial
  | cons p ps ih =>
    cases ps with
    | nil => trivial
    | cons q rest =>
      have hle : p ≤ q := h.rel
      have htail := fun r hr => hps r (List.mem_cons_of_mem p hr)
      have hspan := span_eq (hps p List.mem_cons_self) (htail q List.mem_cons_self) (.inl hle)
      exact ⟨by omega, ih htail h.tail⟩

/-- Where words have a sign, pointers that pass the test do not decrease. -/
theorem isChain_of_nonDecreasing (hsigned : c.word.signed) {ps : List ℤ}
    (hps : ∀ p ∈ ps, 0 ≤ p ∧ c.word.Holds p) (h : c.NonDecreasing ps) : ps.IsChain (· ≤ ·) := by
  induction ps with
  | nil => exact .nil
  | cons p ps ih =>
    cases ps with
    | nil => exact .singleton p
    | cons q rest =>
      have htail := fun r hr => hps r (List.mem_cons_of_mem p hr)
      have hspan := span_eq (hps p List.mem_cons_self) (htail q List.mem_cons_self) (.inr hsigned)
      have hstep := h.1
      rw [hspan] at hstep
      exact .cons_cons (by omega) (ih htail h.2)

end Csr

end RegPath
