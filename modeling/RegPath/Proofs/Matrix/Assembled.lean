import RegPath.Proofs.Matrix.Forms
import RegPath.Proofs.Matrix.Words

namespace RegPath

/-!
# Assembled matrices

Every matrix whose entries words can count has a layout that is accepted.  Triplets in strict order,
row by row and column by column, become a matrix that stores just these triplets, in this order.

* `RowMatrix.accepted_toCsr`, `RowMatrix.storedCount_toCsr` — the layout of a matrix;
* `RowMatrix.listing` — all stored entries with their positions;
* `Triplet.Before` — the order of the positions;
* `Triplets.listing_toRows`, `Triplets.increasing_toRows` — what is made of ordered triplets.
-/

variable {α : Type}

/-! ### The layout of a matrix -/

namespace RowMatrix

/-- There is one pointer for each row and one for the end. -/
theorem length_pointers (start : ℤ) (ns : List ℕ) :
    (pointers start ns).length = ns.length + 1 := by
  induction ns generalizing start with
  | nil => rfl
  | cons n ns ih => rw [pointers, List.length_cons, ih, List.length_cons]

/-- The first pointer is the start. -/
theorem head?_pointers (start : ℤ) (ns : List ℕ) : (pointers start ns).head? = some start := by
  cases ns <;> rfl

/-- The last pointer is the start and all lengths together. -/
theorem getLast?_pointers (start : ℤ) (ns : List ℕ) :
    (pointers start ns).getLast? = some (start + (ns.sum : ℕ)) := by
  induction ns generalizing start with
  | nil => simp [pointers]
  | cons n ns ih =>
    obtain ⟨p, ps, hps⟩ := List.exists_cons_of_length_eq_add_one (length_pointers (start + n) ns)
    rw [pointers, hps, List.getLast?_cons_cons, ← hps, ih, List.sum_cons, Nat.cast_add,
      Int.add_assoc]

/-- Pointers do not decrease. -/
theorem isChain_pointers (start : ℤ) (ns : List ℕ) : (pointers start ns).IsChain (· ≤ ·) := by
  induction ns generalizing start with
  | nil => exact .singleton start
  | cons n ns ih =>
    refine List.isChain_cons.2 ⟨fun p hp => ?_, ih (start + n)⟩
    rw [head?_pointers, Option.mem_some_iff] at hp
    omega

/-- Pointers lie between the first one and the last one. -/
theorem le_of_mem_pointers {start p : ℤ} {ns : List ℕ} (hp : p ∈ pointers start ns) :
    start ≤ p ∧ p ≤ start + (ns.sum : ℕ) := by
  induction ns generalizing start with
  | nil =>
    rw [pointers, List.mem_singleton] at hp
    simp [hp]
  | cons n ns ih =>
    rw [List.sum_cons, Nat.cast_add]
    rcases List.mem_cons.1 hp with rfl | hp
    · omega
    · have := ih hp
      omega

/-- The lengths of the rows, together. -/
theorem sum_length_rows (A : RowMatrix α) : (A.rows.map List.length).sum = A.stored :=
  List.length_flatten.symm

/-- The rows of the layout of a matrix follow one another. -/
theorem contained_toCsr (A : RowMatrix α) : A.toCsr.Contained := by
  have hdata : A.toCsr.data.length = A.stored := List.length_map _
  refine ⟨isChain_pointers 0 _, fun p hp => ?_⟩
  have hle := le_of_mem_pointers hp
  rwa [sum_length_rows, Int.zero_add, ← hdata] at hle

/-- The row pointer of the layout of a matrix ends at the last stored entry. -/
theorem ends_toCsr (A : RowMatrix α) : A.toCsr.pointer.getLast? = some (A.stored : ℤ) := by
  rw [← sum_length_rows]
  exact (getLast?_pointers 0 _).trans (by rw [Int.zero_add])

/-- There is one pointer for each row and one for the end. -/
theorem length_pointer_toCsr (A : RowMatrix α) : A.toCsr.pointer.length = A.height + 1 :=
  (length_pointers 0 _).trans (by rw [List.length_map]; rfl)

/-- The layout of a matrix is accepted, if wide words can count what it stores. -/
theorem accepted_toCsr {A : RowMatrix α} (h : Word.wide.Holds A.stored) : A.toCsr.Accepted := by
  have hindices : A.toCsr.indices.length = A.stored := List.length_map _
  have hdata : A.toCsr.data.length = A.stored := List.length_map _
  have hcount : A.toCsr.word.Holds A.stored := by
    simp only [toCsr]
    exact Word.holds_choose (by simp) h
  -- No pointer is beyond the count, so no distance wraps around.
  have hheld : ∀ p ∈ A.toCsr.pointer, 0 ≤ p ∧ A.toCsr.word.Holds p := by
    intro p hp
    obtain ⟨hnonneg, hle⟩ := A.contained_toCsr.within p hp
    have hlow := A.toCsr.word.low_le
    have hlt := hcount.2
    exact ⟨hnonneg, by omega, by omega⟩
  refine ⟨A.length_pointer_toCsr, head?_pointers 0 _, by rw [hindices]; exact A.ends_toCsr,
    hindices.trans hdata.symm, Csr.nonDecreasing_of_isChain hheld A.contained_toCsr.ordered,
    fun j hj => ?_⟩
  obtain ⟨e, he, rfl⟩ := List.mem_map.1 hj
  obtain ⟨r, hr, he⟩ := List.mem_flatten.1 he
  have hcol : e.1 < A.toCsr.cols := A.inBounds r hr e he
  omega

/-- The number of stored entries can be read off the layout. -/
theorem storedCount_toCsr (A : RowMatrix α) : A.toCsr.storedCount = A.stored := by
  have hlast := A.ends_toCsr
  rw [List.getLast?_eq_getElem?, A.length_pointer_toCsr, Nat.add_sub_cancel] at hlast
  exact congrArg (Option.getD · 0) hlast

/-! ### What a matrix stores -/

/-- All stored entries with their positions, row by row. -/
def listing (A : RowMatrix α) : List (Triplet α) :=
  A.rows.zipIdx.flatMap fun r => r.1.map fun e => ⟨r.2, e.1, e.2⟩

/-- Nothing is stored besides. -/
theorem length_listing (A : RowMatrix α) : A.listing.length = A.stored := by
  rw [listing, List.length_flatMap, stored, List.length_flatten]
  simp only [List.length_map]
  rw [show (fun r : List (ℕ × α) × ℕ => r.1.length) = List.length ∘ Prod.fst from rfl,
    ← List.map_map, List.zipIdx_map_fst]

end RowMatrix

/-! ### Triplets in order -/

/-- The position of one triplet is before that of another, row by row and column by column. -/
def Triplet.Before (t u : Triplet α) : Prop := t.row < u.row ∨ t.row = u.row ∧ t.col < u.col

/-- The columns of one row of ordered triplets increase. -/
theorem Triplet.pairwise_row {ts : List (Triplet α)} (h : ts.Pairwise Triplet.Before) (i : ℕ) :
    (ts.filter fun t => t.row = i).Pairwise fun t u => t.col < u.col := by
  refine (h.filter _).imp_of_mem fun {t u} ht hu htu => ?_
  have hti := of_decide_eq_true (List.mem_filter.1 ht).2
  have hui := of_decide_eq_true (List.mem_filter.1 hu).2
  rcases htu with hlt | hcol
  · omega
  · exact hcol.2

/-- A list in the order of a key is made of its parts by key, one after another. -/
theorem flatMap_filter_eq {β : Type} (key : β → ℕ) {l : List β}
    (h : l.Pairwise fun a b => key a ≤ key b) (n : ℕ) :
    ((List.range n).flatMap fun i => l.filter fun a => key a = i) =
      l.filter fun a => key a < n := by
  induction n with
  | zero => simp
  | succ n ih =>
    rw [List.range_succ, List.flatMap_append, ih, List.flatMap_singleton]
    clear ih
    induction h with
    | nil => rfl
    | @cons a l hle _ ih =>
      rcases Nat.lt_trichotomy (key a) n with hlt | heq | hgt
      · rw [List.filter_cons_of_pos (by simpa using hlt),
          List.filter_cons_of_neg (by simpa using hlt.ne),
          List.filter_cons_of_pos (by simpa using hlt.trans n.lt_succ_self), List.cons_append, ih]
      · -- All that follow have at least this key.
        have hnone : (l.filter fun b => key b < n) = [] :=
          List.filter_eq_nil_iff.2 fun b hb => by simpa using heq ▸ hle b hb
        rw [hnone, List.nil_append] at ih
        rw [List.filter_cons_of_neg (by simpa using heq.ge), hnone, List.nil_append,
          List.filter_cons_of_pos (by simpa using heq), ih,
          List.filter_cons_of_pos (by simpa using Nat.lt_succ_of_le heq.le)]
      · rw [List.filter_cons_of_neg (by simpa using hgt.le),
          List.filter_cons_of_neg (by simpa using hgt.ne'),
          List.filter_cons_of_neg (by simpa using hgt), ih]

variable [Scalar α]

/-- A value whose column is behind all others is put at the end. -/
theorem mergeEntry_of_lt {j : ℕ} {v : α} {r : List (ℕ × α)} (h : ∀ e ∈ r, e.1 < j) :
    mergeEntry j v r = r ++ [(j, v)] := by
  induction r with
  | nil => rfl
  | cons e r ih =>
    have he := h e List.mem_cons_self
    rw [mergeEntry, if_neg (by omega), if_neg (by omega),
      ih fun f hf => h f (List.mem_cons_of_mem e hf), List.cons_append]

/-- Values whose columns increase are put one behind another. -/
theorem foldl_mergeEntry_of_lt {ts : List (Triplet α)} {r : List (ℕ × α)}
    (hts : ts.Pairwise fun t u => t.col < u.col) (hr : ∀ e ∈ r, ∀ t ∈ ts, e.1 < t.col) :
    ts.foldl (fun r t => mergeEntry t.col t.value r) r = r ++ ts.map fun t => (t.col, t.value) := by
  induction ts generalizing r with
  | nil => simp
  | cons t ts ih =>
    obtain ⟨ht, hts⟩ := List.pairwise_cons.1 hts
    rw [List.foldl_cons, mergeEntry_of_lt fun e he => hr e he t List.mem_cons_self, ih hts,
      List.map_cons, List.append_assoc, List.singleton_append]
    intro e he u hu
    rcases List.mem_append.1 he with he | he
    · exact hr e he u (List.mem_cons_of_mem t hu)
    · rw [List.mem_singleton.1 he]
      exact ht u hu

/-- A row of ordered triplets. -/
theorem rowOfTriplets_eq {ts : List (Triplet α)} (h : ts.Pairwise Triplet.Before) (i : ℕ) :
    rowOfTriplets ts i = (ts.filter fun t => t.row = i).map fun t => (t.col, t.value) :=
  foldl_mergeEntry_of_lt (Triplet.pairwise_row h i) fun _ he => absurd he List.not_mem_nil

namespace Triplets

variable {c : Triplets α}

/-- Ordered triplets are stored as they are. -/
theorem listing_toRows (h : c.entries.Pairwise Triplet.Before) : c.toRows.listing = c.entries := by
  have hzip : c.toRows.rows.zipIdx =
      (List.range c.height).map fun i => (rowOfTriplets c.entries i, i) :=
    List.ext_getElem (by simp [toRows]) fun i _ _ => by simp [toRows]
  have hrow : ∀ i, ((rowOfTriplets c.entries i).map fun e => (⟨i, e.1, e.2⟩ : Triplet α)) =
      c.entries.filter fun t => t.row = i := by
    intro i
    rw [rowOfTriplets_eq h, List.map_map]
    conv_rhs => rw [← List.map_id (c.entries.filter fun t => t.row = i)]
    refine List.map_congr_left fun t ht => ?_
    have hti := of_decide_eq_true (List.mem_filter.1 ht).2
    rw [Function.comp_apply, id_eq, ← hti]
  have hsorted : c.entries.Pairwise fun t u => t.row ≤ u.row := by
    refine h.imp fun {t u} htu => ?_
    rcases htu with hlt | heq
    · exact hlt.le
    · exact heq.1.le
  rw [RowMatrix.listing, hzip, List.flatMap_map]
  simp only [hrow]
  rw [flatMap_filter_eq Triplet.row hsorted]
  exact List.filter_eq_self.2 fun t ht => decide_eq_true (c.inBounds t ht).1

/-- The columns increase in each row. -/
theorem increasing_toRows (h : c.entries.Pairwise Triplet.Before) :
    ∀ r ∈ c.toRows.rows, (r.map Prod.fst).Pairwise (· < ·) := by
  intro r hr
  obtain ⟨i, -, rfl⟩ := List.mem_map.1 hr
  rw [rowOfTriplets_eq h, List.map_map, List.pairwise_map]
  exact Triplet.pairwise_row h i

end Triplets

end RegPath
