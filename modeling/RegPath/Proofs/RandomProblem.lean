import Mathlib.Data.List.Dedup
import Mathlib.Tactic.Linarith
import RegPath.Proofs.Exact
import RegPath.Proofs.Matrix.Assembled
import RegPath.RandomProblem

namespace RegPath

/-!
# Random matrices

Whatever numbers a generator gives, as long as they are in the ranges that it is asked for, a random
matrix is in canonical form: its layout is accepted, its columns increase in each row, and it stores
one entry for each position that was drawn, with the values in the order of the positions.  It is
returned for all sizes that the generator, and arrays, can serve; all other sizes are refused.

* `RandomProblem.mem_distinct`, `RandomProblem.pairwise_distinct` — the drawn positions, each once;
* `RandomProblem.place_eq` — values at increasing positions are stored as they are;
* `Random.Source.Lawful` — what a generator gives and what it refuses;
* `RandomProblem.Size.Feasible` — the sizes that can be served;
* `RandomProblem.Drawn` — what it gives for a size;
* `RandomProblem.Canonical` — the matrix that is made of it;
* `RandomProblem.matrix_canonical` — it is the one that is returned.
-/

/-- What a generator gives and what it refuses. -/
structure Random.Source.Lawful {σ : Type} (S : Random.Source ℝ σ) : Prop where
  /-- Integers below a bound, as many as asked for. -/
  integers : ∀ high count g, 0 < high → high ≤ Random.mostChoices → count ≤ longestArray →
    ∃ ts g', S.integers 0 high count g = (.ok ts, g') ∧ ts.length = count ∧ ∀ t ∈ ts, t < high
  /-- A bound that is too high is refused, and so are more integers than an array can have. -/
  refuses : ∀ high count g, Random.mostChoices < high ∨ longestArray < count →
    ∃ f g', S.integers 0 high count g = (.error f, g')
  /-- Numbers of a range, at any fractions of it and as many as asked for. -/
  uniform : ∀ low high count g, low ≤ high → count ≤ longestArray →
    ∃ (us : List ℝ) (g' : σ),
      S.uniform low high count g = (.ok (us.map fun u => low + (high - low) * u), g') ∧
      us.length = count ∧ ∀ u ∈ us, 0 ≤ u ∧ u < 1

namespace RandomProblem

/-! ### Positions -/

/-- Merging the runs of an ordered list removes its repetitions. -/
theorem mergeRuns_eq_dedup {l : List ℕ} (h : l.Pairwise (· ≤ ·)) : mergeRuns l = l.dedup := by
  induction h with
  | nil => rfl
  | @cons a l hle hl ih =>
    cases l with
    | nil => rfl
    | cons b rest =>
      rw [mergeRuns, ih]
      split
      · rename_i hab
        rw [hab, List.dedup_cons_of_mem List.mem_cons_self]
      · rename_i hab
        -- What follows is larger, so that the first entry does not occur again.
        have hnew : a ∉ b :: rest := by
          intro hmem
          rcases List.mem_cons.1 hmem with heq | hrest
          · exact hab heq
          · exact hab (le_antisymm (hle b List.mem_cons_self)
              ((List.pairwise_cons.1 hl).1 a hrest))
        rw [List.dedup_cons_of_notMem hnew]

/-- The positions that were drawn, without repetitions. -/
theorem distinct_eq (ts : List ℕ) : distinct ts = (ts.mergeSort (· ≤ ·)).dedup :=
  mergeRuns_eq_dedup (ts.pairwise_mergeSort' (· ≤ ·))

/-- They are the positions that were drawn. -/
theorem mem_distinct {ts : List ℕ} {t : ℕ} : t ∈ distinct ts ↔ t ∈ ts := by
  rw [distinct_eq, List.mem_dedup, List.mem_mergeSort]

/-- They increase. -/
theorem pairwise_distinct (ts : List ℕ) : (distinct ts).Pairwise (· < ·) := by
  rw [distinct_eq]
  have hle := (ts.pairwise_mergeSort' (· ≤ ·)).sublist (List.dedup_sublist _)
  exact (hle.and (List.nodup_dedup _)).imp fun hab => lt_of_le_of_ne hab.1 hab.2

/-- There are not more of them than draws. -/
theorem length_distinct_le (ts : List ℕ) : (distinct ts).length ≤ ts.length := by
  rw [distinct_eq, ← List.length_mergeSort ts]
  exact (List.dedup_sublist _).length_le

/-- Where something was drawn there is a position. -/
theorem length_distinct_pos {ts : List ℕ} (h : 0 < ts.length) : 0 < (distinct ts).length := by
  obtain ⟨t, ht⟩ := List.exists_mem_of_length_pos h
  exact List.length_pos_of_mem (mem_distinct.2 ht)

/-! ### Values at positions -/

section Place

variable {α : Type}

/-- A value at a position that counts through the rows. -/
def entryAt (cols : ℕ) (p : ℕ × α) : Triplet α := ⟨p.1 / cols, p.1 % cols, p.2⟩

/-- A later position is in a later row, or behind in the same row. -/
theorem before_entryAt {cols : ℕ} {p q : ℕ × α} (h : p.1 < q.1) :
    (entryAt cols p).Before (entryAt cols q) := by
  rcases Nat.lt_or_eq_of_le (Nat.div_le_div_right (c := cols) h.le) with hrow | hrow
  · exact .inl hrow
  · refine .inr ⟨hrow, ?_⟩
    have hp := Nat.div_add_mod p.1 cols
    have hq := Nat.div_add_mod q.1 cols
    rw [hrow] at hp
    change p.1 % cols < q.1 % cols
    omega

/-- Every position exists. -/
theorem entryAt_lt {rows cols : ℕ} {p : ℕ × α} (h : p.1 < rows * cols) :
    (entryAt cols p).row < rows ∧ (entryAt cols p).col < cols := by
  have hcols : 0 < cols := Nat.pos_of_ne_zero fun hzero => by simp [hzero] at h
  exact ⟨Nat.div_lt_of_lt_mul (by rwa [Nat.mul_comm]), Nat.mod_lt _ hcols⟩

/-- An array has fewer entries than a matrix may have rows. -/
theorem longestArray_le : longestArray ≤ Shape.largest := by decide

/-- Numbers of rows and columns that are not too large are accepted. -/
theorem judge_eq {height cols : ℕ} (hheight : height ≤ Shape.largest)
    (hcols : cols ≤ Shape.largest) :
    Shape.judge (α := α) height cols = .ok ⟨height, cols⟩ := by
  rw [Shape.judge, if_neg (by omega), if_neg (by omega), Int.toNat_natCast, Int.toNat_natCast]

/-- An accepted shape has the number of rows that was judged. -/
theorem height_of_judge {height cols : ℕ} {s : Shape}
    (h : Shape.judge (α := α) height cols = .ok s) : s.height = height := by
  unfold Shape.judge at h
  split at h
  · cases h
  · split at h
    · cases h
    · rw [← Except.ok.inj h, Int.toNat_natCast]

variable [Scalar α]

/-- Without room for the row pointer nothing is placed. -/
theorem exists_place_error {size : Size} (hrows : longestArray ≤ size.rows) (flat : List ℕ)
    (values : List α) : ∃ f, place size flat values = .error f := by
  unfold place
  cases hshape : Shape.judge (α := α) size.rows size.cols with
  | error f => exact ⟨f, rfl⟩
  | ok shape =>
    have hheight := height_of_judge hshape
    exact ⟨_, if_pos (by omega)⟩

/-- Values at increasing positions are stored as they are, and in each row the columns increase. -/
theorem place_eq {size : Size} (hrows : size.rows < longestArray)
    (hcols : size.cols ≤ Shape.largest) {flat : List ℕ} {values : List α}
    (hlength : values.length = flat.length) (hflat : flat.Pairwise (· < ·))
    (hlt : ∀ t ∈ flat, t < size.positions) :
    ∃ A, place size flat values = .ok A ∧ A.height = size.rows ∧ A.cols = size.cols ∧
      (∀ r ∈ A.rows, (r.map Prod.fst).Pairwise (· < ·)) ∧
      A.listing = (List.zip flat values).map (entryAt size.cols) := by
  have hfst : (List.zip flat values).map Prod.fst = flat := List.map_fst_zip hlength.ge
  have hbefore : ((List.zip flat values).map (entryAt size.cols)).Pairwise Triplet.Before := by
    rw [← hfst, List.pairwise_map] at hflat
    exact List.pairwise_map.2 (hflat.imp before_entryAt)
  have hinside : ∀ t ∈ (List.zip flat values).map (entryAt size.cols),
      t.row < size.rows ∧ t.col < size.cols := by
    intro t ht
    obtain ⟨p, hp, rfl⟩ := List.mem_map.1 ht
    exact entryAt_lt (hlt p.1 (hfst ▸ List.mem_map_of_mem hp))
  let c : Triplets α := ⟨size.rows, size.cols, _, hinside⟩
  refine ⟨c.toRows, ?_, by simp [RowMatrix.height, Triplets.toRows, c], rfl,
    Triplets.increasing_toRows hbefore, Triplets.listing_toRows hbefore⟩
  have hshape := judge_eq (α := α) (hrows.le.trans longestArray_le) hcols
  have hentries : List.zipWith (fun t v => (⟨t / size.cols, t % size.cols, v⟩ : Triplet α)) flat
      values = (List.zip flat values).map (entryAt size.cols) :=
    (List.map_zip_eq_zipWith (f := entryAt size.cols) ..).symm
  simp only [place, hshape, if_neg (Nat.not_lt.2 hrows), hentries, Triplets.ofList?,
    dif_pos hinside]
  rfl

end Place

/-! ### What a generator gives -/

/-- A size that can be served. -/
structure Size.Feasible (size : Size) : Prop where
  /-- There is room for the row pointer, which has one entry more than there are rows. -/
  rows : size.rows < longestArray
  /-- The columns can be counted. -/
  cols : size.cols ≤ Shape.largest
  /-- There is room for what is drawn. -/
  draws : size.draws ≤ longestArray
  /-- The generator takes the number of positions as a bound, if anything is drawn. -/
  positions : size.draws ≠ 0 → size.positions ≤ Random.mostChoices

variable {σ : Type}

/-- What a source gives for a size and a range, from one state to another: positions `ts`, if there
    is anything to draw, and for each different one a fraction `us` of the range. -/
structure Drawn (S : Random.Source ℝ σ) (size : Size) (low high : ℝ) (g g' g'' : σ)
    (ts : List ℕ) (us : List ℝ) : Prop where
  /-- Nothing is asked for where there is nothing to draw. -/
  idle : size.draws = 0 → g' = g
  /-- The source gives the positions. -/
  integers : size.draws ≠ 0 → S.integers 0 size.positions size.draws g = (.ok ts, g')
  /-- As many as asked for. -/
  length_integers : ts.length = size.draws
  /-- All in range. -/
  lt : ∀ t ∈ ts, t < size.positions
  /-- The source gives the values. -/
  uniform : S.uniform low high (distinct ts).length g' =
    (.ok (us.map fun u => low + (high - low) * u), g'')
  /-- As many as asked for. -/
  length_uniform : us.length = (distinct ts).length
  /-- All in range. -/
  unit : ∀ u ∈ us, 0 ≤ u ∧ u < 1

/-- A matrix in canonical form, made of what a source gives. -/
structure Canonical (size : Size) (low high : ℝ) (ts : List ℕ) (us : List ℝ) (A : RowMatrix ℝ) :
    Prop where
  /-- The number of rows. -/
  height : A.height = size.rows
  /-- The number of columns. -/
  cols : A.cols = size.cols
  /-- The layout is accepted. -/
  accepted : A.toCsr.flaw? = none
  /-- The columns of each row increase. -/
  increasing : ∀ r ∈ A.rows, (r.map Prod.fst).Pairwise (· < ·)
  /-- The positions increase. -/
  pairwise : (distinct ts).Pairwise (· < ·)
  /-- They are those that were drawn. -/
  mem : ∀ t, t ∈ distinct ts ↔ t ∈ ts
  /-- There is one entry at each. -/
  positions : (A.listing.map fun e => (e.row, e.col)) =
    (distinct ts).map fun t => (t / size.cols, t % size.cols)
  /-- The values stand in the order of the positions. -/
  values : A.listing.map Triplet.value = us.map fun u => low + (high - low) * u
  /-- The count at the end of the row pointer is the number of stored entries. -/
  storedCount : A.toCsr.storedCount = A.stored
  /-- There are as many entries as different positions. -/
  stored : A.stored = (distinct ts).length
  /-- There are not more than asked for, and not more than positions. -/
  stored_le : A.stored ≤ min size.entries (size.rows * size.cols)
  /-- Where something is asked for, and there are positions, there are entries. -/
  stored_pos : 0 < min size.entries (size.rows * size.cols) → 0 < A.stored
  /-- Each value is in the range, which may be a single number. -/
  range : ∀ e ∈ A.listing, low ≤ e.value ∧ e.value < high ∨ low = high ∧ e.value = low

section Draws

variable {S : Random.Source ℝ σ} {size : Size} {low high : ℝ} {g g' g'' : σ} {ts : List ℕ}
  {us : List ℝ}

/-- A fraction of a range is in the range. -/
theorem value_mem (hrange : low ≤ high) {u : ℝ} (hu : 0 ≤ u ∧ u < 1) :
    low ≤ low + (high - low) * u ∧ low + (high - low) * u < high ∨
      low = high ∧ low + (high - low) * u = low := by
  rcases hrange.lt_or_eq with hlt | rfl
  · have hnonneg : 0 ≤ (high - low) * u := mul_nonneg (sub_nonneg.2 hrange) hu.1
    have hless : (high - low) * u < high - low := mul_lt_of_lt_one_right (sub_pos.2 hlt) hu.2
    exact .inl ⟨by linarith, by linarith⟩
  · exact .inr ⟨rfl, by rw [sub_self, zero_mul, add_zero]⟩

namespace Drawn

/-- The positions that are drawn. -/
theorem drawPositions_eq (h : Drawn S size low high g g' g'' ts us) :
    drawPositions S size g = (.ok (distinct ts), g') := by
  unfold drawPositions
  split
  · rename_i hidle
    have hnil : ts = [] := List.eq_nil_of_length_eq_zero (h.length_integers.trans hidle)
    rw [hnil, h.idle hidle, distinct_eq, List.mergeSort_nil, List.dedup_nil]
  · rename_i hdraws
    rw [h.integers hdraws]
    rfl

/-- There are not more different positions than draws. -/
theorem length_distinct_le (h : Drawn S size low high g g' g'' ts us) :
    (distinct ts).length ≤ size.draws :=
  (RandomProblem.length_distinct_le ts).trans h.length_integers.le

/-- The matrix that is made of the draws. -/
theorem exists_canonical (h : Drawn S size low high g g' g'' ts us) (hrange : low ≤ high)
    (hsize : size.Feasible) :
    ∃ A, draw S size low high g = (.ok A, g'') ∧ Canonical size low high ts us A := by
  have hlength : (us.map fun u => low + (high - low) * u).length = (distinct ts).length := by
    rw [List.length_map, h.length_uniform]
  obtain ⟨A, hA, height, cols, increasing, hlisting⟩ := place_eq hsize.rows hsize.cols hlength
    (pairwise_distinct ts) fun t ht => h.lt t (mem_distinct.1 ht)
  have hstored : A.stored = (distinct ts).length := by
    rw [← A.length_listing, hlisting, List.length_map, List.length_zip, hlength, Nat.min_self]
  have hcount : A.stored ≤ size.draws := hstored ▸ h.length_distinct_le
  have haccepted : A.toCsr.flaw? = none := (Csr.flaw?_eq_none_iff _).2
    (RowMatrix.accepted_toCsr (Word.holds_wide (hcount.trans hsize.draws)))
  have hvalues : A.listing.map Triplet.value = us.map fun u => low + (high - low) * u := by
    rw [hlisting, List.map_map]
    exact List.map_snd_zip hlength.le
  refine ⟨A, ?_, height, cols, haccepted, increasing, pairwise_distinct ts, fun _ => mem_distinct,
    ?_, hvalues, A.storedCount_toCsr, hstored, hcount, fun hpos => ?_, fun e he => ?_⟩
  · rw [draw, h.drawPositions_eq]
    simp only [if_neg (Nat.not_lt.2 hsize.cols), h.uniform, hA, Except.bind, judged, haccepted]
  · -- The positions are the first halves of what is zipped.
    conv_rhs => rw [← List.map_fst_zip hlength.ge]
    rw [hlisting, List.map_map, List.map_map]
    rfl
  · rw [hstored]
    exact length_distinct_pos (h.length_integers ▸ hpos)
  · have hmem : e.value ∈ us.map fun u => low + (high - low) * u :=
      hvalues ▸ List.mem_map_of_mem he
    obtain ⟨u, hu, hvalue⟩ := List.mem_map.1 hmem
    rw [← hvalue]
    exact value_mem hrange (h.unit u hu)

end Drawn

/-- A lawful generator gives what can be asked of it. -/
theorem exists_drawn (hS : S.Lawful) (hrange : low ≤ high) (hdraws : size.draws ≤ longestArray)
    (hpositions : size.draws ≠ 0 → size.positions ≤ Random.mostChoices) (g : σ) :
    ∃ g' g'' ts us, Drawn S size low high g g' g'' ts us := by
  obtain ⟨g', ts, hidle, hintegers, hlength, hlt⟩ : ∃ g' ts, (size.draws = 0 → g' = g) ∧
      (size.draws ≠ 0 → S.integers 0 size.positions size.draws g = (.ok ts, g')) ∧
        ts.length = size.draws ∧ ∀ t ∈ ts, t < size.positions := by
    by_cases hzero : size.draws = 0
    · exact ⟨g, [], fun _ => rfl, fun h => absurd hzero h, hzero.symm,
        fun _ ht => absurd ht List.not_mem_nil⟩
    · have hpos : 0 < size.positions :=
        (Nat.pos_of_ne_zero hzero).trans_le (Nat.min_le_right _ _)
      obtain ⟨ts, g', hints, hlen, hlt⟩ := hS.integers size.positions size.draws g hpos
        (hpositions hzero) hdraws
      exact ⟨g', ts, fun h => absurd h hzero, fun _ => hints, hlen, hlt⟩
  have hcount : (distinct ts).length ≤ longestArray :=
    (length_distinct_le ts).trans (hlength.le.trans hdraws)
  obtain ⟨us, g'', huniform, hlen, hunit⟩ := hS.uniform low high _ g' hrange hcount
  exact ⟨g', g'', ts, us, hidle, hintegers, hlength, hlt, huniform, hlen, hunit⟩

/-- A size that cannot be served is refused. -/
theorem exists_draw_error (hS : S.Lawful) (hrange : low ≤ high) (hsize : ¬ size.Feasible) (g : σ) :
    ∃ f g', draw S size low high g = (.error f, g') := by
  by_cases hrefused : size.draws ≠ 0 ∧
      (Random.mostChoices < size.positions ∨ longestArray < size.draws)
  · -- The generator does not give the positions.
    obtain ⟨f, g', hints⟩ := hS.refuses size.positions size.draws g hrefused.2
    have hpositions : drawPositions S size g = (.error f, g') := by
      rw [drawPositions, if_neg hrefused.1, hints]
      rfl
    exact ⟨f, g', by rw [draw, hpositions]⟩
  have hdraws : size.draws ≤ longestArray := by
    by_contra hmany
    exact hrefused ⟨by omega, .inr (Nat.not_le.1 hmany)⟩
  have hpositions : size.draws ≠ 0 → size.positions ≤ Random.mostChoices := fun hzero =>
    Nat.not_lt.1 fun hhigh => hrefused ⟨hzero, .inl hhigh⟩
  obtain ⟨g', g'', ts, us, h⟩ := exists_drawn hS hrange hdraws hpositions g
  rw [draw, h.drawPositions_eq]
  by_cases hcols : Shape.largest < size.cols
  · simp only [if_pos hcols]
    exact ⟨_, _, rfl⟩
  · have hrows : longestArray ≤ size.rows := Nat.not_lt.1 fun hrows =>
      hsize ⟨hrows, Nat.not_lt.1 hcols, hdraws, hpositions⟩
    obtain ⟨f, hf⟩ := exists_place_error hrows (distinct ts)
      (us.map fun u => low + (high - low) * u)
    simp only [if_neg hcols, h.uniform, hf]
    exact ⟨f, g'', rfl⟩

end Draws

/-! ### The matrix that is returned -/

/-- With a size, a range and a generator the matrix is drawn. -/
theorem matrix_eq_draw (S : Random.Source ℝ σ) (g : σ) (rows cols entries : ℕ) {low high : ℝ}
    (hrange : low ≤ high) :
    matrix S (.ok g) (some rows) (some cols) (some entries) [some low, some high] =
      ((draw S ⟨rows, cols, entries⟩ low high g).1,
        .ok (draw S ⟨rows, cols, entries⟩ low high g).2) := by
  have hpart : ∀ n : ℕ, Size.part (α := ℝ) (some (n : ℤ)) = .ok n := fun n => by
    simp only [Size.part, if_neg (Int.not_lt.2 (Int.natCast_nonneg n)), Int.toNat_natCast]
  have hsize : Size.make (α := ℝ) (some (rows : ℤ)) (some (cols : ℤ)) (some (entries : ℤ)) =
      .ok ⟨rows, cols, entries⟩ := by
    simp only [Size.make, hpart]
    rfl
  simp only [matrix, hsize, bounds, if_neg (not_lt.2 hrange)]

/-- A random matrix of a size that can be served is returned, whatever a lawful generator gives, and
    is in canonical form.  Any other size is refused. -/
theorem matrix_canonical {S : Random.Source ℝ σ} (hS : S.Lawful) (rows cols entries : ℕ)
    {low high : ℝ} (hrange : low ≤ high) (g : σ) :
    (Size.Feasible ⟨rows, cols, entries⟩ → ∃ g' g'' ts us A,
      Drawn S ⟨rows, cols, entries⟩ low high g g' g'' ts us ∧
        matrix S (.ok g) (some rows) (some cols) (some entries) [some low, some high] =
          (.ok A, .ok g'') ∧ Canonical ⟨rows, cols, entries⟩ low high ts us A) ∧
      (¬ Size.Feasible ⟨rows, cols, entries⟩ → ∃ f g',
        matrix S (.ok g) (some rows) (some cols) (some entries) [some low, some high] =
          (.error f, .ok g')) := by
  rw [matrix_eq_draw S g rows cols entries hrange]
  constructor
  · intro hsize
    obtain ⟨g', g'', ts, us, hdrawn⟩ := exists_drawn hS hrange hsize.draws hsize.positions g
    obtain ⟨A, hA, hcanonical⟩ := hdrawn.exists_canonical hrange hsize
    exact ⟨g', g'', ts, us, A, hdrawn, by rw [hA], hcanonical⟩
  · intro hsize
    obtain ⟨f, g', hf⟩ := exists_draw_error hS hrange hsize g
    exact ⟨f, g', by rw [hf]⟩

/-! ### A generator -/

/-- The numbers zero and one in turn, and the middle of each range. -/
noncomputable def alternating : Random.Source ℝ Unit where
  integers low high count g :=
    if Random.mostChoices < high ∨ longestArray < count then (.error .drawRange, g)
    else (.ok ((List.range count).map fun k => low + k % 2 % (high - low)), g)
  uniform low high count g :=
    (.ok ((List.replicate count Scalar.half).map fun u => low + (high - low) * u), g)
  normal count g := (List.replicate count 0, g)

/-- They are in range, and too high a bound or too many of them are refused. -/
theorem alternating_lawful : alternating.Lawful where
  integers := by
    intro high count g hpos hhigh hcount
    refine ⟨_, g, if_neg (by omega), by rw [List.length_map, List.length_range], fun t ht => ?_⟩
    obtain ⟨k, -, rfl⟩ := List.mem_map.1 ht
    have hlt := Nat.mod_lt (k % 2) hpos
    simpa using hlt
  refuses high count g h := ⟨_, g, if_pos h⟩
  uniform := by
    intro low high count g _ _
    refine ⟨_, g, rfl, List.length_replicate, fun u hu => ?_⟩
    rw [List.eq_of_mem_replicate hu]
    exact ⟨Scalar.half_mem.1.le, Scalar.half_mem.2⟩

/-- The two positions that are drawn, each once. -/
theorem distinct_repeated : distinct [0, 1, 0, 1] = [0, 1] := by
  simp [distinct, mergeRuns, List.mergeSort, List.MergeSort.Internal.splitInTwo]

/-- Four draws with repetitions make a matrix with two entries. -/
theorem matrix_canonical_repeated :
    alternating.Lawful ∧ ∃ A, matrix alternating (.ok ()) (some (2 : ℕ)) (some (3 : ℕ))
        (some (4 : ℕ)) [some (-1), some 1] = (.ok A, .ok ()) ∧ A.height = 2 ∧ A.cols = 3 ∧
      A.toCsr.flaw? = none ∧ (A.listing.map fun e => (e.row, e.col)) = [(0, 0), (0, 1)] := by
  have hrange : (-1 : ℝ) ≤ 1 := by norm_num
  have hfeasible : Size.Feasible ⟨2, 3, 4⟩ :=
    ⟨by decide, by decide, by decide, fun _ => by decide⟩
  obtain ⟨g', g'', ts, us, A, hdrawn, hA, hcanonical⟩ :=
    (matrix_canonical alternating_lawful 2 3 4 hrange ()).1 hfeasible
  -- The generator has given the two positions in turn.
  have hints := hdrawn.integers (by decide)
  obtain rfl : [0, 1, 0, 1] = ts := Except.ok.inj (congrArg Prod.fst hints)
  refine ⟨alternating_lawful, A, hA, hcanonical.height, hcanonical.cols, hcanonical.accepted, ?_⟩
  rw [hcanonical.positions, distinct_repeated]
  rfl

/-- A number of columns that cannot be counted is refused, although there is nothing to draw. -/
theorem not_forall_matrix_canonical :
    ¬ ∀ (S : Random.Source ℝ Unit), S.Lawful → ∀ (rows cols entries : ℕ) (low high : ℝ) (g : Unit),
      low ≤ high → ∃ A g',
        matrix S (.ok g) (some rows) (some cols) (some entries) [some low, some high] =
          (.ok A, .ok g') := by
  intro h
  have hrange : (-1 : ℝ) ≤ 1 := by norm_num
  have hsize : ¬ Size.Feasible ⟨0, Shape.largest + 1, 3⟩ := fun hsize =>
    absurd hsize.cols (Nat.not_succ_le_self _)
  obtain ⟨f, g', hf⟩ := exists_draw_error alternating_lawful hrange hsize ()
  obtain ⟨A, g'', hA⟩ := h alternating alternating_lawful 0 (Shape.largest + 1) 3 _ _ () hrange
  rw [matrix_eq_draw _ _ _ _ _ hrange, hf] at hA
  cases hA

end RandomProblem

end RegPath
