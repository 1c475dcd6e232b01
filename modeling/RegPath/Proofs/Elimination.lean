import Mathlib.Data.List.InsertIdx
import RegPath.Proofs.Coordinates
import RegPath.Elimination

namespace RegPath

/-!
# Elimination solves

In exact arithmetic the elimination by the largest pivots finds the solution of every system that
has exactly one, and says so of no other.

* `Triangle.Shaped`, `Triangle.mulVec` — the upper triangle of a symmetric matrix as a matrix;
* `Factorization.Exact` — what an exact solver of such systems does;
* `Factor.solve_ofRows?` — a factor solves the system that it was made from;
* `Factor.isSome_ofRows?` — a system whose only null vector is zero has a factor;
* `Factorization.elimination_exact` — the elimination is an exact solver.
-/

/-! ### Systems given by a triangle -/

namespace Triangle

/-- Each row of the triangle has an entry for itself and for each later row. -/
def Shaped : Triangle ℝ → Prop
  | [] => True
  | r :: rest => r.2.length = rest.length ∧ Shaped rest

/-- The product of the symmetric matrix with a vector. -/
noncomputable def mulVec (t : Triangle ℝ) (x : List ℝ) : List ℝ :=
  (rows t).map fun r => Vec.dot r x

end Triangle

/-- A list of rows that is square. -/
structure Square (n : ℕ) (rows : List (List ℝ)) : Prop where
  /-- As many rows as unknowns. -/
  height : rows.length = n
  /-- As many entries in each row as unknowns. -/
  width : ∀ r ∈ rows, r.length = n

/-- The matrix of a shaped triangle is square. -/
theorem Triangle.Shaped.square {t : Triangle ℝ} (h : t.Shaped) : Square t.length (rows t) := by
  induction t with
  | nil => exact ⟨rfl, by simp [rows]⟩
  | cons r rest ih =>
    obtain ⟨hr, hrest⟩ := h
    have hsq := ih hrest
    refine ⟨?_, ?_⟩
    · rw [rows, List.length_cons, List.length_zipWith, hr, hsq.height, min_self, List.length_cons]
    · intro s hs
      rw [rows] at hs
      rcases List.mem_cons.1 hs with rfl | hs
      · rw [List.length_cons, hr, List.length_cons]
      · obtain ⟨i, hi, rfl⟩ := List.getElem_of_mem hs
        rw [List.getElem_zipWith, List.length_cons, hsq.width _ (List.getElem_mem _),
          List.length_cons]

/-- A way to solve systems that finds the solution of each that has no null vector but zero. -/
structure Factorization.Exact (F : Factorization ℝ) : Prop where
  /-- There is a solver unless some other vector than zero is mapped to zero. -/
  solvable : ∀ t : Triangle ℝ, t.Shaped →
    (∀ x, x.length = t.length → t.mulVec x = Vec.zeros t.length → x = Vec.zeros t.length) →
      ∃ solve, F.solver? t = some solve
  /-- A solver finds solutions. -/
  solves : ∀ (t : Triangle ℝ) solve, t.Shaped → F.solver? t = some solve →
    ∀ r, r.length = t.length → (solve r).length = t.length ∧ t.mulVec (solve r) = r

namespace Factor

/-! ### The pivot -/

/-- The larger of the best entry so far and the next one. -/
noncomputable def larger (best : Option (ℝ × ℕ)) (e : ℝ × ℕ) : Option (ℝ × ℕ) :=
  match best with
  | none => if 0 < Scalar.abs e.1 then some e else none
  | some b => if Scalar.abs b.1 < Scalar.abs e.1 then some e else some b

/-- The pivot is found by going through the column once. -/
theorem largest?_eq_foldl (column : List ℝ) :
    largest? column = (column.zipIdx.foldl larger none).map Prod.snd := by
  unfold largest?
  congr 2
  funext best e
  cases best <;> rfl

/-- An entry that becomes the best one is not zero. -/
theorem ne_zero_of_larger {best : Option (ℝ × ℕ)} {e e' : ℝ × ℕ}
    (hbest : ∀ b, best = some b → b.1 ≠ 0) (h : larger best e = some e') :
    e'.1 ≠ 0 ∧ (best = some e' ∨ e' = e) := by
  unfold larger at h
  cases best with
  | none =>
    simp only [Scalar.abs_real] at h
    split at h
    · rename_i hpos
      obtain rfl := Option.some.inj h
      exact ⟨abs_pos.1 hpos, .inr rfl⟩
    · exact absurd h (by simp)
  | some b =>
    simp only [Scalar.abs_real] at h
    split at h
    · rename_i hlt
      obtain rfl := Option.some.inj h
      exact ⟨abs_pos.1 (lt_of_le_of_lt (abs_nonneg _) hlt), .inr rfl⟩
    · obtain rfl := Option.some.inj h
      exact ⟨hbest b rfl, .inl rfl⟩

/-- The best of several entries is one of them, or the best before them, and it is not zero. -/
theorem foldl_larger_eq_some {e : ℝ × ℕ} (l : List (ℝ × ℕ)) :
    ∀ {best : Option (ℝ × ℕ)}, (∀ b, best = some b → b.1 ≠ 0) →
      l.foldl larger best = some e → e.1 ≠ 0 ∧ (best = some e ∨ e ∈ l) := by
  induction l with
  | nil => exact fun hbest h => ⟨hbest e h, .inl h⟩
  | cons d l ih =>
    intro best hbest h
    obtain ⟨hne, hmem⟩ := ih (fun b hb => (ne_zero_of_larger hbest hb).1) h
    refine ⟨hne, ?_⟩
    rcases hmem with hd | hl
    · rcases (ne_zero_of_larger hbest hd).2 with hb | rfl
      · exact .inl hb
      · exact .inr List.mem_cons_self
    · exact .inr (List.mem_cons_of_mem _ hl)

/-- If there is no best entry then all are zero. -/
theorem foldl_larger_eq_none (l : List (ℝ × ℕ)) :
    ∀ {best : Option (ℝ × ℕ)}, l.foldl larger best = none →
      best = none ∧ ∀ e ∈ l, e.1 = 0 := by
  induction l with
  | nil => exact fun h => ⟨h, by simp⟩
  | cons d l ih =>
    intro best h
    obtain ⟨hd, hl⟩ := ih h
    cases best with
    | none =>
      refine ⟨rfl, ?_⟩
      intro e he
      rcases List.mem_cons.1 he with rfl | he
      · by_contra hne
        rw [larger, if_pos (by rw [Scalar.abs_real]; exact abs_pos.2 hne)] at hd
        exact absurd hd (by simp)
      · exact hl e he
    | some b =>
      rw [larger] at hd
      split at hd
      · exact absurd hd (by simp)
      · exact absurd hd (by simp)

/-- The pivot is an entry of the column, and not zero. -/
theorem getElem?_of_largest? {column : List ℝ} {i : ℕ} (h : largest? column = some i) :
    ∃ a, column[i]? = some a ∧ a ≠ 0 := by
  rw [largest?_eq_foldl] at h
  obtain ⟨e, he, rfl⟩ := Option.map_eq_some_iff.1 h
  obtain ⟨hne, hmem⟩ := foldl_larger_eq_some _ (by simp) he
  have hmem := hmem.resolve_left (by simp)
  exact ⟨e.1, List.mem_zipIdx_iff_getElem?.1 hmem, hne⟩

/-- Without a pivot the column is zero. -/
theorem eq_zero_of_largest? {column : List ℝ} (h : largest? column = none) :
    ∀ a ∈ column, a = 0 := by
  rw [largest?_eq_foldl, Option.map_eq_none_iff] at h
  intro a ha
  obtain ⟨i, hi, rfl⟩ := List.getElem_of_mem ha
  exact (foldl_larger_eq_none _ h).2 (column[i], i)
    (List.mem_zipIdx_iff_getElem?.2 (List.getElem?_eq_getElem hi))

/-! ### One unknown -/

/-- A product with a zero entry is zero in any case. -/
theorem timesEntry_real : (timesEntry : ℝ → ℝ → ℝ) = fun a b => a * b := by
  funext a b
  unfold timesEntry
  split
  · rename_i h
    rw [(Scalar.isZero_real a).1 h, zero_mul]
  · rfl

/-- A row less the multiple of the pivot row that removes its first unknown. -/
theorem reduce_cons {lead a : ℝ} {tail as : List ℝ} (h : as.length = tail.length) :
    reduce lead tail (a :: as) = (a / lead, Vec.sub as (Vec.scale (a / lead) tail)) := by
  rw [reduce]
  split
  · rename_i h0
    have hsc : (Vec.scale 0 tail).length = as.length := by rw [Vec.length_scale, h]
    rw [(Scalar.isZero_real a).1 h0, zero_div]
    refine congrArg (Prod.mk 0) (Vec.eq_of_coords_eq rfl (Vec.length_sub_of_eq rfl hsc) ?_)
    rw [Vec.coords_sub rfl hsc, Vec.coords_scale, zero_smul, sub_zero]
  · simp only [timesEntry_real, Vec.sub, Vec.scale, List.zipWith_map_right, mul_comm]

/-- The solution for the first unknown after those for the later ones. -/
theorem solve_cons (p : Pivot ℝ) (f : Factor ℝ) (rs : List ℝ) :
    solve (p :: f) rs =
      (rs[p.row]?.getD 0 - Vec.dot p.tail (solve f (Vec.sub (rs.eraseIdx p.row)
        (Vec.scale (rs[p.row]?.getD 0) p.multipliers)))) / p.lead ::
      solve f (Vec.sub (rs.eraseIdx p.row) (Vec.scale (rs[p.row]?.getD 0) p.multipliers)) := by
  simp only [solve, timesEntry_real, Vec.dot, Vec.sub, Vec.scale, List.zipWith_map_right, mul_comm]

/-- A row is its reduced row with the multiple of the pivot row that was taken away. -/
theorem dot_eq_of_reduce {n : ℕ} {lead x : ℝ} {tail r xs : List ℝ} (hlead : lead ≠ 0)
    (hr : r.length = n + 1) (htail : tail.length = n) (hxs : xs.length = n) :
    Vec.dot r (x :: xs) = Vec.dot (reduce lead tail r).2 xs +
      (reduce lead tail r).1 * Vec.dot (lead :: tail) (x :: xs) := by
  match r, hr with
  | a :: as, hr =>
    have has : as.length = n := Nat.succ.inj hr
    have hsc : (Vec.scale (a / lead) tail).length = n := by rw [Vec.length_scale, htail]
    rw [reduce_cons (has.trans htail.symm), Vec.dot_cons, Vec.dot_cons,
      Vec.dot_eq (Vec.length_sub_of_eq has hsc) hxs, Vec.coords_sub has hsc, Vec.coords_scale,
      sub_dotProduct, smul_dotProduct, ← Vec.dot_eq has hxs, ← Vec.dot_eq htail hxs, smul_eq_mul]
    have hmul : a / lead * (lead * x) = a * x := by field_simp
    linarith

/-- Without a first unknown a row is shorter by one. -/
theorem length_reduce {n : ℕ} {lead : ℝ} {tail r : List ℝ} (hr : r.length = n + 1)
    (htail : tail.length = n) : (reduce lead tail r).2.length = n := by
  match r, hr with
  | a :: as, hr =>
    have has : as.length = n := Nat.succ.inj hr
    rw [reduce_cons (has.trans htail.symm)]
    exact Vec.length_sub_of_eq has (by rw [Vec.length_scale, htail])

/-! ### All unknowns -/

/-- The first unknown is eliminated by a row in which it occurs, or it occurs in none. -/
theorem ofRows?_succ {n : ℕ} {rows : List (List ℝ)} (h : Square (n + 1) rows) :
    (ofRows? (n + 1) rows = none ∧ ∀ r ∈ rows, r.headD 0 = 0) ∨
    ∃ (i : ℕ) (lead : ℝ) (tail : List ℝ) (hi : i < rows.length),
      rows[i] = lead :: tail ∧ lead ≠ 0 ∧
      ofRows? (n + 1) rows =
        (ofRows? n ((rows.eraseIdx i).map fun r => (reduce lead tail r).2)).map
          (⟨i, lead, tail, (rows.eraseIdx i).map fun r => (reduce lead tail r).1⟩ :: ·) := by
  cases hp : largest? (rows.map fun r => r.headD 0) with
  | none =>
    refine .inl ⟨by rw [ofRows?, hp], fun r hr => ?_⟩
    exact eq_zero_of_largest? hp _ (List.mem_map_of_mem hr)
  | some i =>
    obtain ⟨a, ha, hne⟩ := getElem?_of_largest? hp
    rw [List.getElem?_map] at ha
    obtain ⟨r, hr, rfl⟩ := Option.map_eq_some_iff.1 ha
    obtain ⟨hi, rfl⟩ := List.getElem?_eq_some_iff.1 hr
    obtain ⟨lead, tail, hrow⟩ :=
      List.exists_cons_of_length_eq_add_one (h.width _ (List.getElem_mem hi))
    rw [hrow] at hne
    refine .inr ⟨i, lead, tail, hi, hrow, hne, ?_⟩
    rw [ofRows?, hp]
    simp only [hr, hrow, Option.getD_some, List.headD_cons, List.tail_cons, List.map_map]
    rfl

/-- The rows that are left are square again. -/
theorem square_reduced {n i : ℕ} {rows : List (List ℝ)} {lead : ℝ} {tail : List ℝ}
    (h : Square (n + 1) rows) (hi : i < rows.length) (hrow : rows[i] = lead :: tail) :
    tail.length = n ∧ Square n ((rows.eraseIdx i).map fun r => (reduce lead tail r).2) := by
  have htail : tail.length = n := by
    have := h.width _ (List.getElem_mem hi)
    rw [hrow] at this
    exact Nat.succ.inj this
  refine ⟨htail, ?_, ?_⟩
  · rw [List.length_map, List.length_eraseIdx_of_lt hi, h.height, Nat.add_sub_cancel]
  · intro s hs
    obtain ⟨r, hr, rfl⟩ := List.mem_map.1 hs
    exact length_reduce (h.width r (List.mem_of_mem_eraseIdx hr)) htail

/-- A system is solved if the pivot row is and all others are. -/
theorem map_eq_of_eraseIdx {i : ℕ} {rows : List (List ℝ)} {rs : List ℝ} {g : List ℝ → ℝ}
    (hi : i < rows.length) (hi' : i < rs.length) (hpivot : g rows[i] = rs[i])
    (hrest : (rows.eraseIdx i).map g = rs.eraseIdx i) : rows.map g = rs := by
  have him : i < (rows.map g).length := by rwa [List.length_map]
  rw [← List.insertIdx_eraseIdx_getElem hi', ← List.insertIdx_eraseIdx_getElem him,
    List.getElem_map, hpivot, ← hrest, List.eraseIdx_map]

/-- A solution of the reduced system that fits the pivot row solves the whole system. -/
theorem map_dot_of_reduced {n i : ℕ} {rows : List (List ℝ)} {rs xs tail : List ℝ} {lead x : ℝ}
    (h : Square (n + 1) rows) (hi : i < rows.length) (hrow : rows[i] = lead :: tail)
    (hlead : lead ≠ 0) (hi' : i < rs.length) (hrs : rs.length = n + 1) (hxs : xs.length = n)
    (hpivot : Vec.dot (lead :: tail) (x :: xs) = rs[i])
    (hreduced : (((rows.eraseIdx i).map fun r => (reduce lead tail r).2).map
        fun r => Vec.dot r xs) = Vec.sub (rs.eraseIdx i)
        (Vec.scale rs[i] ((rows.eraseIdx i).map fun r => (reduce lead tail r).1))) :
    (rows.map fun r => Vec.dot r (x :: xs)) = rs := by
  obtain ⟨htail, -⟩ := square_reduced h hi hrow
  refine map_eq_of_eraseIdx hi hi' (by rw [hrow]; exact hpivot) ?_
  apply List.ext_getElem
  · rw [List.length_map, List.length_eraseIdx_of_lt hi, List.length_eraseIdx_of_lt hi', h.height,
      hrs]
  · intro k hk hk'
    rw [List.length_map] at hk
    have hr := h.width _ (List.mem_of_mem_eraseIdx (List.getElem_mem hk))
    have hrk := congrArg (fun l => l[k]?) hreduced
    simp only [Vec.sub, Vec.scale, List.map_map, List.getElem?_map, List.getElem?_zipWith,
      List.getElem?_eq_getElem hk, List.getElem?_eq_getElem hk', Option.map_some,
      Function.comp_apply, Option.some.injEq] at hrk
    rw [List.getElem_map, dot_eq_of_reduce hlead hr htail hxs, hpivot, hrk]
    ring

/-- The solution of a factor solves the system that it was made from. -/
theorem solve_ofRows? {n : ℕ} {rows : List (List ℝ)} {f : Factor ℝ} (h : Square n rows)
    (hf : ofRows? n rows = some f) {rs : List ℝ} (hrs : rs.length = n) :
    (rows.map fun r => Vec.dot r (solve f rs)) = rs := by
  induction n generalizing rows f rs with
  | zero =>
    obtain rfl := Option.some.inj hf
    rw [List.eq_nil_of_length_eq_zero h.height, List.eq_nil_of_length_eq_zero hrs, List.map_nil]
  | succ n ih =>
    rcases ofRows?_succ h with ⟨hnone, -⟩ | ⟨i, lead, tail, hi, hrow, hlead, hstep⟩
    · rw [hnone] at hf
      exact absurd hf (by simp)
    · rw [hstep] at hf
      obtain ⟨f', hf', rfl⟩ := Option.map_eq_some_iff.1 hf
      obtain ⟨-, hsq⟩ := square_reduced h hi hrow
      have hi' : i < rs.length := by rw [hrs, ← h.height]; exact hi
      have herase : (rs.eraseIdx i).length = n := by
        rw [List.length_eraseIdx_of_lt hi', hrs, Nat.add_sub_cancel]
      have hmult : (Vec.scale rs[i] ((rows.eraseIdx i).map fun r => (reduce lead tail r).1)).length
          = n := by
        rw [Vec.length_scale, List.length_map, List.length_eraseIdx_of_lt hi, h.height,
          Nat.add_sub_cancel]
      rw [solve_cons]
      simp only [List.getElem?_eq_getElem hi', Option.getD_some]
      -- The later unknowns solve the reduced system, and the first one the pivot row.
      refine map_dot_of_reduced h hi hrow hlead hi' hrs
        (by rw [length_solve, length_of_ofRows? hf']) ?_
        (ih hsq hf' (Vec.length_sub_of_eq herase hmult))
      rw [Vec.dot_cons, mul_div_cancel₀ _ hlead, sub_add_cancel]

/-- If the first unknown occurs in no row then its unit vector is a null vector. -/
theorem map_dot_unit {n : ℕ} {rows : List (List ℝ)} (h : Square (n + 1) rows)
    (hzero : ∀ r ∈ rows, r.headD 0 = 0) :
    (rows.map fun r => Vec.dot r (1 :: Vec.zeros n)) = Vec.zeros (n + 1) := by
  refine List.eq_replicate_iff.2 ⟨by rw [List.length_map, h.height], fun b hb => ?_⟩
  obtain ⟨r, hr, rfl⟩ := List.mem_map.1 hb
  match r, h.width r hr, hzero r hr with
  | a :: as, hlen, ha =>
    rw [List.headD_cons] at ha
    rw [ha, Vec.dot_cons, Vec.dot_zeros (Nat.succ.inj hlen), zero_mul, add_zero]

/-- A null vector of the reduced system is the rest of one of the whole system. -/
theorem map_dot_null {n i : ℕ} {rows : List (List ℝ)} {xs tail : List ℝ} {lead : ℝ}
    (h : Square (n + 1) rows) (hi : i < rows.length) (hrow : rows[i] = lead :: tail)
    (hlead : lead ≠ 0) (hxs : xs.length = n)
    (hnull : (((rows.eraseIdx i).map fun r => (reduce lead tail r).2).map
      fun r => Vec.dot r xs) = Vec.zeros n) :
    (rows.map fun r => Vec.dot r (-Vec.dot tail xs / lead :: xs)) = Vec.zeros (n + 1) := by
  have hlen : (Vec.zeros (n + 1) : List ℝ).length = n + 1 := Vec.length_zeros _
  have hi' : i < (Vec.zeros (n + 1) : List ℝ).length := by rw [hlen, ← h.height]; exact hi
  have hget : (Vec.zeros (n + 1) : List ℝ)[i] = 0 := by simp [Vec.zeros]
  have herase : (Vec.zeros (n + 1) : List ℝ).eraseIdx i = Vec.zeros n := by
    rw [Vec.zeros, List.eraseIdx_replicate, if_pos (by rwa [hlen] at hi')]
    rfl
  have hmult :
      (Vec.scale 0 ((rows.eraseIdx i).map fun r => (reduce lead tail r).1)).length = n := by
    rw [Vec.length_scale, List.length_map, List.length_eraseIdx_of_lt hi, h.height,
      Nat.add_sub_cancel]
  refine map_dot_of_reduced h hi hrow hlead hi' hlen hxs ?_ ?_
  · rw [hget, Vec.dot_cons, mul_div_cancel₀ _ hlead, neg_add_cancel]
  · rw [hnull, herase, hget]
    apply Vec.eq_of_coords_eq (Vec.length_zeros n)
      (Vec.length_sub_of_eq (Vec.length_zeros n) hmult)
    rw [Vec.coords_sub (Vec.length_zeros n) hmult, Vec.coords_scale, zero_smul, sub_zero]

/-- A system whose only null vector is zero has a factor. -/
theorem isSome_ofRows? {n : ℕ} {rows : List (List ℝ)} (h : Square n rows)
    (hnull : ∀ x, x.length = n → (rows.map fun r => Vec.dot r x) = Vec.zeros n →
      x = Vec.zeros n) : ∃ f, ofRows? n rows = some f := by
  induction n generalizing rows with
  | zero => exact ⟨[], rfl⟩
  | succ n ih =>
    rcases ofRows?_succ h with ⟨-, hzero⟩ | ⟨i, lead, tail, hi, hrow, hlead, hstep⟩
    · have hunit := hnull (1 :: Vec.zeros n) (by simp) (map_dot_unit h hzero)
      exact absurd (List.head_eq_of_cons_eq hunit) one_ne_zero
    · obtain ⟨-, hsq⟩ := square_reduced h hi hrow
      have hreduced : ∀ xs, xs.length = n →
          (((rows.eraseIdx i).map fun r => (reduce lead tail r).2).map
            fun r => Vec.dot r xs) = Vec.zeros n → xs = Vec.zeros n := by
        intro xs hxs hred
        have hwhole := map_dot_null h hi hrow hlead hxs hred
        exact List.tail_eq_of_cons_eq (hnull _ (by rw [List.length_cons, hxs]) hwhole)
      obtain ⟨f, hf⟩ := ih hsq hreduced
      exact ⟨_, by rw [hstep, hf, Option.map_some]⟩

end Factor

/-- The elimination is an exact solver. -/
theorem Factorization.elimination_exact : (Factorization.elimination : Factorization ℝ).Exact where
  solvable t ht hnull := by
    obtain ⟨f, hf⟩ := Factor.isSome_ofRows? ht.square hnull
    exact ⟨Factor.solve f, congrArg (Option.map Factor.solve) hf⟩
  solves t solve ht hs r hr := by
    obtain ⟨f, hf, rfl⟩ := Option.map_eq_some_iff.1 hs
    exact ⟨by rw [Factor.length_solve, Factor.length_of_ofRows? hf],
      Factor.solve_ofRows? ht.square hf hr⟩

end RegPath
