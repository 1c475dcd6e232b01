import Mathlib.Algebra.GroupWithZero.Nat
import Mathlib.Data.List.Basic
import RegPath.CrossValidation.Workshop

namespace RegPath.CrossValidation

/-!
# Tasks that keep apart

Tasks that share a memory and overwrite none of what the others need: each of them is, at every
moment, on the way to the result that it has alone.  So the results do not depend on the turns that
are taken, and neither does whether the tasks come to an end.

* `Separation` — what has to be known of the tasks, one step at a time;
* `Workshop.Move`, `Workshop.move_of_turn?` — what a turn can be;
* `Workshop.Sound` — what every turn preserves, `Workshop.Sound.play?` along a whole sequence;
* `Workshop.gather_of_closed` — the results when all tasks are done;
* `Workshop.exists_turn`, `Workshop.Sound.length_add_le` — there is a turn until all are done, and
  there is an end to them.
-/

variable {κ μ τ ρ : Type}

/-- Tasks of which each has a result of its own, and overwrites nothing that another one needs.
    What a worker keeps of a task fits the task and the memory if it is on the way to the result,
    and two of them are apart if neither of them needs what the other one overwrites. -/
structure Separation (S : Sharing κ μ τ ρ) (finish : Nat → κ → ρ) where
  /-- On the way to the result of the task at a position. -/
  Fits : Nat → κ → μ → τ → Prop
  /-- Neither needs what the other one overwrites. -/
  Apart : τ → τ → Prop
  /-- How many steps a task can take. -/
  size : Nat → κ → Nat
  /-- How many of them are left. -/
  left : τ → Nat
  /-- Being apart is mutual. -/
  apart_symm : ∀ {t u}, Apart t u → Apart u t
  /-- A task that is begun is on its way. -/
  fits_enter : ∀ i k m, Fits i k (S.enter i k m).2 (S.enter i k m).1
  /-- The others stay on theirs. -/
  enter_fits : ∀ {i k m t} i' k', Fits i k m t → Fits i k (S.enter i' k' m).2 t
  /-- It is apart from them. -/
  enter_apart : ∀ {i k m t} i' k', Fits i k m t → Apart t (S.enter i' k' m).1
  /-- With a step a task stays on its way. -/
  fits_advance : ∀ {i k m t}, Fits i k m t → Fits i k (S.advance t m).2 (S.advance t m).1
  /-- The others stay on theirs. -/
  advance_fits : ∀ {i k m t i' k' u}, Fits i k m t → Apart t u → Fits i' k' m u →
    Fits i' k' (S.advance t m).2 u
  /-- It stays apart from them. -/
  advance_apart : ∀ {i k m t i' k' u}, Fits i k m t → Apart t u → Fits i' k' m u →
    Apart (S.advance t m).1 u
  /-- At the end of its way it has its result. -/
  result_eq : ∀ {i k m t}, Fits i k m t → S.ended t = true → S.result t m = finish i k
  /-- At first all steps are left. -/
  left_enter : ∀ i k m, left (S.enter i k m).1 ≤ size i k
  /-- A step that is taken is not left any more. -/
  left_advance : ∀ {i k m t}, Fits i k m t → S.ended t = false → left (S.advance t m).1 < left t

namespace Workshop

variable {S : Sharing κ μ τ ρ} {finish : Nat → κ → ρ} {workers : Nat} {w w' : Workshop κ μ τ ρ}

/-! ### Turns -/

/-- What a turn makes of a workshop. -/
inductive Move (S : Sharing κ μ τ ρ) (workers : Nat) (w : Workshop κ μ τ ρ) :
    Workshop κ μ τ ρ → Prop where
  /-- The first task that waits is begun. -/
  | enter (i : Nat) (job : κ) (waiting : List (Nat × κ))
      (hwaiting : w.waiting = (i, job) :: waiting) (hfree : w.under.length < workers) :
      Move S workers w { w with
        memory := (S.enter i job w.memory).2
        waiting := waiting
        under := w.under ++ [(i, (S.enter i job w.memory).1)] }
  /-- A task under way takes a step. -/
  | advance (before after : List (Nat × τ)) (i : Nat) (t : τ)
      (hunder : w.under = before ++ (i, t) :: after) (hended : S.ended t = false) :
      Move S workers w { w with
        memory := (S.advance t w.memory).2
        under := before ++ (i, (S.advance t w.memory).1) :: after }
  /-- A task under way that has ended is done. -/
  | leave (before after : List (Nat × τ)) (i : Nat) (t : τ)
      (hunder : w.under = before ++ (i, t) :: after) (hended : S.ended t = true) :
      Move S workers w { w with
        under := before ++ after
        done := w.done ++ [(i, S.result t w.memory)] }

/-- What is before a position, what is there, and what is after it. -/
theorem eq_take_append_cons_drop {β : Type} {l : List β} {k : Nat} {a : β} (h : l[k]? = some a) :
    l = l.take k ++ a :: l.drop (k + 1) := by
  obtain ⟨hlt, rfl⟩ := List.getElem?_eq_some_iff.1 h
  rw [← List.drop_eq_getElem_cons hlt, List.take_append_drop]

/-- There is no other turn. -/
theorem move_of_turn? {turn : Turn} (h : w.turn? S workers turn = some w') :
    Move S workers w w' := by
  cases turn with
  | enter =>
    cases hwaiting : w.waiting with
    | nil => simp [turn?, hwaiting] at h
    | cons p waiting =>
      obtain ⟨i, job⟩ := p
      by_cases hfree : w.under.length < workers
      · simp only [turn?, hwaiting, if_pos hfree, Option.some.injEq] at h
        exact h ▸ .enter i job waiting hwaiting hfree
      · simp [turn?, hwaiting, hfree] at h
  | advance k =>
    cases hk : w.under[k]? with
    | none => simp [turn?, hk] at h
    | some p =>
      obtain ⟨i, t⟩ := p
      cases hended : S.ended t with
      | true => simp [turn?, hk, hended] at h
      | false =>
        have hlt := (List.getElem?_eq_some_iff.1 hk).1
        simp only [turn?, hk, hended, Bool.false_eq_true, if_false, Option.some.injEq] at h
        rw [List.set_eq_take_append_cons_drop, if_pos hlt] at h
        exact h ▸ .advance _ _ i t (eq_take_append_cons_drop hk) hended
  | leave k =>
    cases hk : w.under[k]? with
    | none => simp [turn?, hk] at h
    | some p =>
      obtain ⟨i, t⟩ := p
      cases hended : S.ended t with
      | false => simp [turn?, hk, hended] at h
      | true =>
        simp only [turn?, hk, hended, if_true, Option.some.injEq] at h
        rw [List.eraseIdx_eq_take_drop_succ] at h
        exact h ▸ .leave _ _ i t (eq_take_append_cons_drop hk) hended

/-- Until all tasks are done there is a turn. -/
theorem exists_turn (hworkers : 1 ≤ workers) (hopen : ¬ w.Closed) :
    ∃ turn w', w.turn? S workers turn = some w' := by
  cases hunder : w.under with
  | cons p rest =>
    -- The first worker can go on; otherwise all workers are free.
    obtain ⟨i, t⟩ := p
    cases hended : S.ended t with
    | true => exact ⟨.leave 0, by simp [turn?, hunder, hended]⟩
    | false => exact ⟨.advance 0, by simp [turn?, hunder, hended]⟩
  | nil =>
    cases hwaiting : w.waiting with
    | nil => exact absurd ⟨hwaiting, hunder⟩ hopen
    | cons p rest =>
      refine ⟨.enter, ?_⟩
      have hfree : w.under.length < workers := by
        rw [hunder]
        exact hworkers
      simp [turn?, hwaiting, hfree]

/-! ### What every turn preserves -/

section Sound

variable {D : Separation S finish} {jobs : List κ}

/-- Every task is somewhere, and wherever it is, its result is the one that it has alone. -/
structure Sound (D : Separation S finish) (jobs : List κ) (w : Workshop κ μ τ ρ) : Prop where
  /-- What waits is a task as it was given. -/
  waiting : ∀ p ∈ w.waiting, jobs[p.1]? = some p.2
  /-- What is under way is on the way to the result of a task. -/
  under : ∀ p ∈ w.under, ∃ k, jobs[p.1]? = some k ∧ D.Fits p.1 k w.memory p.2
  /-- Any two tasks under way are apart. -/
  apart : w.under.Pairwise fun p q => D.Apart p.2 q.2
  /-- What is done has the result of a task. -/
  done : ∀ p ∈ w.done, ∃ k, jobs[p.1]? = some k ∧ p.2 = finish p.1 k
  /-- No task is lost, and none is there twice. -/
  all : (w.waiting.map Prod.fst ++ w.under.map Prod.fst ++ w.done.map Prod.fst).Perm
    (List.range jobs.length)

/-- How many turns are left at most. -/
def turnsLeft (D : Separation S finish) (w : Workshop κ μ τ ρ) : Nat :=
  (w.waiting.map fun p => D.size p.1 p.2 + 2).sum + (w.under.map fun p => D.left p.2 + 1).sum

/-- Before the first turn all is sound. -/
theorem sound_opening (D : Separation S finish) (jobs : List κ) (memory : μ) :
    Sound D jobs (opening jobs memory) where
  waiting p hp := by
    obtain ⟨i, hi, rfl⟩ := List.mem_mapIdx.1 hp
    exact List.getElem?_eq_getElem hi
  under p hp := absurd hp List.not_mem_nil
  apart := .nil
  done p hp := absurd hp List.not_mem_nil
  all := by
    have hnumbers : (jobs.mapIdx Prod.mk).map Prod.fst = List.range jobs.length :=
      List.ext_getElem (by simp) fun i hi hi' => by simp
    simp [opening, hnumbers]

/-- A task under way is on the way to its result, and so are all others, which are apart from it and
    from one another. -/
theorem Sound.middle (h : Sound D jobs w) {before after : List (Nat × τ)} {i : Nat} {t : τ}
    (hunder : w.under = before ++ (i, t) :: after) :
    (∃ k, jobs[i]? = some k ∧ D.Fits i k w.memory t) ∧
      (∀ p ∈ before ++ after, D.Apart t p.2 ∧
        ∃ k, jobs[p.1]? = some k ∧ D.Fits p.1 k w.memory p.2) ∧
      (before ++ after).Pairwise fun p q => D.Apart p.2 q.2 := by
  have hall := h.under
  have hapart := h.apart
  rw [hunder] at hall
  rw [hunder, List.pairwise_middle D.apart_symm, List.pairwise_cons] at hapart
  have hothers := ((List.sublist_cons_self (i, t) after).append_left before).subset
  exact ⟨hall (i, t) (List.mem_append_right before List.mem_cons_self),
    fun p hp => ⟨hapart.1 p hp, hall p (hothers hp)⟩, hapart.2⟩

/-- Beginning a task keeps a workshop sound. -/
theorem Sound.enter (h : Sound D jobs w) {i : Nat} {job : κ} {waiting : List (Nat × κ)}
    (hwaiting : w.waiting = (i, job) :: waiting) : Sound D jobs { w with
      memory := (S.enter i job w.memory).2
      waiting := waiting
      under := w.under ++ [(i, (S.enter i job w.memory).1)] } where
  waiting p hp := h.waiting p (hwaiting ▸ List.mem_cons_of_mem _ hp)
  under p hp := by
    rcases List.mem_append.1 hp with hold | hnew
    · obtain ⟨k, hk, hfits⟩ := h.under p hold
      exact ⟨k, hk, D.enter_fits i job hfits⟩
    · obtain rfl := List.mem_singleton.1 hnew
      exact ⟨job, h.waiting (i, job) (hwaiting ▸ List.mem_cons_self), D.fits_enter i job w.memory⟩
  apart := by
    refine List.pairwise_append.2 ⟨h.apart, List.pairwise_singleton _ _, fun p hp q hq => ?_⟩
    obtain rfl := List.mem_singleton.1 hq
    obtain ⟨k, -, hfits⟩ := h.under p hp
    exact D.enter_apart i job hfits
  done := h.done
  all := by
    -- Its position goes from the tasks that wait to the end of those under way.
    have hall := h.all
    rw [hwaiting] at hall
    refine List.Perm.trans ?_ hall
    simp only [List.map_append, List.map_cons, List.map_nil, List.append_assoc, List.cons_append,
      List.nil_append]
    rw [← List.append_assoc, ← List.append_assoc]
    exact List.perm_middle

/-- A step of a task keeps a workshop sound. -/
theorem Sound.advance (h : Sound D jobs w) {before after : List (Nat × τ)} {i : Nat} {t : τ}
    (hunder : w.under = before ++ (i, t) :: after) : Sound D jobs { w with
      memory := (S.advance t w.memory).2
      under := before ++ (i, (S.advance t w.memory).1) :: after } := by
  obtain ⟨⟨k, hk, hfits⟩, hothers, hpairwise⟩ := h.middle hunder
  refine ⟨h.waiting, fun p hp => ?_, ?_, h.done, ?_⟩
  · rcases List.mem_cons.1 (List.perm_middle.mem_iff.1 hp) with rfl | hp
    · exact ⟨k, hk, D.fits_advance hfits⟩
    · -- What another task needs is not overwritten.
      obtain ⟨hapart, k', hk', hfits'⟩ := hothers p hp
      exact ⟨k', hk', D.advance_fits hfits hapart hfits'⟩
  · -- Nor does the task begin to need what another one overwrites.
    refine (List.pairwise_middle D.apart_symm).2
      (List.pairwise_cons.2 ⟨fun p hp => ?_, hpairwise⟩)
    obtain ⟨hapart, k', -, hfits'⟩ := hothers p hp
    exact D.advance_apart hfits hapart hfits'
  · simpa only [hunder, List.map_append, List.map_cons] using h.all

/-- A task that is done keeps a workshop sound. -/
theorem Sound.leave (h : Sound D jobs w) {before after : List (Nat × τ)} {i : Nat} {t : τ}
    (hunder : w.under = before ++ (i, t) :: after) (hended : S.ended t = true) :
    Sound D jobs { w with
      under := before ++ after
      done := w.done ++ [(i, S.result t w.memory)] } := by
  obtain ⟨⟨k, hk, hfits⟩, hothers, hpairwise⟩ := h.middle hunder
  refine ⟨h.waiting, fun p hp => (hothers p hp).2, hpairwise, fun p hp => ?_, ?_⟩
  · rcases List.mem_append.1 hp with hold | hnew
    · exact h.done p hold
    · obtain rfl := List.mem_singleton.1 hnew
      exact ⟨k, hk, D.result_eq hfits hended⟩
  · -- Its position goes from those under way to the end of those that are done.
    have hall := h.all
    rw [hunder] at hall
    refine List.Perm.trans ?_ hall
    simp only [List.map_append, List.map_cons, List.map_nil, List.append_assoc, List.cons_append]
    refine .append_left _ (.append_left _ ?_)
    rw [← List.append_assoc]
    exact List.perm_append_singleton i _

/-- Every turn keeps a workshop sound. -/
theorem Sound.move (h : Sound D jobs w) (hmove : Move S workers w w') : Sound D jobs w' := by
  cases hmove with
  | enter i job waiting hwaiting hfree => exact h.enter hwaiting
  | advance before after i t hunder hended => exact h.advance hunder
  | leave before after i t hunder hended => exact h.leave hunder hended

/-- Every turn leaves fewer turns. -/
theorem Sound.turnsLeft_lt (h : Sound D jobs w) (hmove : Move S workers w w') :
    w'.turnsLeft D < w.turnsLeft D := by
  cases hmove with
  | enter i job waiting hwaiting hfree =>
    have hle := D.left_enter i job w.memory
    simp only [turnsLeft, hwaiting, List.map_append, List.map_cons, List.map_nil, List.sum_append,
      List.sum_cons, List.sum_nil]
    omega
  | advance before after i t hunder hended =>
    obtain ⟨⟨k, -, hfits⟩, -⟩ := h.middle hunder
    have hlt : D.left (S.advance t w.memory).1 < D.left t := D.left_advance hfits hended
    simp only [turnsLeft, hunder, List.map_append, List.map_cons, List.sum_append, List.sum_cons]
    omega
  | leave before after i t hunder hended =>
    simp only [turnsLeft, hunder, List.map_append, List.map_cons, List.sum_append, List.sum_cons]
    omega

/-- So does every sequence of turns, which is the shorter the fewer turns it leaves. -/
theorem Sound.play? {turns : List Turn} (h : Sound D jobs w)
    (hplay : w.play? S workers turns = some w') :
    Sound D jobs w' ∧ turns.length + w'.turnsLeft D ≤ w.turnsLeft D := by
  induction turns generalizing w with
  | nil =>
    obtain rfl := Option.some.inj hplay
    exact ⟨h, by simp⟩
  | cons turn rest ih =>
    cases hturn : w.turn? S workers turn with
    | none => simp [Workshop.play?, hturn] at hplay
    | some v =>
      simp only [Workshop.play?, hturn] at hplay
      have hmove := move_of_turn? hturn
      obtain ⟨hsound, hle⟩ := ih (h.move hmove) hplay
      have hlt := h.turnsLeft_lt hmove
      refine ⟨hsound, ?_⟩
      rw [List.length_cons]
      omega

/-- Turns can be taken in two parts. -/
theorem play?_append (first second : List Turn) :
    w.play? S workers (first ++ second) =
      (w.play? S workers first).bind fun v => v.play? S workers second := by
  induction first generalizing w with
  | nil => rfl
  | cons turn first ih =>
    cases hturn : w.turn? S workers turn with
    | none => simp [Workshop.play?, hturn]
    | some v => simpa [Workshop.play?, hturn] using ih

/-- Every sound workshop can be closed. -/
theorem Sound.exists_closed (hworkers : 1 ≤ workers) (h : Sound D jobs w) :
    ∃ turns w', w.play? S workers turns = some w' ∧ w'.Closed := by
  -- By the number of turns that are left: until the workshop is closed there is one.
  generalize hn : w.turnsLeft D = n
  induction n using Nat.strongRecOn generalizing w with
  | ind n ih =>
    by_cases hclosed : w.Closed
    · exact ⟨[], w, rfl, hclosed⟩
    · obtain ⟨turn, v, hturn⟩ := exists_turn (S := S) hworkers hclosed
      have hmove := move_of_turn? hturn
      obtain ⟨turns, w', hplay, hclosed'⟩ :=
        ih _ (hn ▸ h.turnsLeft_lt hmove) (h.move hmove) rfl
      exact ⟨turn :: turns, w', by simp only [Workshop.play?, hturn, hplay], hclosed'⟩

/-- When all tasks are done, their results are those that they have alone, in the order in which the
    tasks were given. -/
theorem Sound.gather_eq (h : Sound D jobs w) (hclosed : w.Closed) :
    w.gather jobs.length = jobs.mapIdx finish := by
  have hall : (w.done.map Prod.fst).Perm (List.range jobs.length) := by
    simpa [hclosed.1, hclosed.2] using h.all
  -- Whatever entry a position is found in, its result is the one of the task there.
  have hlookup : ∀ i (hi : i < jobs.length), List.lookup i w.done = some (finish i jobs[i]) := by
    intro i hi
    obtain ⟨p, hp, rfl⟩ := List.mem_map.1 (hall.mem_iff.2 (List.mem_range.2 hi))
    obtain ⟨r, hr⟩ := Option.isSome_iff_exists.1
      (List.lookup_isSome_iff.2 ⟨p, hp, beq_self_eq_true p.1⟩)
    obtain ⟨before, after, hdone, -⟩ := List.lookup_eq_some_iff.1 hr
    obtain ⟨k, hk, hresult⟩ := h.done (p.1, r) (by simp [hdone])
    obtain rfl : jobs[p.1] = k := (List.getElem?_eq_some_iff.1 hk).2
    rw [hr]
    exact congrArg some hresult
  have hmap : (List.range jobs.length).map (fun i => List.lookup i w.done) =
      (jobs.mapIdx finish).map some :=
    List.ext_getElem (by simp) fun i hi hi' => by
      rw [List.getElem_map, List.getElem_map, List.getElem_mapIdx, List.getElem_range, hlookup]
  calc w.gather jobs.length
      = ((List.range jobs.length).map fun i => List.lookup i w.done).filterMap id :=
        by rw [List.filterMap_map]; rfl
    _ = (jobs.mapIdx finish).filterMap some := by rw [hmap, List.filterMap_map]; rfl
    _ = jobs.mapIdx finish := List.filterMap_some

end Sound

end Workshop

end RegPath.CrossValidation
