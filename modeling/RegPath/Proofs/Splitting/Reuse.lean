import RegPath.Proofs.Splitting.Optimality

namespace RegPath

/-!
# Splitting engines that are used again

The engine keeps the factor of the last matrix that it factored, and takes it up again as long as the
calls are for the same object.  As long as every matrix can be factored this cannot be seen in what
the calls return.  A matrix that cannot be factored replaces the transpose but not the factor: until
another matrix is factored, a call for the object of the factor works with a transpose that belongs
to another matrix.

* `Engine.serve` — calls one after the other, with their record;
* `Admm.answer`, `Admm.Called` — the three things that a call can do;
* `Admm.lastFactored`, `Admm.lastTried` — the matrices of the record that the cache is made of;
* `Admm.Cache.Follows` — a cache that is made of them, which `Admm.follows_serve` shows of every
  cache;
* `Admm.Reused`, `Admm.Cache.Follows.reused` — the next call after any others;
* `Admm.outcomes_serve` — calls of an engine that factors every matrix.
-/

variable {α : Type} [Scalar α]

/-! ### Calls one after the other -/

/-- The state of the engine after the calls for some requests, one after the other, and the record of
    the calls with their replies. -/
def Engine.serve {σ : Type} (E : Engine α σ) (e : σ) (qs : List (Request α)) :
    σ × List (Request α × Reply α) :=
  qs.foldl (fun s q => (E.recorded.solve s q).2) (e, [])

/-- One more call. -/
@[simp] theorem Engine.serve_concat {σ : Type} (E : Engine α σ) (e : σ) (qs : List (Request α))
    (q : Request α) :
    E.serve e (qs ++ [q]) = ((E.solve (E.serve e qs).1 q).2,
      (E.serve e qs).2 ++ [(q, (E.solve (E.serve e qs).1 q).1)]) := by
  rw [Engine.serve, List.foldl_concat]
  rfl

/-- The record has an entry for each request. -/
@[simp] theorem Engine.map_fst_serve {σ : Type} (E : Engine α σ) (e : σ) (qs : List (Request α)) :
    (E.serve e qs).2.map Prod.fst = qs := by
  induction qs using List.reverseRecOn with
  | nil => rfl
  | append_singleton qs q ih => rw [serve_concat, List.map_append, ih, List.map_singleton]

/-- Whether the event tells of a matrix that was factored. -/
def Event.tellsFactored {β : Type} : Event β → Bool
  | .factored .. => true
  | _ => false

/-- The matrix was factored for the call. -/
def Reply.factored {β : Type} (r : Reply β) : Bool := r.events.any Event.tellsFactored

/-- The matrix of the call could not be factored. -/
def Reply.refused {β : Type} (r : Reply β) : Bool :=
  match r.outcome with
  | .error .singular => true
  | _ => false

/-- The outcome of a call whose matrix could not be factored. -/
theorem Reply.refused_iff {β : Type} {r : Reply β} :
    r.refused = true ↔ r.outcome = .error .singular := by
  unfold refused
  split
  · rename_i h
    simp [h]
  · rename_i h
    simp only [Bool.false_eq_true, false_iff]
    exact h

namespace Admm

variable {F : Factorization α} {S : Settings α} {c c' : Cache α} {q : Request α} {r : Reply α}
  {record : List (Request α × Reply α)}

/-! ### One call -/

/-- What a call returns that works with the kernel. -/
def answer (S : Settings α) (k : Kernel α) (q : Request α) : Except (Fault α) (Solution α) :=
  (judge k q).map fun guess => Task.run ⟨S, k, q.rowTerms, q.colTerms⟩ guess.1 guess.2

/-- Nothing is wrong with the matrix of a call that has a kernel. -/
theorem answer_ne_singular (S : Settings α) (k : Kernel α) (q : Request α) :
    answer S k q ≠ .error .singular := by
  unfold answer judge
  split
  · simp [Except.map]
  · split
    · simp [Except.map]
    · split
      · simp [Except.map]
      · split
        · simp [Except.map]
        · split <;> simp [Except.map]

/-- What a call does: the cache holds the factor of its object, or the matrix is factored, or it
    cannot be. -/
inductive Called (F : Factorization α) (S : Settings α) (c : Cache α) (q : Request α) :
    Reply α → Cache α → Prop where
  /-- The factor that is held belongs to the object. -/
  | held {r : Reply α} {solve : List α → List α} (factored : c.factored = some (q.design.key, solve))
      (outcome : r.outcome = answer S ⟨q.design.matrix, c.transpose, solve⟩ q)
      (quiet : r.factored = false) : Called F S c q r c
  /-- The matrix is factored, and its factor is held from now on. -/
  | factored {r : Reply α} {solve : List α → List α}
      (key : ∀ solve, c.factored ≠ some (q.design.key, solve))
      (solver : F.solver? q.design.matrix.normalTriangle = some solve)
      (outcome : r.outcome = answer S ⟨q.design.matrix, q.design.matrix.transpose, solve⟩ q)
      (told : r.factored = true) :
      Called F S c q r ⟨q.design.matrix.transpose, some (q.design.key, solve)⟩
  /-- The matrix cannot be factored, and the factor that is held stays. -/
  | refused {r : Reply α} (key : ∀ solve, c.factored ≠ some (q.design.key, solve))
      (solver : F.solver? q.design.matrix.normalTriangle = none)
      (outcome : r.outcome = .error .singular) (quiet : r.factored = false) :
      Called F S c q r { c with transpose := q.design.matrix.transpose }

/-- A call that has a kernel. -/
theorem solve_of_prepare (S : Settings α) {k : Kernel α} {events : List (Event α)}
    (h : c.prepare F q.design = (.ok k, events, c')) :
    ((engine F S).solve c q).1.outcome = answer S k q ∧
      ((engine F S).solve c q).1.factored = events.any Event.tellsFactored ∧
        ((engine F S).solve c q).2 = c' := by
  unfold answer
  cases hjudge : judge k q with
  | error f => simp [engine, h, hjudge, Except.map, Reply.factored]
  | ok guess => simp [engine, h, hjudge, Except.map, Reply.factored, Event.tellsFactored]

/-- There is nothing else that a call can do. -/
theorem engine_called (F : Factorization α) (S : Settings α) (c : Cache α) (q : Request α) :
    Called F S c q ((engine F S).solve c q).1 ((engine F S).solve c q).2 := by
  by_cases hheld : ∃ solve, c.factored = some (q.design.key, solve)
  · obtain ⟨solve, hsolve⟩ := hheld
    have hsome : c.factored.filter (fun e => e.1 = q.design.key) =
        some (q.design.key, solve) := by
      rw [hsolve]
      simp [Option.filter]
    have hprepare : c.prepare F q.design = (.ok ⟨q.design.matrix, c.transpose, solve⟩, [], c) := by
      simp only [Cache.prepare, hsome]
    obtain ⟨houtcome, hfactored, hcache⟩ := solve_of_prepare S hprepare
    rw [hcache]
    exact .held hsolve houtcome hfactored
  · have hkey : ∀ solve, c.factored ≠ some (q.design.key, solve) := fun solve h => hheld ⟨solve, h⟩
    have hnone : c.factored.filter (fun e => e.1 = q.design.key) = none := by
      rw [Option.filter_eq_none_iff]
      rintro ⟨key, solve⟩ hsome hk
      obtain rfl : key = q.design.key := of_decide_eq_true hk
      exact hkey solve hsome
    cases hsolver : F.solver? q.design.matrix.normalTriangle with
    | none =>
      have hprepare : c.prepare F q.design =
          (.error .singular, [], { c with transpose := q.design.matrix.transpose }) := by
        simp only [Cache.prepare, hnone, hsolver]
      simp only [engine, hprepare]
      exact .refused hkey hsolver rfl rfl
    | some solve =>
      have hprepare : c.prepare F q.design =
          (.ok ⟨q.design.matrix, q.design.matrix.transpose, solve⟩,
            [.factored q.design.matrix.cols (Triangle.nonzeros q.design.matrix.normalTriangle)],
            ⟨q.design.matrix.transpose, some (q.design.key, solve)⟩) := by
        simp only [Cache.prepare, hnone, hsolver]
      obtain ⟨houtcome, hfactored, hcache⟩ := solve_of_prepare S hprepare
      rw [hcache]
      exact .factored hkey hsolver houtcome hfactored

/-- Only a matrix whose factor is not held is factored. -/
theorem factored_iff (F : Factorization α) (S : Settings α) (c : Cache α) (q : Request α) :
    ((engine F S).solve c q).1.factored = true ↔
      (∀ solve, c.factored ≠ some (q.design.key, solve)) ∧
        (F.solver? q.design.matrix.normalTriangle).isSome := by
  have hcalled := engine_called F S c q
  generalize ((engine F S).solve c q).2 = c' at hcalled
  cases hcalled with
  | held hfactored houtcome hquiet => simp [hquiet, hfactored]
  | factored hkey hsolver houtcome htold => simp [htold, hkey, hsolver]
  | refused hkey hsolver houtcome hquiet => simp [hquiet, hsolver]

/-- Only a matrix whose factor is not held is refused. -/
theorem refused_iff (F : Factorization α) (S : Settings α) (c : Cache α) (q : Request α) :
    ((engine F S).solve c q).1.refused = true ↔
      (∀ solve, c.factored ≠ some (q.design.key, solve)) ∧
        F.solver? q.design.matrix.normalTriangle = none := by
  rw [Reply.refused_iff]
  have hcalled := engine_called F S c q
  generalize ((engine F S).solve c q).2 = c' at hcalled
  cases hcalled with
  | held hfactored houtcome => simp [houtcome, answer_ne_singular, hfactored]
  | factored hkey hsolver houtcome => simp [houtcome, answer_ne_singular, hsolver]
  | refused hkey hsolver houtcome => simp [houtcome, hkey, hsolver]

/-! ### Records of calls -/

/-- The matrix of the last call with such a reply. -/
def lastDesign (p : Reply α → Bool) (record : List (Request α × Reply α)) : Option (Design α) :=
  (record.reverse.find? fun call => p call.2).map fun call => call.1.design

/-- The last matrix that was factored. -/
def lastFactored (record : List (Request α × Reply α)) : Option (Design α) :=
  lastDesign Reply.factored record

/-- The last matrix that was to be factored, with or without success. -/
def lastTried (record : List (Request α × Reply α)) : Option (Design α) :=
  lastDesign (fun r => r.factored || r.refused) record

/-- One more call is the last one, if its reply is of the kind. -/
theorem lastDesign_concat (p : Reply α → Bool) (record : List (Request α × Reply α))
    (call : Request α × Reply α) :
    lastDesign p (record ++ [call]) =
      if p call.2 = true then some call.1.design else lastDesign p record := by
  unfold lastDesign
  rw [List.reverse_append, List.reverse_singleton, List.singleton_append, List.find?_cons]
  cases p call.2 <;> rfl

/-- The last matrix is the one of a call with such a reply. -/
theorem exists_of_lastDesign {p : Reply α → Bool} {d : Design α} (h : lastDesign p record = some d) :
    ∃ call ∈ record, p call.2 = true ∧ call.1.design = d := by
  obtain ⟨call, hfind, hdesign⟩ := Option.map_eq_some_iff.1 h
  exact ⟨call, List.mem_reverse.1 (List.mem_of_find?_eq_some hfind),
    List.find?_some (p := fun call : Request α × Reply α => p call.2) hfind, hdesign⟩

/-- Where no matrix was refused, the last one that was to be factored was factored. -/
theorem lastTried_eq_lastFactored (h : ∀ call ∈ record, call.2.refused = false) :
    lastTried record = lastFactored record := by
  unfold lastTried lastFactored lastDesign
  congr 1
  have hsame : ∀ l : List (Request α × Reply α), (∀ call ∈ l, call.2.refused = false) →
      (l.find? fun call => call.2.factored || call.2.refused) =
        l.find? fun call => call.2.factored := by
    intro l hl
    induction l with
    | nil => rfl
    | cons call l ih =>
      rw [List.find?_cons, List.find?_cons, hl call List.mem_cons_self, Bool.or_false,
        ih fun other hother => hl other (List.mem_cons_of_mem _ hother)]
  exact hsame _ fun call hcall => h call (List.mem_reverse.1 hcall)

/-- The cache holds the factor of the last matrix that was factored, and the transpose of the last
    that was to be. -/
structure Cache.Follows (F : Factorization α) (record : List (Request α × Reply α))
    (c : Cache α) : Prop where
  /-- Where no matrix was factored, no factor is held. -/
  empty : lastFactored record = none → c.factored = none
  /-- The factor belongs to the last matrix that was factored. -/
  factor : ∀ d, lastFactored record = some d →
    ∃ solve, F.solver? d.matrix.normalTriangle = some solve ∧ c.factored = some (d.key, solve)
  /-- The transpose belongs to the last matrix that was to be factored. -/
  transpose : ∀ t, lastTried record = some t → c.transpose = t.matrix.transpose

/-- Every call keeps it so. -/
theorem Cache.Follows.called (h : c.Follows F record) (hcall : Called F S c q r c') :
    c'.Follows F (record ++ [(q, r)]) := by
  cases hcall with
  | held hfactored houtcome hquiet =>
    have hrefused : r.refused = false := by
      rw [Bool.eq_false_iff, ne_eq, Reply.refused_iff, houtcome]
      exact answer_ne_singular S _ q
    constructor <;>
      simp only [lastFactored, lastTried, lastDesign_concat, hquiet, hrefused, Bool.or_self,
        Bool.false_eq_true, if_false]
    · exact h.empty
    · exact h.factor
    · exact h.transpose
  | @factored solve hkey hsolver houtcome htold =>
    constructor <;>
      simp only [lastFactored, lastTried, lastDesign_concat, htold, Bool.true_or, if_true,
        Option.some.injEq, reduceCtorEq, false_implies]
    · rintro d rfl
      exact ⟨solve, hsolver, rfl⟩
    · rintro t rfl
      rfl
  | refused hkey hsolver houtcome hquiet =>
    have hrefused : r.refused = true := Reply.refused_iff.2 houtcome
    constructor <;>
      simp only [lastFactored, lastTried, lastDesign_concat, hquiet, hrefused, Bool.or_true,
        Bool.false_eq_true, if_false, if_true, Option.some.injEq]
    · exact h.empty
    · exact h.factor
    · rintro t rfl
      rfl

/-- So it is after any calls of a fresh engine. -/
theorem follows_serve (F : Factorization α) (S : Settings α) (qs : List (Request α)) :
    ((engine F S).serve .empty qs).1.Follows F ((engine F S).serve .empty qs).2 := by
  induction qs using List.reverseRecOn with
  | nil =>
    constructor
    · exact fun _ => rfl
    · rintro d ⟨⟩
    · rintro t ⟨⟩
  | append_singleton qs q ih =>
    rw [Engine.serve_concat]
    exact ih.called (engine_called F S _ q)

/-- A matrix is refused only if it cannot be factored. -/
theorem solver?_of_refused {call : Request α × Reply α} (F : Factorization α) (S : Settings α)
    (qs : List (Request α)) (hcall : call ∈ ((engine F S).serve .empty qs).2)
    (h : call.2.refused = true) : F.solver? call.1.design.matrix.normalTriangle = none := by
  induction qs using List.reverseRecOn with
  | nil => cases hcall
  | append_singleton qs q ih =>
    rw [Engine.serve_concat, List.mem_append, List.mem_singleton] at hcall
    rcases hcall with hcall | rfl
    · exact ih hcall
    · exact ((refused_iff F S _ q).1 h).2

/-! ### The next call -/

/-- What a call returns that has its matrix factored. -/
def freshAnswer (F : Factorization α) (S : Settings α) (q : Request α) :
    Except (Fault α) (Solution α) :=
  (F.solver? q.design.matrix.normalTriangle).elim (.error .singular) fun solve =>
    answer S ⟨q.design.matrix, q.design.matrix.transpose, solve⟩ q

/-- Uses of one key are uses of one and the same matrix. -/
def SameObjects (qs : List (Request α)) : Prop :=
  ∀ q ∈ qs, ∀ q' ∈ qs, q.design.key = q'.design.key → q.design.matrix = q'.design.matrix

/-- Every call of the record is for one of the requests. -/
theorem mem_of_mem_serve {qs : List (Request α)} {call : Request α × Reply α}
    (h : call ∈ ((engine F S).serve .empty qs).2) : call.1 ∈ qs := by
  rw [← Engine.map_fst_serve (engine F S) .empty qs]
  exact List.mem_map_of_mem h

/-- The next request finds the objects of the record as they were. -/
theorem SameObjects.serve {qs : List (Request α)} (h : SameObjects (qs ++ [q])) :
    ∀ call ∈ ((engine F S).serve .empty qs).2, call.1.design.key = q.design.key →
      call.1.design.matrix = q.design.matrix :=
  fun _ hcall => h _ (List.mem_append_left _ (mem_of_mem_serve hcall)) _
    (List.mem_append_right _ List.mem_cons_self)

/-- What a call returns for an object whose factor is not held: the state of the engine has no part
    in it. -/
theorem outcome_of_not_held (S : Settings α)
    (h : ∀ solve, c.factored ≠ some (q.design.key, solve)) :
    ((engine F S).solve c q).1.outcome = freshAnswer F S q := by
  have hcalled := engine_called F S c q
  generalize ((engine F S).solve c q).2 = c' at hcalled
  unfold freshAnswer
  cases hcalled with
  | held hfactored => exact absurd hfactored (h _)
  | factored hkey hsolver houtcome => rw [houtcome, hsolver, Option.elim_some]
  | refused hkey hsolver houtcome => rw [houtcome, hsolver, Option.elim_none]

/-- What a call returns for an object whose factor is held: it works with the transpose that is
    held. -/
theorem outcome_of_held (S : Settings α) {solve : List α → List α}
    (h : c.factored = some (q.design.key, solve)) :
    ((engine F S).solve c q).1.outcome =
      answer S ⟨q.design.matrix, c.transpose, solve⟩ q := by
  have hcalled := engine_called F S c q
  generalize ((engine F S).solve c q).2 = c' at hcalled
  cases hcalled with
  | held hfactored houtcome =>
    obtain ⟨-, rfl⟩ := Prod.mk.inj (Option.some.inj (h.symm.trans hfactored))
    exact houtcome
  | factored hkey => exact absurd h (hkey _)
  | refused hkey => exact absurd h (hkey _)

/-- A fresh engine holds no factor. -/
theorem outcome_empty (F : Factorization α) (S : Settings α) (q : Request α) :
    ((engine F S).solve .empty q).1.outcome = freshAnswer F S q :=
  outcome_of_not_held S fun _ => by simp [Cache.empty]

/-- What the next call returns after a record of calls, next to what a fresh engine returns. -/
structure Reused (F : Factorization α) (S : Settings α) (record : List (Request α × Reply α))
    (c : Cache α) (q : Request α) : Prop where
  /-- It returns the same if the last matrix that was to be factored was factored. -/
  intact : lastTried record = lastFactored record →
    ((engine F S).solve c q).1.outcome = ((engine F S).solve .empty q).1.outcome
  /-- It returns the same if it is not for the object that was factored last. -/
  other : (∀ d, lastFactored record = some d → d.key ≠ q.design.key) →
    ((engine F S).solve c q).1.outcome = ((engine F S).solve .empty q).1.outcome
  /-- For that object it works with the transpose of the last matrix that was to be factored, where
      a fresh engine works with the object's own. -/
  held : ∀ d t, lastFactored record = some d → d.key = q.design.key → lastTried record = some t →
    ∃ solve, F.solver? q.design.matrix.normalTriangle = some solve ∧
      ((engine F S).solve c q).1.outcome =
        answer S ⟨q.design.matrix, t.matrix.transpose, solve⟩ q ∧
      ((engine F S).solve .empty q).1.outcome =
        answer S ⟨q.design.matrix, q.design.matrix.transpose, solve⟩ q

/-- A cache that holds the factor of the object holds the one that a fresh engine would make. -/
theorem Cache.Follows.exists_of_held {solve : List α → List α} (h : c.Follows F record)
    (hheld : c.factored = some (q.design.key, solve))
    (hobjects : ∀ call ∈ record, call.1.design.key = q.design.key →
      call.1.design.matrix = q.design.matrix) :
    ∃ d, lastFactored record = some d ∧ d.key = q.design.key ∧ d.matrix = q.design.matrix ∧
      F.solver? q.design.matrix.normalTriangle = some solve := by
  cases hlast : lastFactored record with
  | none => cases (h.empty hlast).symm.trans hheld
  | some d =>
    obtain ⟨solve', hsolver, hfactored⟩ := h.factor d hlast
    obtain ⟨hkey, rfl⟩ := Prod.mk.inj (Option.some.inj (hfactored.symm.trans hheld))
    obtain ⟨call, hcall, -, rfl⟩ := exists_of_lastDesign hlast
    have hmatrix := hobjects call hcall hkey
    exact ⟨_, rfl, hkey, hmatrix, hmatrix ▸ hsolver⟩

/-- A cache that follows the record decides the next call in this way. -/
theorem Cache.Follows.reused (h : c.Follows F record) (S : Settings α)
    (hobjects : ∀ call ∈ record, call.1.design.key = q.design.key →
      call.1.design.matrix = q.design.matrix) : Reused F S record c q := by
  -- Whether the factor of the object is held decides all three.
  by_cases hheld : ∃ solve, c.factored = some (q.design.key, solve)
  · obtain ⟨solve, hheld⟩ := hheld
    obtain ⟨d, hlast, hkey, hmatrix, hsolver⟩ := h.exists_of_held hheld hobjects
    have houtcome := outcome_of_held (F := F) S hheld
    have hfresh : ((engine F S).solve .empty q).1.outcome =
        answer S ⟨q.design.matrix, q.design.matrix.transpose, solve⟩ q := by
      rw [outcome_empty, freshAnswer, hsolver, Option.elim_some]
    refine ⟨fun htried => ?_, fun hother => absurd hkey (hother d hlast),
      fun d' t _ _ ht => ⟨solve, hsolver, ?_, hfresh⟩⟩
    · rw [houtcome, hfresh, h.transpose d (htried.trans hlast), hmatrix]
    · rw [houtcome, h.transpose t ht]
  · have hnot : ∀ solve, c.factored ≠ some (q.design.key, solve) := fun solve h => hheld ⟨solve, h⟩
    have houtcome : ((engine F S).solve c q).1.outcome =
        ((engine F S).solve .empty q).1.outcome := by
      rw [outcome_of_not_held S hnot, outcome_empty]
    refine ⟨fun _ => houtcome, fun _ => houtcome, fun d t hlast hkey _ => ?_⟩
    obtain ⟨solve, -, hfactored⟩ := h.factor d hlast
    exact absurd (hkey ▸ hfactored) (hnot solve)

/-! ### Engines that factor every matrix -/

/-- As long as every matrix can be factored, each call returns what a fresh engine returns. -/
theorem outcomes_serve (F : Factorization α) (S : Settings α) {qs : List (Request α)}
    (hobjects : SameObjects qs)
    (hsolver : ∀ q ∈ qs, (F.solver? q.design.matrix.normalTriangle).isSome) :
    ((engine F S).serve .empty qs).2.map (fun call => call.2.outcome) =
      qs.map fun q => ((engine F S).solve .empty q).1.outcome := by
  induction qs using List.reverseRecOn with
  | nil => rfl
  | append_singleton qs q ih =>
    have hearlier := ih (fun a ha b hb => hobjects a (List.mem_append_left _ ha) b
      (List.mem_append_left _ hb)) fun a ha => hsolver a (List.mem_append_left _ ha)
    have hrefused : ∀ call ∈ ((engine F S).serve .empty qs).2, call.2.refused = false := by
      intro call hcall
      rw [Bool.eq_false_iff]
      intro h
      have hsome := hsolver _ (List.mem_append_left _ (mem_of_mem_serve hcall))
      rw [solver?_of_refused F S qs hcall h] at hsome
      cases hsome
    rw [Engine.serve_concat, List.map_append, List.map_append, hearlier, List.map_singleton,
      List.map_singleton,
      ((follows_serve F S qs).reused S hobjects.serve).intact
        (lastTried_eq_lastFactored hrefused)]

/-! ### Two matrices of a single number -/

/-- The number one as a matrix. -/
noncomputable def one : Design ℝ := ⟨0, .identity 1⟩

/-- The number two as a matrix. -/
noncomputable def two : Design ℝ where
  key := 1
  matrix :=
    { cols := 1
      rows := [[(0, 1 + 1)]]
      inBounds := by simp }

/-- The terms `(y - a)² / 2` and `|x - a|` on a matrix of a single number, with the guess `a`. -/
noncomputable def centred (d : Design ℝ) (a : ℝ) : Request ℝ :=
  { single (.unit .square a) (.unit .abs a) a with design := d }

/-- Calls for both matrices in turn, one of them with a guess that is too long. -/
noncomputable def turns : List (Request ℝ) :=
  [centred one 0, centred two 1, { centred one 1 with x := [1, 1] }, centred one 1]

/-- The keys tell the two matrices apart. -/
theorem sameObjects_of_one_or_two {qs : List (Request ℝ)}
    (h : ∀ q ∈ qs, q.design = one ∨ q.design = two) : SameObjects qs := by
  intro q hq q' hq' hkey
  rcases h q hq with hd | hd
  · rcases h q' hq' with hd' | hd'
    · rw [hd, hd']
    · rw [hd, hd'] at hkey
      cases hkey
  · rcases h q' hq' with hd' | hd'
    · rw [hd, hd'] at hkey
      cases hkey
    · rw [hd, hd']

/-- Calls in turn return what fresh engines return. -/
theorem outcomes_serve_turns :
    SameObjects turns ∧
      (∀ q ∈ turns,
        (Factorization.elimination.solver? q.design.matrix.normalTriangle).isSome) ∧
      ((engine .elimination (.plain 0 1 le_rfl one_pos)).serve .empty turns).2.map
          (fun call => call.2.outcome) =
        turns.map fun q =>
          ((engine .elimination (.plain 0 1 le_rfl one_pos)).solve .empty q).1.outcome := by
  have hobjects : SameObjects turns :=
    sameObjects_of_one_or_two (by simp [turns, centred])
  have hsolver : ∀ q ∈ turns,
      (Factorization.elimination.solver? q.design.matrix.normalTriangle).isSome := by
    intro q _
    obtain ⟨solve, hsolve, -⟩ := q.design.matrix.solve_normal Factorization.elimination_exact
    rw [hsolve, Option.isSome_some]
  exact ⟨hobjects, hsolver, outcomes_serve _ _ hobjects hsolver⟩

end Admm

end RegPath
