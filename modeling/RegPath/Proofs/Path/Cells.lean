import RegPath.Proofs.Path.Moves
import RegPath.Path.Cells

namespace RegPath.Path

/-!
# Walks over shared vectors

A walk over cells is the walk that its cells hold.  Of all cells it overwrites only those of `x` and
`y`, and it keeps what it needs later in copies, which are different cells.  So it does not matter
whether the engine hands back new cells or the ones it was given, and cells that do not belong to
the walk stay as they are.

* `Cells.Spares` — cells that are added to and of which only some are overwritten;
* `Handing.placed` — where an engine puts its vectors;
* `CellWalk.Separate` — the cells of a walk are there, and the copies are none of the two that are
  overwritten;
* `CellWalk.Owns`, `CellWalk.Follows` — the cells of a walk, and a walk that goes on with them;
* `CellWalk.Becomes` — a walk over cells that has gone on as the walk that they hold, with
  `CellWalk.becomes_step` for one step;
* `CellWalk.startIn` beside other cells: `CellWalk.separate_startIn`, `CellWalk.view_startIn`.
-/

variable {α : Type}

/-! ### Cells -/

namespace Cells

/-- The cells `c'` are the cells `c` and more, and only some of them have been overwritten. -/
structure Spares (c c' : Cells α) (own : Nat → Prop) : Prop where
  /-- No cell is lost. -/
  length_le : c.contents.length ≤ c'.contents.length
  /-- The others hold what they held. -/
  read_eq : ∀ i, i < c.contents.length → ¬ own i → c'.read i = c.read i

variable {c c' : Cells α}

/-- Nothing is overwritten if nothing happens. -/
theorem Spares.refl (c : Cells α) (own : Nat → Prop) : c.Spares c own :=
  ⟨Nat.le_refl _, fun _ _ _ => rfl⟩

/-- What is overwritten later may be new, or be one of those that were overwritten before. -/
theorem Spares.trans {c'' : Cells α} {own own' : Nat → Prop} (h : c.Spares c' own)
    (h' : c'.Spares c'' own') (hown : ∀ i, i < c.contents.length → own' i → own i) :
    c.Spares c'' own where
  length_le := Nat.le_trans h.length_le h'.length_le
  read_eq i hi hn := by
    rw [h'.read_eq i (Nat.lt_of_lt_of_le hi h.length_le) fun hown' => hn (hown i hi hown'),
      h.read_eq i hi hn]

/-- A new cell is there. -/
theorem length_add (c : Cells α) (v : List α) :
    (c.add v).1.contents.length = c.contents.length + 1 := by
  simp [add]

/-- A new cell overwrites nothing. -/
theorem spares_add (c : Cells α) (v : List α) (own : Nat → Prop) : c.Spares (c.add v).1 own where
  length_le := by
    rw [length_add]
    exact Nat.le_succ _
  read_eq i hi _ := read_add_of_lt c v hi

/-- Overwriting adds no cell. -/
theorem length_write (c : Cells α) (i : Nat) (v : List α) :
    (c.write i v).contents.length = c.contents.length := by
  simp [write]

/-- Only the cell that is overwritten changes. -/
theorem spares_write (c : Cells α) {i : Nat} (v : List α) {own : Nat → Prop} (hi : own i) :
    c.Spares (c.write i v) own where
  length_le := Nat.le_of_eq (length_write c i v).symm
  read_eq _ _ hn := read_write_of_ne c v fun he => hn (he ▸ hi)

end Cells

/-- Where an engine has put its vectors. -/
structure Handing.Placed (c : Cells α) (xCell yCell : Nat) (x y : List α)
    (r : Cells α × Nat × Nat) : Prop where
  /-- The cell of `x` is there. -/
  x_lt : r.2.1 < r.1.contents.length
  /-- The cell of `y` is there. -/
  y_lt : r.2.2 < r.1.contents.length
  /-- They are two. -/
  ne : r.2.1 ≠ r.2.2
  /-- The first holds `x`. -/
  read_x : r.1.read r.2.1 = x
  /-- The second holds `y`. -/
  read_y : r.1.read r.2.2 = y
  /-- Only the cells of the guess have been overwritten. -/
  spares : c.Spares r.1 fun i => i = xCell ∨ i = yCell
  /-- The first is that of the guess, or a new one. -/
  x_mem : r.2.1 = xCell ∨ c.contents.length ≤ r.2.1
  /-- So is the second. -/
  y_mem : r.2.2 = yCell ∨ c.contents.length ≤ r.2.2

/-- New cells or the cells of the guess: both hold what the engine has found. -/
theorem Handing.placed (handing : Handing) {c : Cells α} {xCell yCell : Nat}
    (hx : xCell < c.contents.length) (hy : yCell < c.contents.length) (hne : xCell ≠ yCell)
    (x y : List α) : Placed c xCell yCell x y (handing.place c xCell yCell x y) := by
  cases handing with
  | fresh =>
    have hlen := Cells.length_add c x
    have hlen' := Cells.length_add (c.add x).1 y
    have hread : ((c.add x).1.add y).1.read c.contents.length = x := by
      rw [Cells.read_add_of_lt _ y (by omega)]
      exact Cells.read_add c x
    exact {
      x_lt := show c.contents.length < ((c.add x).1.add y).1.contents.length by omega
      y_lt := show (c.add x).1.contents.length < ((c.add x).1.add y).1.contents.length by omega
      ne := show c.contents.length ≠ (c.add x).1.contents.length by omega
      read_x := hread
      read_y := Cells.read_add _ y
      spares := (Cells.spares_add c x _).trans (Cells.spares_add _ y fun _ => False)
        fun _ _ hfalse => hfalse.elim
      x_mem := .inr (Nat.le_refl _)
      y_mem := .inr (show c.contents.length ≤ (c.add x).1.contents.length by omega) }
  | inPlace =>
    have hlen := Cells.length_write c xCell x
    have hlen' := Cells.length_write (c.write xCell x) yCell y
    have hread : ((c.write xCell x).write yCell y).read xCell = x := by
      rw [Cells.read_write_of_ne _ y hne.symm, Cells.read_write_self c x hx]
    exact {
      x_lt := show xCell < ((c.write xCell x).write yCell y).contents.length by omega
      y_lt := show yCell < ((c.write xCell x).write yCell y).contents.length by omega
      ne := hne
      read_x := hread
      read_y := Cells.read_write_self _ y (by omega)
      spares := (Cells.spares_write c x (.inl rfl)).trans
        (Cells.spares_write _ y (.inr rfl)) fun _ _ => id
      x_mem := .inl rfl
      y_mem := .inl rfl }

/-! ### The cells of a walk -/

variable [Scalar α] {σ : Type}

namespace CellWalk

variable {w w' : CellWalk α σ}

/-- The cells of the copies: the iterate to compare with, and the solutions so far. -/
def kept (w : CellWalk α σ) : List Nat := w.previous :: w.points.map CellPoint.x

/-- The cells of a walk: the two that are overwritten, and those of the copies. -/
def Owns (w : CellWalk α σ) (i : Nat) : Prop := i = w.x ∨ i = w.y ∨ i ∈ w.kept

/-- All cells of a walk are there, and no other name stands for one that is overwritten. -/
structure Separate (w : CellWalk α σ) : Prop where
  /-- The cell of `x` is there. -/
  x_lt : w.x < w.cells.contents.length
  /-- The cell of `y` is there. -/
  y_lt : w.y < w.cells.contents.length
  /-- They are two. -/
  ne : w.x ≠ w.y
  /-- The copies are there. -/
  kept_lt : ∀ i ∈ w.kept, i < w.cells.contents.length
  /-- They are not the cell of `x`. -/
  kept_ne_x : ∀ i ∈ w.kept, i ≠ w.x
  /-- Nor are they the cell of `y`. -/
  kept_ne_y : ∀ i ∈ w.kept, i ≠ w.y

/-- A walk goes on with its cells and new ones, and leaves the others as they are. -/
structure Follows (w w' : CellWalk α σ) : Prop where
  /-- What does not belong to the walk stays. -/
  spares : w.cells.Spares w'.cells w.Owns
  /-- What belongs to it later did so before, or is new. -/
  owns : ∀ i, w'.Owns i → w.Owns i ∨ w.cells.contents.length ≤ i

/-- What goes on with the cells of a walk that has gone on goes on with the cells of the first. -/
theorem Follows.trans {w'' : CellWalk α σ} (h : Follows w w') (h' : Follows w' w'') :
    Follows w w'' := by
  refine ⟨h.spares.trans h'.spares fun i hi hown => ?_, fun i hi => ?_⟩
  · exact (h.owns i hown).resolve_right (Nat.not_le.2 hi)
  · rcases h'.owns i hi with hown | hnew
    · exact h.owns i hown
    · exact .inr (Nat.le_trans h.spares.length_le hnew)

/-- Every cell of a separate walk is there. -/
theorem Separate.lt_of_owns (h : w.Separate) {i : Nat} (hi : w.Owns i) :
    i < w.cells.contents.length := by
  rcases hi with rfl | rfl | hi
  · exact h.x_lt
  · exact h.y_lt
  · exact h.kept_lt i hi

/-- With a new cell, that may be one of a copy, a walk stays separate and goes on. -/
theorem Separate.add (h : w.Separate) (v : List α) (u : CellWalk α σ)
    (hcells : u.cells = (w.cells.add v).1)
    (hx : u.x = w.x) (hy : u.y = w.y)
    (hkept : ∀ i ∈ u.kept, i ∈ w.kept ∨ i = w.cells.contents.length) :
    u.Separate ∧ Follows w u := by
  have hlen : u.cells.contents.length = w.cells.contents.length + 1 := by
    rw [hcells, Cells.length_add]
  have hx_lt := h.x_lt
  have hy_lt := h.y_lt
  refine ⟨⟨by omega, by omega, by rw [hx, hy]; exact h.ne, fun i hi => ?_, fun i hi => ?_,
    fun i hi => ?_⟩, ?_, fun i hi => ?_⟩
  -- A cell that is new has a number that none of the others has.
  · rcases hkept i hi with hold | rfl
    · exact hlen ▸ Nat.lt_succ_of_lt (h.kept_lt i hold)
    · omega
  · rcases hkept i hi with hold | rfl
    · exact hx ▸ h.kept_ne_x i hold
    · omega
  · rcases hkept i hi with hold | rfl
    · exact hy ▸ h.kept_ne_y i hold
    · omega
  · rw [hcells]
    exact Cells.spares_add _ v _
  · rcases hi with rfl | rfl | hi
    · exact .inl (.inl hx)
    · exact .inl (.inr (.inl hy))
    · exact (hkept i hi).imp (fun hold => .inr (.inr hold)) fun hnew => Nat.le_of_eq hnew.symm

/-- Cells that do not belong to a walk may be overwritten, and any cells may be added. -/
theorem Separate.withCells (h : w.Separate) {c : Cells α} {own : Nat → Prop}
    (hspares : w.cells.Spares c own) : ({ w with cells := c } : CellWalk α σ).Separate where
  x_lt := Nat.lt_of_lt_of_le h.x_lt hspares.length_le
  y_lt := Nat.lt_of_lt_of_le h.y_lt hspares.length_le
  ne := h.ne
  kept_lt i hi := Nat.lt_of_lt_of_le (h.kept_lt i hi) hspares.length_le
  kept_ne_x := h.kept_ne_x
  kept_ne_y := h.kept_ne_y

/-- The walk that the cells hold is the same then. -/
theorem Separate.view_withCells (h : w.Separate) {c : Cells α} {own : Nat → Prop}
    (hspares : w.cells.Spares c own) (hown : ∀ i, w.Owns i → ¬ own i) :
    ({ w with cells := c } : CellWalk α σ).view = w.view := by
  have hread : ∀ i, w.Owns i → c.read i = w.cells.read i := fun i hi =>
    hspares.read_eq i (h.lt_of_owns hi) (hown i hi)
  have hx := hread w.x (.inl rfl)
  have hy := hread w.y (.inr (.inl rfl))
  have hprevious := hread w.previous (.inr (.inr List.mem_cons_self))
  have hpoints : ∀ p ∈ w.points, c.read p.x = w.cells.read p.x := fun p hp =>
    hread p.x (.inr (.inr (List.mem_cons_of_mem _ (List.mem_map_of_mem hp))))
  simp only [view, present, hx, hy, hprevious, Walk.mk.injEq, true_and, and_true]
  exact List.map_congr_left fun p hp => by rw [hpoints p hp]

/-! ### Steps -/

/-- The walk `w'` has become of `w`, and holds the walk `v`. -/
structure Becomes (w w' : CellWalk α σ) (v : Walk α σ) : Prop where
  /-- It is separate. -/
  separate : w'.Separate
  /-- It goes on with the cells of `w`. -/
  follows : Follows w w'
  /-- Its cells hold `v`. -/
  view_eq : w'.view = v

namespace Becomes

variable {v : Walk α σ}

/-- A separate walk holds its walk. -/
theorem refl (h : w.Separate) : Becomes w w w.view :=
  ⟨h, ⟨.refl _ _, fun _ hi => .inl hi⟩, rfl⟩

/-- The events, the exit and the state of the engine are in no cell. -/
theorem relabel (h : Becomes w w' v) (engine : σ) (events : List (Event α))
    (exit : Option (Exit α)) :
    Becomes w { w' with engine := engine, events := events, exit := exit }
      { v with engine := engine, events := events, exit := exit } where
  separate := { h.separate with }
  follows := ⟨h.follows.spares, h.follows.owns⟩
  view_eq := by
    rw [← h.view_eq]
    rfl

/-- Nor are the terms of the columns. -/
theorem rescale (h : Becomes w w' v) (colTerms : List (Term α)) :
    Becomes w { w' with problem := { w'.problem with colTerms := colTerms } }
      { v with problem := { v.problem with colTerms := colTerms } } where
  separate := { h.separate with }
  follows := ⟨h.follows.spares, h.follows.owns⟩
  view_eq := by
    rw [← h.view_eq]
    rfl

end Becomes

/-- The walk after a copy of the solution has been kept. -/
def noted (w : CellWalk α σ) (step : Nat) (lam : α) (status : Status) (iterations : Nat) :
    CellWalk α σ :=
  { w with
    cells := (w.cells.copy w.x).1
    points := w.points ++ [⟨step, lam, (w.cells.copy w.x).2, status, iterations⟩] }

/-- The walk after the solution has been copied to compare the next one with. -/
def remembered (w : CellWalk α σ) : CellWalk α σ :=
  { w with cells := (w.cells.copy w.x).1, previous := (w.cells.copy w.x).2 }

/-- A copy holds the same as what is copied, and the others hold what they held. -/
theorem view_copied (h : w.Separate) :
    (w.cells.copy w.x).1.read (w.cells.copy w.x).2 = (w.cells.copy w.x).1.read w.x ∧
      ({ w with cells := (w.cells.copy w.x).1 } : CellWalk α σ).view = w.view := by
  have hspares : w.cells.Spares (w.cells.copy w.x).1 fun _ => False := Cells.spares_add _ _ _
  refine ⟨?_, h.view_withCells hspares fun _ _ => id⟩
  exact (Cells.read_add _ _).trans (Cells.read_add_of_lt _ _ h.x_lt).symm

/-- What is kept of a step holds the solution. -/
theorem becomes_noted {v : Walk α σ} (h : Becomes w w' v) (step : Nat) (lam : α) (status : Status)
    (iterations : Nat) : Becomes w (w'.noted step lam status iterations)
      { v with points := v.points ++ [⟨step, lam, v.problem.x, status, iterations⟩] } := by
  obtain ⟨hseparate, hfollows, rfl⟩ := h
  have hadd := hseparate.add (w'.cells.read w'.x) (w'.noted step lam status iterations)
    rfl rfl rfl fun i hi => by
      simp only [kept, noted, List.map_append, List.map_cons, List.map_nil, List.mem_cons,
        List.mem_append, List.not_mem_nil, or_false] at hi ⊢
      rcases hi with hi | hi | hi
      · exact .inl (.inl hi)
      · exact .inl (.inr hi)
      · exact .inr hi
  refine ⟨hadd.1, hfollows.trans hadd.2, ?_⟩
  obtain ⟨hread, hview⟩ := view_copied hseparate
  rw [← hview, view, noted, List.map_append]
  simp only [List.map_cons, List.map_nil, hread]
  rfl

/-- What the next step is compared with holds the solution. -/
theorem becomes_remembered {v : Walk α σ} (h : Becomes w w' v) :
    Becomes w w'.remembered { v with previous := v.problem.x } := by
  obtain ⟨hseparate, hfollows, rfl⟩ := h
  have hadd := hseparate.add (w'.cells.read w'.x) w'.remembered rfl rfl rfl
    fun i hi => by
      simp only [kept, remembered, List.mem_cons] at hi ⊢
      rcases hi with hi | hi
      · exact .inr hi
      · exact .inl (.inr hi)
  refine ⟨hadd.1, hfollows.trans hadd.2, ?_⟩
  obtain ⟨hread, hview⟩ := view_copied hseparate
  rw [← hview, view, remembered]
  simp only [hread]
  rfl

/-- A solution in the cells of the problem is kept as a solution is. -/
theorem becomes_keep {v : Walk α σ} (h : Becomes w w' v) (plan : Plan α σ) (step : Nat) (lam : α)
    (status : Status) (iterations : Nat) :
    Becomes w (w'.keep plan step lam status iterations)
      (v.keep plan step lam ⟨v.problem.x, v.problem.y, status, iterations⟩) := by
  have hnoted := fun events exit =>
    (becomes_noted h step lam status iterations).relabel v.engine events exit
  obtain ⟨hseparate, hfollows, rfl⟩ := h
  obtain ⟨-, hcopied⟩ := view_copied hseparate
  have hx : (w'.cells.copy w'.x).1.read w'.x = w'.view.problem.x :=
    congrArg (fun v => v.problem.x) hcopied
  have hprevious : (w'.cells.copy w'.x).1.read w'.previous = w'.view.previous :=
    congrArg Walk.previous hcopied
  simp only [keep, Walk.keep, hx, hprevious]
  -- The verdict is the same over cells; only if the walk goes on, a second copy is made.
  cases Walk.agrees? plan.config w'.view.problem.x w'.view.previous with
  | none => exact hnoted _ _
  | some agreed =>
    cases agreed with
    | true => exact hnoted _ _
    | false =>
      cases Walk.late plan step with
      | some limit => exact hnoted _ _
      | none => exact becomes_remembered (hnoted _ _)

/-- No copy is in a cell where an engine has put its vectors. -/
theorem Separate.kept_ne_placed (h : w.Separate) {x y : List α} {r : Cells α × Nat × Nat}
    (hplaced : Handing.Placed w.cells w.x w.y x y r) {k : Nat} (hk : k ∈ w.kept) :
    k ≠ r.2.1 ∧ k ≠ r.2.2 := by
  have hnew : ∀ i, w.cells.contents.length ≤ i → k ≠ i := fun i hi =>
    Nat.ne_of_lt (Nat.lt_of_lt_of_le (h.kept_lt k hk) hi)
  constructor
  · rcases hplaced.x_mem with hx | hx
    · exact hx ▸ h.kept_ne_x k hk
    · exact hnew _ hx
  · rcases hplaced.y_mem with hy | hy
    · exact hy ▸ h.kept_ne_y k hk
    · exact hnew _ hy

/-- A walk stays separate, and goes on, where an engine has put its vectors. -/
theorem Separate.placed (h : w.Separate) {x y : List α} {r : Cells α × Nat × Nat}
    (hplaced : Handing.Placed w.cells w.x w.y x y r) :
    ({ w with cells := r.1, x := r.2.1, y := r.2.2 } : CellWalk α σ).Separate ∧
      Follows w { w with cells := r.1, x := r.2.1, y := r.2.2 } := by
  refine ⟨⟨hplaced.x_lt, hplaced.y_lt, hplaced.ne, fun k hk => ?_,
    fun k hk => (h.kept_ne_placed hplaced hk).1, fun k hk => (h.kept_ne_placed hplaced hk).2⟩,
    ⟨hplaced.spares.length_le, fun k hk hn => ?_⟩, fun k hk => ?_⟩
  · exact Nat.lt_of_lt_of_le (h.kept_lt k hk) hplaced.spares.length_le
  · exact hplaced.spares.read_eq k hk fun hor => hn (hor.imp id .inl)
  · rcases hk with rfl | rfl | hk
    · exact hplaced.x_mem.imp .inl id
    · exact hplaced.y_mem.imp (fun hy => .inr (.inl hy)) id
    · exact .inl (.inr (.inr hk))

/-- The walk that its cells hold has these vectors, and all copies are as they were. -/
theorem Separate.view_placed (h : w.Separate) {x y : List α} {r : Cells α × Nat × Nat}
    (hplaced : Handing.Placed w.cells w.x w.y x y r) :
    ({ w with cells := r.1, x := r.2.1, y := r.2.2 } : CellWalk α σ).view =
      { w.view with problem := { w.view.problem with x := x, y := y } } := by
  have hkept : ∀ k ∈ w.kept, r.1.read k = w.cells.read k := fun k hk =>
    hplaced.spares.read_eq k (h.kept_lt k hk) fun hor =>
      hor.elim (h.kept_ne_x k hk) (h.kept_ne_y k hk)
  have hprevious := hkept w.previous List.mem_cons_self
  have hpoints : ∀ p ∈ w.points, r.1.read p.x = w.cells.read p.x := fun p hp =>
    hkept p.x (List.mem_cons_of_mem _ (List.mem_map_of_mem hp))
  simp only [view, present, hplaced.read_x, hplaced.read_y, hprevious, Walk.mk.injEq, true_and,
    and_true]
  exact List.map_congr_left fun p hp => by rw [hpoints p hp]

/-- Vectors that are handed back in the cells of the guess, or in new ones, are the vectors of the
    problem from then on. -/
theorem becomes_placed {v : Walk α σ} (h : Becomes w w' v) (handing : Handing) (x y : List α) :
    Becomes w { w' with
        cells := (handing.place w'.cells w'.x w'.y x y).1
        x := (handing.place w'.cells w'.x w'.y x y).2.1
        y := (handing.place w'.cells w'.x w'.y x y).2.2 }
      { v with problem := { v.problem with x := x, y := y } } := by
  obtain ⟨hseparate, hfollows, rfl⟩ := h
  have hplaced := handing.placed hseparate.x_lt hseparate.y_lt hseparate.ne x y
  obtain ⟨hseparate', hfollows'⟩ := hseparate.placed hplaced
  exact ⟨hseparate', hfollows.trans hfollows', hseparate.view_placed hplaced⟩

/-- Over cells the vectors are forgotten as they are else. -/
theorem becomes_reset {v : Walk α σ} (h : Becomes w w' v) :
    Becomes w w'.reset { v with problem := v.problem.reset } := by
  have hplaced := becomes_placed h .fresh (Vec.zeros w'.problem.width)
    (Vec.zeros w'.problem.height)
  obtain ⟨-, -, rfl⟩ := h
  exact hplaced

/-- A call over cells that is not broken off is a call of the walk that they hold. -/
theorem becomes_call {v : Walk α σ} (h : Becomes w w' v) (handing : Handing) (plan : Plan α σ)
    (step : Nat) (lam : α) (hquiet : plan.config.policy = .stop → ∀ status,
      (v.call plan step lam).exit ≠ some (.fault (.solverFailure step lam status))) :
    Becomes w (w'.call handing plan step lam) (v.call plan step lam) := by
  obtain ⟨hseparate, hfollows, rfl⟩ := h
  have hrequest : w'.view.problem.request = w'.present.request := rfl
  have hengine : w'.view.engine = w'.engine := rfl
  unfold call
  unfold Walk.call at hquiet ⊢
  rw [hrequest, hengine] at hquiet ⊢
  generalize plan.engine.solve w'.engine w'.present.request = answer at hquiet ⊢
  obtain ⟨reply, engine⟩ := answer
  have hasked := fun exit => Becomes.relabel ⟨hseparate, hfollows, rfl⟩ engine
    (w'.events ++ reply.events) exit
  obtain ⟨outcome, events⟩ := reply
  cases outcome with
  | error f => exact hasked _
  | ok s =>
    by_cases hstop : s.status.ok = false ∧ plan.config.policy = .stop
    · -- Here an engine that works in place has changed what the cells hold, but the walk has not.
      simp only [if_pos hstop] at hquiet
      exact absurd rfl (hquiet hstop.2 s.status)
    · simp only [if_neg hstop]
      exact becomes_keep (becomes_placed (hasked _) handing s.x s.y) plan step lam s.status
        s.iterations

/-- A step over cells that is not broken off is a step of the walk that they hold. -/
theorem becomes_step {v : Walk α σ} (h : Becomes w w' v) (handing : Handing) (plan : Plan α σ)
    (hquiet : plan.config.policy = .stop → ∀ i lam status,
      (v.step plan).exit ≠ some (.fault (.solverFailure i lam status))) :
    Becomes w (w'.step handing plan) (v.step plan) := by
  have hhalted := fun e => h.relabel v.engine v.events (some e)
  obtain ⟨hseparate, hfollows, rfl⟩ := h
  have hlength : w'.view.points.length = w'.points.length := List.length_map _
  unfold step
  unfold Walk.step at hquiet ⊢
  simp only [hlength, Problem.withPenalty?] at hquiet ⊢
  by_cases hcount : plan.schedule.count ≤ w'.points.length
  · simp only [if_pos hcount]
    exact hhalted _
  · simp only [if_neg hcount] at hquiet ⊢
    cases hentry : plan.schedule.entry? w'.points.length with
    | none => exact hhalted _
    | some lam =>
      simp only [hentry] at hquiet
      by_cases hcapped : Walk.capped plan.config w'.points.length = true
      · simp only [if_pos hcapped]
        exact hhalted _
      · simp only [if_neg hcapped] at hquiet ⊢
        by_cases hpos : 0 < lam
        · have hposed := Becomes.rescale ⟨hseparate, hfollows, rfl⟩
            (w'.problem.colTerms.map fun t => t.withScale lam hpos)
          rw [Term.withPenalty?_of_pos _ hpos] at hquiet ⊢
          rw [Term.withPenalty?_of_pos _ hpos]
          simp only [Except.map] at hquiet ⊢
          cases hwarm : plan.config.warmStart with
          | true =>
            simp only [hwarm, if_true] at hquiet ⊢
            exact becomes_call hposed handing plan _ lam fun hstop => hquiet hstop _ lam
          | false =>
            simp only [hwarm, Bool.false_eq_true, if_false] at hquiet ⊢
            exact becomes_call (becomes_reset hposed) handing plan _ lam fun hstop =>
              hquiet hstop _ lam
        · rw [Term.withPenalty?_of_not_pos _ hpos, Term.withPenalty?_of_not_pos _ hpos]
          exact hhalted _

/-- So is one turn of a path. -/
theorem becomes_advance {v : Walk α σ} (h : Becomes w w' v) (handing : Handing) (plan : Plan α σ)
    (hquiet : plan.config.policy = .stop → ∀ i lam status,
      (v.step plan).exit ≠ some (.fault (.solverFailure i lam status))) :
    Becomes w (w'.advance handing plan) (v.advance plan) := by
  have hexit : w'.exit = v.exit := by
    rw [← h.view_eq]
    rfl
  unfold advance Walk.advance
  rw [hexit]
  cases v.exit with
  | some e => exact h
  | none => exact becomes_step h handing plan hquiet

/-! ### Beginnings -/

/-- The cells of a walk that begins beside others are new. -/
theorem length_le_of_owns_startIn {c : Cells α} {v : Walk α σ} {i : Nat}
    (hi : (startIn c v).Owns i) : c.contents.length ≤ i := by
  have hx := Cells.length_add c v.problem.x
  have hy := Cells.length_add (c.add v.problem.x).1 v.problem.y
  rcases hi with rfl | rfl | hi
  · exact Nat.le_refl _
  · change c.contents.length ≤ (c.add v.problem.x).1.contents.length
    omega
  · obtain rfl := List.mem_singleton.1 hi
    change c.contents.length ≤ ((c.add v.problem.x).1.add v.problem.y).1.contents.length
    omega

/-- It overwrites none of the others. -/
theorem spares_startIn (c : Cells α) (v : Walk α σ) :
    c.Spares (startIn c v).cells fun _ => False :=
  ((Cells.spares_add c v.problem.x _).trans (Cells.spares_add _ v.problem.y _)
    fun _ _ => id).trans (Cells.spares_add _ v.previous _) fun _ _ => id

/-- It is separate. -/
theorem separate_startIn (c : Cells α) (v : Walk α σ) : (startIn c v).Separate := by
  have hx := Cells.length_add c v.problem.x
  have hy := Cells.length_add (c.add v.problem.x).1 v.problem.y
  have hprevious := Cells.length_add ((c.add v.problem.x).1.add v.problem.y).1 v.previous
  have hkept : ∀ i ∈ (startIn c v).kept,
      i = ((c.add v.problem.x).1.add v.problem.y).1.contents.length := fun i =>
    List.mem_singleton.1
  exact {
    x_lt := show c.contents.length <
      (((c.add v.problem.x).1.add v.problem.y).1.add v.previous).1.contents.length by omega
    y_lt := show (c.add v.problem.x).1.contents.length <
      (((c.add v.problem.x).1.add v.problem.y).1.add v.previous).1.contents.length by omega
    ne := show c.contents.length ≠ (c.add v.problem.x).1.contents.length by omega
    kept_lt := fun i hi => show i <
      (((c.add v.problem.x).1.add v.problem.y).1.add v.previous).1.contents.length by
        rw [hkept i hi]
        omega
    kept_ne_x := fun i hi => show i ≠ c.contents.length by
      rw [hkept i hi]
      omega
    kept_ne_y := fun i hi => show i ≠ (c.add v.problem.x).1.contents.length by
      rw [hkept i hi]
      omega }

/-- Its cells hold the walk that begins. -/
theorem view_startIn (c : Cells α) {v : Walk α σ} (hpoints : v.points = []) :
    (startIn c v).view = v := by
  have hx := Cells.length_add c v.problem.x
  have hy := Cells.length_add (c.add v.problem.x).1 v.problem.y
  have hreadX : (startIn c v).cells.read (startIn c v).x = v.problem.x := by
    change (((c.add v.problem.x).1.add v.problem.y).1.add v.previous).1.read
      (c.add v.problem.x).2 = _
    have hlt : (c.add v.problem.x).2 < (c.add v.problem.x).1.contents.length := by
      rw [hx]
      exact Nat.lt_succ_self _
    rw [Cells.read_add_of_lt _ _ (by omega), Cells.read_add_of_lt _ _ hlt, Cells.read_add]
  have hreadY : (startIn c v).cells.read (startIn c v).y = v.problem.y := by
    change (((c.add v.problem.x).1.add v.problem.y).1.add v.previous).1.read
      ((c.add v.problem.x).1.add v.problem.y).2 = _
    rw [Cells.read_add_of_lt _ _ (by rw [hy]; exact Nat.lt_succ_self _), Cells.read_add]
  have hreadPrevious : (startIn c v).cells.read (startIn c v).previous = v.previous :=
    Cells.read_add _ _
  obtain ⟨engine, problem, previous, points, events, exit⟩ := v
  obtain rfl : points = [] := hpoints
  simp only [view, present, hreadX, hreadY, hreadPrevious]
  rfl

end CellWalk

end RegPath.Path
