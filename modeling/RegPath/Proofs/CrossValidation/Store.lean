import RegPath.Proofs.CrossValidation.Folds
import RegPath.Proofs.CrossValidation.Pool
import RegPath.Proofs.CrossValidation.Workshop
import RegPath.Proofs.Path.Cells
import RegPath.CrossValidation.Store

namespace RegPath.CrossValidation

/-!
# Folds that keep apart

The folds of a fit are begun with new cells and a new desk each, and a step of one of them
overwrites no place of another.  So whatever the workers' turns are, the store holds each fold as
it would be if it were walked alone.

* `Store.Holds` — a walk whose places are in the store, and `Store.Holds.frame`: what leaves them;
* `Store.Holds.save`, `Store.holds_receive` — a step, and the beginning of a walk;
* `Seat.present_advance` — a step in the store is a step of the fold that it holds;
* `Fold.separation` — folds are tasks that keep apart.
-/

variable {α : Type} [Scalar α] {σ : Type}

open RegPath.Path (Cells CellWalk Handing)

/-! ### Stores -/

namespace Store

variable {m m' : Store α σ} {desk : Nat} {w w' : CellWalk α σ}

/-- The cells that are loaded are those of the store. -/
@[simp] theorem cells_load (m : Store α σ) (desk : Nat) (w : CellWalk α σ) :
    (m.load desk w).cells = m.cells := by
  unfold load
  cases m.desks[desk]? <;> rfl

/-- Loading changes no place. -/
theorem owns_load (m : Store α σ) (desk : Nat) (w : CellWalk α σ) :
    (m.load desk w).Owns = w.Owns := by
  unfold load
  cases m.desks[desk]? <;> rfl

/-- A store with the same desk differs for a walk in its cells only. -/
theorem load_of_eq (hdesk : m'.desks[desk]? = m.desks[desk]?) (w : CellWalk α σ) :
    m'.load desk w = { m.load desk w with cells := m'.cells } := by
  unfold load
  rw [hdesk]
  cases m.desks[desk]? <;> rfl

/-- What is saved is loaded again. -/
theorem load_save (hdesk : desk < m.desks.length) (w : CellWalk α σ) :
    (m.save desk w).load desk w = w := by
  unfold load save
  rw [List.getElem?_set_self hdesk]

/-- All places of a walk are in the store. -/
structure Holds (m : Store α σ) (desk : Nat) (w : CellWalk α σ) : Prop where
  /-- Its desk is. -/
  desk_lt : desk < m.desks.length
  /-- Its cells are, and the copies are kept apart from the vectors that are overwritten. -/
  separate : (m.load desk w).Separate

/-- The cells of a walk that a store holds are cells of the store. -/
theorem Holds.lt_of_owns (h : m.Holds desk w) {i : Nat} (hi : w.Owns i) :
    i < m.cells.contents.length := by
  have hlt := h.separate.lt_of_owns (i := i) (by rw [owns_load]; exact hi)
  rwa [cells_load] at hlt

/-- A walk does not notice what is overwritten in other places. -/
theorem Holds.frame (h : m.Holds desk w) {own : Nat → Prop}
    (hdesk : m'.desks[desk]? = m.desks[desk]?) (hspares : m.cells.Spares m'.cells own)
    (hown : ∀ i, w.Owns i → ¬ own i) :
    m'.Holds desk w ∧ (m'.load desk w).view = (m.load desk w).view := by
  have hspares' : (m.load desk w).cells.Spares m'.cells own := by
    rw [cells_load]
    exact hspares
  obtain ⟨hlt, -⟩ := List.getElem?_eq_some_iff.1
    (hdesk.trans (List.getElem?_eq_getElem h.desk_lt))
  rw [load_of_eq hdesk]
  refine ⟨⟨hlt, ?_⟩, h.separate.view_withCells hspares' fun i hi => hown i ?_⟩
  · rw [load_of_eq hdesk]
    exact h.separate.withCells hspares'
  · rwa [owns_load] at hi

/-- What becomes of a walk is held where the walk was. -/
theorem Holds.save (h : m.Holds desk w) {v : Path.Walk α σ}
    (hbecomes : CellWalk.Becomes (m.load desk w) w' v) :
    (m.save desk w').Holds desk w' ∧ ((m.save desk w').load desk w').view = v := by
  have hload := load_save h.desk_lt w'
  refine ⟨⟨?_, ?_⟩, ?_⟩
  · rw [Store.save, List.length_set]
    exact h.desk_lt
  · rw [hload]
    exact hbecomes.separate
  · rw [hload]
    exact hbecomes.view_eq

/-- A walk that begins is held by the places that it gets. -/
theorem holds_receive (m : Store α σ) {v : Path.Walk α σ} (hpoints : v.points = []) :
    (m.receive v).2.2.Holds (m.receive v).1 (m.receive v).2.1 ∧
      ((m.receive v).2.2.load (m.receive v).1 (m.receive v).2.1).view = v := by
  have hload : (m.receive v).2.2.load (m.receive v).1 (m.receive v).2.1 =
      CellWalk.startIn m.cells v := by
    simp [receive, load]
  refine ⟨⟨?_, ?_⟩, ?_⟩
  · simp [receive]
  · rw [hload]
    exact CellWalk.separate_startIn m.cells v
  · rw [hload]
    exact CellWalk.view_startIn m.cells hpoints

end Store

/-! ### Seats -/

namespace Seat

variable {m : Store α σ} {t u : Seat α σ} {handing : Handing}

/-- All places of a fold under way are in the store, and its path does not break off at a step that
    is not solved. -/
def Seated (m : Store α σ) : Seat α σ → Prop
  | .idle _ => True
  | .walking _ j desk w => m.Holds desk w ∧ j.plan.config.policy = .keep

/-- Two folds under way have no place in common. -/
def Apart : Seat α σ → Seat α σ → Prop
  | .walking _ _ desk w, .walking _ _ desk' w' => desk ≠ desk' ∧ ∀ i, w.Owns i → ¬ w'.Owns i
  | _, _ => True

/-- How many steps are left at most: each one ends the walk or takes an entry of the schedule. -/
def left : Seat α σ → Nat
  | .idle _ => 0
  | .walking _ j _ w =>
    if w.exit.isSome then 0 else j.plan.schedule.count - w.points.length + 1

/-- No more than one step for each entry of the schedule, and one to see that there is none left. -/
theorem left_walking_le (t : Fold α σ) (j : Path.Driver.Journey α σ) (desk : Nat)
    (w : CellWalk α σ) : (Seat.walking t j desk w).left ≤ j.plan.schedule.count + 1 := by
  simp only [left]
  split <;> omega

/-- Having no place in common is mutual. -/
theorem Apart.symm (h : Apart t u) : Apart u t := by
  cases t with
  | idle => cases u <;> trivial
  | walking =>
    cases u with
    | idle => trivial
    | walking => exact ⟨Ne.symm h.1, fun i hu ht => h.2 i ht hu⟩

/-- What becomes of a walk that takes a step in the store. -/
theorem becomes_load {t : Fold α σ} {j : Path.Driver.Journey α σ} {desk : Nat}
    {w : CellWalk α σ} (h : Seated m (.walking t j desk w)) (handing : Handing) :
    CellWalk.Becomes (m.load desk w) ((m.load desk w).advance handing j.plan)
      ((m.load desk w).view.advance j.plan) := by
  refine CellWalk.becomes_advance (.refl h.1.separate) handing j.plan fun hstop => ?_
  -- Only a step that breaks off leaves other vectors in the cells, and none does.
  rw [h.2] at hstop
  cases hstop

/-- A step in the store is a step of the fold that it holds. -/
theorem present_advance {t : Fold α σ} {j : Path.Driver.Journey α σ} {desk : Nat}
    {w : CellWalk α σ} (h : Seated m (.walking t j desk w)) (handing : Handing) :
    Seated (Seat.advance handing (.walking t j desk w) m).2
        (Seat.advance handing (.walking t j desk w) m).1 ∧
      (Seat.advance handing (.walking t j desk w) m).1.present
        (Seat.advance handing (.walking t j desk w) m).2 =
          ((Seat.walking t j desk w).present m).advance := by
  obtain ⟨hholds, hview⟩ := h.1.save (becomes_load h handing)
  refine ⟨⟨hholds, h.2⟩, ?_⟩
  simp only [Seat.advance, present, hview]
  rfl

/-- A fold that takes a step stays in its places, and is on the way to the same end. -/
theorem finish_advance (h : Seated m t) (handing : Handing) :
    Seated (t.advance handing m).2 (t.advance handing m).1 ∧
      ((t.advance handing m).1.present (t.advance handing m).2).finish =
        (t.present m).finish := by
  cases t with
  | idle => exact ⟨trivial, rfl⟩
  | walking t j desk w =>
    obtain ⟨hseated, hpresent⟩ := present_advance h handing
    exact ⟨hseated, by rw [hpresent, Fold.finish_advance]⟩

/-- Another fold does not notice it. -/
theorem present_advance_of_apart (h : Seated m t) (hu : Seated m u) (hapart : Apart t u)
    (handing : Handing) : Seated (t.advance handing m).2 u ∧
      u.present (t.advance handing m).2 = u.present m := by
  cases t with
  | idle => exact ⟨hu, rfl⟩
  | walking t j desk w =>
    cases u with
    | idle => exact ⟨trivial, rfl⟩
    | walking u j' desk' w' =>
      -- The step overwrites its own cells and its own desk, and the other walk has others.
      have hspares := (becomes_load h handing).follows.spares
      rw [Store.cells_load, Store.owns_load] at hspares
      have hdesk : (m.save desk ((m.load desk w).advance handing j.plan)).desks[desk']? =
          m.desks[desk']? := List.getElem?_set_ne hapart.1
      obtain ⟨hholds, hview⟩ := hu.1.frame hdesk hspares fun i hi hown => hapart.2 i hown hi
      refine ⟨⟨hholds, hu.2⟩, ?_⟩
      simp only [Seat.advance, present, hview]

/-- They stay apart. -/
theorem apart_advance (h : Seated m t) (hu : Seated m u) (hapart : Apart t u)
    (handing : Handing) : Apart (t.advance handing m).1 u := by
  cases t with
  | idle => cases u <;> trivial
  | walking t j desk w =>
    cases u with
    | idle => trivial
    | walking u j' desk' w' =>
      refine ⟨hapart.1, fun i hi hi' => ?_⟩
      -- A cell that is new to one of them was none of the other's, since that one is in the store.
      have howns := (becomes_load h handing).follows.owns i hi
      rw [Store.cells_load, Store.owns_load] at howns
      rcases howns with hold | hnew
      · exact hapart.2 i hold hi'
      · exact absurd (hu.1.lt_of_owns hi') (Nat.not_lt.2 hnew)

/-- A step that is taken is not left any more. -/
theorem left_advance (h : Seated m t) (hended : t.ended = false) (handing : Handing) :
    (t.advance handing m).1.left < t.left := by
  cases t with
  | idle => cases hended
  | walking t j desk w =>
    have hview := (becomes_load h handing).view_eq
    have hexit : w.exit = none := by simpa [ended] using hended
    -- The exit and the number of points are kept outside the store.
    have hexitView : (m.load desk w).view.exit = none := by
      unfold Store.load
      cases m.desks[desk]? <;> exact hexit
    have hpointsView : (m.load desk w).view.points.length = w.points.length := by
      unfold Store.load
      cases m.desks[desk]? <;> exact List.length_map _
    rw [Path.Walk.advance_of_none _ hexitView] at hview
    simp only [Seat.advance, left, hexit, Option.isSome_none, Bool.false_eq_true, if_false]
    generalize (m.load desk w).advance handing j.plan = w' at hview ⊢
    have hexit' : w'.exit = ((m.load desk w).view.step j.plan).exit := by
      rw [← hview]
      rfl
    have hpoints' : w'.points.length = ((m.load desk w).view.step j.plan).points.length := by
      rw [← hview]
      exact (List.length_map _).symm
    rcases (m.load desk w).view.step_ends_or_takes j.plan with hend | ⟨hlt, htaken⟩
    · rw [hexit', if_pos (Option.isSome_iff_ne_none.2 hend)]
      exact Nat.succ_pos _
    · rw [hpoints', htaken, hpointsView]
      rw [hpointsView] at hlt
      split <;> omega

/-- A fold that begins leaves the others as they are. -/
theorem present_enter_of_seated (hu : Seated m u) (t : Fold α σ) :
    Seated (enter t m).2 u ∧ u.present (enter t m).2 = u.present m := by
  cases u with
  | idle => exact ⟨trivial, rfl⟩
  | walking u j' desk' w' =>
    unfold enter
    split
    · rename_i j _
      -- The new places come after all that are there.
      have hspares : m.cells.Spares (m.receive j.walk).2.2.cells fun _ => False :=
        CellWalk.spares_startIn m.cells j.walk
      have hdesk : (m.receive j.walk).2.2.desks[desk']? = m.desks[desk']? :=
        List.getElem?_append_left hu.1.desk_lt
      obtain ⟨hholds, hview⟩ := hu.1.frame hdesk hspares fun _ _ => id
      refine ⟨⟨hholds, hu.2⟩, ?_⟩
      simp only [present, hview]
    · exact ⟨hu, rfl⟩

/-- It has no place in common with them. -/
theorem apart_enter (hu : Seated m u) (t : Fold α σ) : Apart u (enter t m).1 := by
  cases u with
  | idle => trivial
  | walking u j' desk' w' =>
    unfold enter
    split
    · refine ⟨Nat.ne_of_lt hu.1.desk_lt, fun i hi hnew => ?_⟩
      exact absurd (hu.1.lt_of_owns hi)
        (Nat.not_lt.2 (CellWalk.length_le_of_owns_startIn hnew))
    · trivial

/-- The store holds it as it begins. -/
theorem present_enter {t : Fold α σ} (hpath : ∀ j, t.path = .ok (.walking j) →
    j.walk.points = [] ∧ j.plan.config.policy = .keep) (m : Store α σ) :
    Seated (enter t m).2 (enter t m).1 ∧ (enter t m).1.present (enter t m).2 = t := by
  unfold enter
  split
  · rename_i j hj
    obtain ⟨hpoints, hpolicy⟩ := hpath j hj
    obtain ⟨hholds, hview⟩ := m.holds_receive hpoints
    refine ⟨⟨hholds, hpolicy⟩, ?_⟩
    simp only [present, hview]
    rw [← hj]
  · exact ⟨trivial, rfl⟩

end Seat

namespace Fold

/-- How many steps a fold can take. -/
def size (t : Fold α σ) : Nat :=
  match t.path with
  | .ok (.walking j) => j.plan.schedule.count + 1
  | _ => 0

/-- So many are left when it begins. -/
theorem left_enter_le (t : Fold α σ) (m : Store α σ) : (Seat.enter t m).1.left ≤ t.size := by
  unfold Seat.enter
  split
  · rename_i j hj
    rw [size, hj]
    exact Seat.left_walking_le t j _ _
  · exact Nat.zero_le _

/-- A fold that walks begins with no step done, and it keeps steps that are not solved. -/
theorem walking_start {F : Factory α σ} {s : Settings α} {A : RowMatrix α} {b : List α} {top : α}
    {split : Split} {j : Path.Driver.Journey α σ}
    (h : (start F s A b top split).path = .ok (.walking j)) :
    j.walk.points = [] ∧ j.plan.config.policy = .keep := by
  cases hdriver : Factory.driver F s with
  | error f =>
    simp only [start, hdriver] at h
    cases h
  | ok source =>
    obtain ⟨d, setup⟩ := source
    obtain ⟨engine, fresh, config, -, hconfig, -, rfl⟩ := Factory.driver_ok.1 hdriver
    rw [path_start hdriver] at h
    have hstart := Except.ok.inj h
    unfold Path.Driver.start at hstart
    split at hstart
    · cases hstart
    · split at hstart
      · cases hstart
      · split at hstart
        · cases hstart
        · cases hstart
          exact ⟨rfl, (Settings.config_of_accept hconfig).2.2.2⟩

/-- Folds keep apart: each of them, on its own places in the store, is on the way to the end that it
    has alone. -/
def separation (F : Nat → Factory α σ) (s : Settings α) (A : RowMatrix α) (b : List α) (top : α)
    (handing : Handing) : Separation (sharing F s A b top handing)
      fun i split => (start (F i) s A b top split).finish where
  Fits i split m t := t.Seated m ∧
    (t.present m).finish = (start (F i) s A b top split).finish
  Apart := Seat.Apart
  size i split := (start (F i) s A b top split).size
  left := Seat.left
  apart_symm := Seat.Apart.symm
  fits_enter i split m := by
    obtain ⟨hseated, hpresent⟩ := Seat.present_enter (fun _ => walking_start) m
    exact ⟨hseated, congrArg finish hpresent⟩
  enter_fits i' split' h := by
    obtain ⟨hseated, hpresent⟩ := Seat.present_enter_of_seated h.1 _
    exact ⟨hseated, (congrArg finish hpresent).trans h.2⟩
  enter_apart i' split' h := Seat.apart_enter h.1 _
  fits_advance h := by
    obtain ⟨hseated, hfinish⟩ := Seat.finish_advance h.1 handing
    exact ⟨hseated, hfinish.trans h.2⟩
  advance_fits h hapart hu := by
    obtain ⟨hseated, hpresent⟩ := Seat.present_advance_of_apart h.1 hu.1 hapart handing
    exact ⟨hseated, (congrArg finish hpresent).trans hu.2⟩
  advance_apart h hapart hu := Seat.apart_advance h.1 hu.1 hapart handing
  result_eq h _ := h.2
  left_enter i split m := left_enter_le _ m
  left_advance h hended := Seat.left_advance h.1 hended handing

end Fold

end RegPath.CrossValidation
