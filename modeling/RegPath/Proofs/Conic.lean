import RegPath.Proofs.Path.Outcome
import RegPath.Engine.Conic

namespace RegPath

/-!
# The conic engine

The conic engine makes its model and judges the guess before it finds that the solver is not
installed.  If the request fits together nothing of this fails, and the guess comes back unsolved.
With its solver the engine answers with a point and its product, or gives the guess back as well.

* `Model.exists_build` — terms for all rows and columns make a model;
* `Conic.exists_prepare` — so there is a model, in the cache or new;
* `Engine.GivesBack` — an engine that gives every guess back, unsolved;
* `Conic.givesBack_of_not_installed` — the conic engine without its solver is such an engine;
* `Conic.Cache.Intact`, `Conic.Cache.Intact.solve` — engines that hold no model of another matrix,
  and what they do;
* `Conic.Cache.Intact.answer` — an answer is a point with its product, or the guess.
-/

variable {α : Type} [Scalar α] {σ : Type}

/-! ### Models -/

namespace Model

/-- A shape stands only where there is a term. -/
theorem lt_length_of_mem_positions {terms : List (Term α)} {kind : Kind} {i : Nat}
    (h : i ∈ (part terms kind).positions) : i < terms.length := by
  obtain ⟨⟨t, j⟩, hmem, rfl⟩ := List.mem_map.1 h
  have hget := List.mem_zipIdx_iff_getElem?.1 (List.mem_filter.1 hmem).1
  exact (List.getElem?_eq_some_iff.1 hget).1

/-- Nor do the parts of a list of terms reach beyond it. -/
theorem lt_length_of_mem_ofTerms {terms : List (Term α)} {part : Part α}
    (hpart : part ∈ ofTerms terms) {i : Nat} (h : i ∈ part.positions) : i < terms.length := by
  obtain ⟨kind, -, rfl⟩ := List.mem_map.1 (List.mem_filter.1 hpart).1
  exact lt_length_of_mem_positions h

/-- Terms for all rows and columns make a model. -/
theorem exists_build {A : RowMatrix α} {rowTerms colTerms : List (Term α)}
    (hrows : rowTerms.length = A.height) (hcols : colTerms.length = A.cols) :
    ∃ m, build A rowTerms colTerms = .ok m := by
  have hall : ∀ (terms : List (Term α)) (n : Nat), terms.length = n →
      ((ofTerms terms).all fun part => part.positions.all fun i => decide (i < n)) = true := by
    rintro terms n rfl
    refine List.all_eq_true.2 fun part hpart => List.all_eq_true.2 fun i hi => ?_
    exact decide_eq_true (lt_length_of_mem_ofTerms hpart hi)
  exact ⟨_, if_pos ⟨hall rowTerms _ hrows, hall colTerms _ hcols⟩⟩

/-- A model has the matrix that it is built for. -/
theorem matrix_of_build {A : RowMatrix α} {rowTerms colTerms : List (Term α)} {m : Model α}
    (h : build A rowTerms colTerms = .ok m) : m.matrix = A := by
  unfold build at h
  simp only at h
  split at h
  · obtain rfl := Except.ok.inj h
    rfl
  · cases h

end Model

/-! ### The engine -/

/-- The engine gives every guess at the problem back, unsolved. -/
def Engine.GivesBack (E : Engine α σ) (p : Problem α) : Prop :=
  ∀ e q, q.IsAbout p → ∃ a, (E.solve e q).1.outcome = .ok a ∧
    a.x = q.x ∧ a.y = q.y ∧ a.status = .failed

/-- What gives the guess back serves the problem. -/
theorem Engine.GivesBack.serves {E : Engine α σ} {p : Problem α} (h : E.GivesBack p) :
    E.Serves p := by
  intro e q hq
  obtain ⟨a, ha, hx, hy, -⟩ := h e q hq
  exact ⟨a, ha, hx ▸ hq.x, hy ▸ hq.y⟩

namespace Conic

/-- A request with terms for all rows and columns has a model, in the cache or new. -/
theorem exists_prepare (B : Backend α) (c : Cache α) {q : Request α}
    (hrows : q.rowTerms.length = q.height) (hcols : q.colTerms.length = q.width) :
    ∃ kept events c', prepare B c q = (.ok kept, events, c') := by
  cases hcache : c.filter fun k => k.key.same B.same (Key.ofRequest q) with
  | some kept => exact ⟨kept, [], c, by simp only [prepare, hcache]⟩
  | none =>
    obtain ⟨model, hmodel⟩ := Model.exists_build hrows hcols
    let kept : Kept α := ⟨Key.ofRequest q, model, false⟩
    have hprepare : prepare B c q = (.ok kept, [.modelled q.height q.width], some kept) := by
      simp only [prepare, hcache, hmodel, kept]
    exact ⟨_, _, _, hprepare⟩

/-- Without its solver the engine gives a guess of numbers back. -/
theorem outcome_of_not_installed (B : Backend α) {solver : Solver}
    (hsolver : solver.installed = false) (c : Cache α) {q : Request α}
    (hrows : q.rowTerms.length = q.height) (hcols : q.colTerms.length = q.width)
    (hx : q.x.length = q.width) (hnumbers : ∀ a ∈ q.x, Scalar.IsNumber a) :
    ((engine B solver).solve c q).1.outcome = .ok (giveUp q) := by
  obtain ⟨kept, events, c', hprepare⟩ := exists_prepare B c hrows hcols
  have hlengths : ¬ (q.colTerms.length ≠ q.width ∨ q.x.length ≠ q.width) := by
    rintro (h | h)
    · exact h hcols
    · exact h hx
  simp only [engine, hprepare, if_neg hlengths, hsolver]
  rw [if_neg (not_not.2 hnumbers), if_pos (by decide)]

/-- In exact arithmetic it gives back every guess at a well-formed problem. -/
theorem givesBack_of_not_installed (B : Backend ℝ) {solver : Solver}
    (hsolver : solver.installed = false) {p : Problem ℝ} (hp : p.WellFormed) :
    (engine B solver).GivesBack p := by
  intro c q hq
  have hfits := hq.fits hp
  exact ⟨giveUp q, outcome_of_not_installed B hsolver c hfits.rowTerms hfits.colTerms hfits.x
    fun a _ => Scalar.isNumber_real a, rfl, rfl, rfl⟩

/-! ### Answers -/

variable {B : Backend α} {solver : Solver} {c c' e : Cache α} {p : Problem α} {q : Request α}

/-- The points that a backend finds have an entry for each column, if the guess has. -/
def Backend.Shaped (B : Backend α) : Prop :=
  ∀ (m : Model α) (scales guess x : List α) (status : Status) (iterations : Nat),
    B.minimise m scales guess = .point x status iterations →
      guess.length = m.matrix.cols → x.length = m.matrix.cols

/-- A model that is held for the object is one of its matrix. -/
def Cache.Intact (c : Cache α) (d : Design α) : Prop :=
  ∀ kept ∈ c, kept.key.design = d.key → kept.model.matrix = d.matrix

/-- The model of a request has its matrix, and what is held afterwards is as good as before. -/
theorem Cache.Intact.prepare (h : c.Intact q.design) {outcome : Except (Fault α) (Kept α)}
    {events : List (Event α)} (hprepare : Conic.prepare B c q = (outcome, events, c')) :
    c'.Intact q.design ∧ ∀ kept, outcome = .ok kept → kept.model.matrix = q.design.matrix := by
  unfold Conic.prepare at hprepare
  cases hheld : c.filter fun k => k.key.same B.same (Key.ofRequest q) with
  | some kept =>
    simp only [hheld] at hprepare
    cases hprepare
    obtain ⟨hmem, hsame⟩ := Option.filter_eq_some_iff.1 hheld
    refine ⟨h, ?_⟩
    rintro kept ⟨⟩
    simp only [Key.same, Bool.and_eq_true, decide_eq_true_eq] at hsame
    exact h kept hmem hsame.1.1.1.1
  | none =>
    simp only [hheld] at hprepare
    cases hbuild : Model.build q.design.matrix q.rowTerms q.colTerms with
    | error f =>
      simp only [hbuild] at hprepare
      cases hprepare
      exact ⟨h, fun kept hkept => by cases hkept⟩
    | ok model =>
      simp only [hbuild] at hprepare
      cases hprepare
      have hmatrix := Model.matrix_of_build hbuild
      constructor
      · rintro kept ⟨⟩ -
        exact hmatrix
      · rintro kept ⟨⟩
        exact hmatrix

/-- What a call does: it fails, it gives the guess back, or it minimises a model of the matrix.  What
    is held afterwards is as good as before. -/
theorem Cache.Intact.solve (h : c.Intact q.design) (B : Backend α) (solver : Solver) :
    ((engine B solver).solve c q).2.Intact q.design ∧
      ∀ a, ((engine B solver).solve c q).1.outcome = .ok a → a = giveUp q ∨
        q.x.length = q.width ∧ ∃ kept : Kept α, kept.model.matrix = q.design.matrix ∧
          (minimise B solver kept.model q).outcome = .ok a := by
  rcases hprepare : Conic.prepare B c q with ⟨outcome, events, c'⟩
  obtain ⟨hintact, hmatrix⟩ := h.prepare hprepare
  cases outcome with
  | error f =>
    simp only [engine, hprepare]
    exact ⟨hintact, fun a ha => by cases ha⟩
  | ok kept =>
    simp only [engine, hprepare]
    split
    · exact ⟨hintact, fun a ha => by cases ha⟩
    · rename_i hlengths
      split
      · exact ⟨hintact, fun a ha => by cases ha⟩
      · split
        · exact ⟨hintact, fun a ha => .inl (Except.ok.inj ha).symm⟩
        · split
          · exact ⟨hintact, fun a ha => by cases ha⟩
          · refine ⟨?_, fun a ha => .inr ⟨?_, kept, hmatrix kept rfl, ha⟩⟩
            · rintro kept' ⟨⟩ -
              exact hmatrix kept rfl
            · exact not_not.1 fun hx => hlengths (.inr hx)

/-- Requests about a problem leave the engine with no model of another matrix. -/
theorem Cache.Intact.of_reaches (h : c.Intact p.design) (he : (engine B solver).Reaches p c e) :
    e.Intact p.design := by
  induction he with
  | fresh => exact h
  | after _ hq ih =>
    rw [← hq.design] at ih ⊢
    exact (ih.solve B solver).1

/-- An answer is a point with its product, or the guess. -/
theorem Cache.Intact.answer (h : c.Intact q.design) (hB : B.Shaped) {a : Solution α}
    (ha : ((engine B solver).solve c q).1.outcome = .ok a) :
    a.x.length = q.width ∧ a.y = q.design.matrix.mulVec a.x ∨ a = giveUp q := by
  rcases (h.solve B solver).2 a ha with hgiven | ⟨hx, kept, hmatrix, hanswer⟩
  · exact .inr hgiven
  · unfold minimise at hanswer
    simp only at hanswer
    split at hanswer
    · cases hanswer
    · split at hanswer
      · rename_i x status iterations hfound
        cases hanswer
        have hshape := hB _ _ _ _ _ _ hfound
        rw [hmatrix] at hshape
        exact .inl ⟨hshape hx, rfl⟩
      · exact .inr (Except.ok.inj hanswer).symm
      · exact .inr (Except.ok.inj hanswer).symm

end Conic

end RegPath
