import RegPath.Proofs.Conic
import RegPath.Proofs.Exact
import RegPath.Proofs.Splitting.Reuse

namespace RegPath

/-!
# The objective of a model

A model sorts the terms of a problem by their shapes.  No term is lost, none is counted twice, and
each keeps its own offset and scale, so the model has the objective of the problem: in exact
arithmetic the conic engine and the splitting minimise the same function.  The scales of the columns
are not part of a model, so it serves every problem that differs in them only.

* `Model.sum_shapes` — a sum over the shapes that contribute is the sum over all terms;
* `Model.cost_part`, `Model.holds_part` — one shape;
* `Model.cost_ofTerms`, `Model.holds_ofTerms` — one side of a problem;
* `Model.value?_of_build` — the objective of a model;
* `Model.objective_eq_sum` — the objective as the sum of the values of all terms;
* `Conic.Cache.Follows`, `Conic.build_of_prepare` — the model of a call of the engine is the one of
  its request, whatever the engine has served.
-/

/-! ### Terms with their positions -/

namespace Model

section Parts

variable {α : Type} [Scalar α]

/-- A function of the terms and of the entries at their positions. -/
theorem map_zipIdx {β : Type} (f : Term α → α → β) {terms : List (Term α)} {v : List α}
    (h : terms.length = v.length) :
    (terms.zipIdx.map fun t => f t.1 (v[t.2]?.getD 0)) = List.zipWith f terms v := by
  apply List.ext_getElem
  · simp [h]
  · intro i h₁ h₂
    have hi : i < v.length := by
      rw [List.length_zipWith] at h₂
      omega
    simp [List.getElem?_eq_getElem hi]

/-- The shifted entries of a shape, term by term. -/
theorem shifted_part (terms : List (Term α)) (kind : Kind) (v : List α) :
    (part terms kind).shifted v =
      (terms.zipIdx.filter fun t => t.1.kind = kind).map
        fun t => (t.2, v[t.2]?.getD 0 - t.1.offset) := by
  rw [Part.shifted, part, List.zipWith_map, List.zipWith_self]

/-- The scale at the position of a term is the one of the term. -/
theorem scale_of_mem {terms : List (Term α)} {t : Term α × ℕ} (h : t ∈ terms.zipIdx) :
    (terms.map Term.scale)[t.2]?.getD 0 = t.1.scale := by
  rw [List.getElem?_map, List.mem_zipIdx_iff_getElem?.1 h]
  rfl

/-- A shape that does not occur has no position. -/
theorem part_of_isEmpty {terms : List (Term α)} {kind : Kind}
    (h : (part terms kind).positions.isEmpty = true) (v : List α) :
    (part terms kind).shifted v = [] := by
  rw [Part.shifted, List.isEmpty_iff.1 h, List.zipWith_nil_left]

/-- What a term is apart from its scale. -/
def frame (t : Term α) : Kind × α := (t.kind, t.offset)

/-- The parts of a list of terms do not depend on the scales. -/
theorem ofTerms_congr {terms terms' : List (Term α)} (h : terms.map frame = terms'.map frame) :
    ofTerms terms = ofTerms terms' := by
  -- A part is made from the frames with their positions.
  have hpart : ∀ (ts : List (Term α)) (kind : Kind), part ts kind =
      ⟨kind, (((ts.map frame).zipIdx.filter fun t => t.1.1 = kind).map Prod.snd),
        ((ts.map frame).zipIdx.filter fun t => t.1.1 = kind).map fun t => t.1.2⟩ := by
    intro ts kind
    rw [part, List.zipIdx_map, List.filter_map, List.map_map, List.map_map]
    rfl
  rw [ofTerms, ofTerms, funext (hpart terms), funext (hpart terms'), h]

/-! ### What a model is made of -/

variable {A : RowMatrix α} {rowTerms colTerms : List (Term α)} {m : Model α}

/-- The matrix with the parts of both sides and the scales of the rows. -/
theorem eq_of_build (h : build A rowTerms colTerms = .ok m) :
    m = ⟨A, ofTerms rowTerms, rowTerms.map Term.scale, ofTerms colTerms⟩ := by
  unfold build at h
  simp only at h
  split at h
  · exact (Except.ok.inj h).symm
  · cases h

/-- A model of one problem is a model of every other with other scales of the columns. -/
theorem build_congr {colTerms' : List (Term α)} (h : colTerms'.map frame = colTerms.map frame) :
    build A rowTerms colTerms' = build A rowTerms colTerms := by
  simp only [build, ofTerms_congr h]

end Parts

/-! ### One side -/

/-- A sum over the shapes that contribute, over the terms of each, is the sum over all terms. -/
theorem sum_shapes (c : Term ℝ × ℕ → ℝ) (l : List (Term ℝ × ℕ))
    (hzero : ∀ t ∈ l, t.1.kind = .zero → c t = 0) :
    (shapes.map fun kind => ((l.filter fun t => t.1.kind = kind).map c).sum).sum =
      (l.map c).sum := by
  induction l with
  | nil => simp
  | cons t l ih =>
    have ih := ih fun s hs => hzero s (List.mem_cons_of_mem _ hs)
    have ht := hzero t List.mem_cons_self
    simp only [shapes, List.map_cons, List.map_nil, List.sum_cons, List.sum_nil] at ih ⊢
    -- A term counts for the one shape that it has.
    cases hkind : t.1.kind <;> simp [hkind] at ht ⊢ <;> linarith

/-- The cost of a shape is the sum of the costs of its terms. -/
theorem cost_part (terms : List (Term ℝ)) (kind : Kind) (v : List ℝ) :
    (part terms kind).cost (terms.map Term.scale) v =
      ((terms.zipIdx.filter fun t => t.1.kind = kind).map
        fun t => t.1.cost (v[t.2]?.getD 0)).sum := by
  have hmem : ∀ t ∈ terms.zipIdx.filter fun t => t.1.kind = kind,
      t.1.kind = kind ∧ (terms.map Term.scale)[t.2]?.getD 0 = t.1.scale := by
    intro t ht
    obtain ⟨hmem, hkind⟩ := List.mem_filter.1 ht
    exact ⟨of_decide_eq_true hkind, scale_of_mem hmem⟩
  have hkind : (part terms kind).kind = kind := rfl
  rw [Part.cost, hkind, shifted_part, List.map_map]
  generalize (terms.zipIdx.filter fun t => t.1.kind = kind) = l at hmem ⊢
  cases kind with
  | square =>
    simp only [← List.sum_map_mul_left]
    congr 1
    refine List.map_congr_left fun t ht => ?_
    obtain ⟨hsquare, hscale⟩ := hmem t ht
    simp only [Function.comp_apply, Term.cost, hsquare, hscale]
    ring
  | abs =>
    simp only [List.map_map]
    congr 1
    refine List.map_congr_left fun t ht => ?_
    obtain ⟨habs, hscale⟩ := hmem t ht
    simp only [Function.comp_apply, Term.cost, habs, hscale]
  | zero | nonneg =>
    refine (List.sum_eq_zero ?_).symm
    simp only [List.mem_map]
    rintro _ ⟨t, ht, rfl⟩
    simp only [Term.cost, (hmem t ht).1]

/-- The constraints of a shape are those of its terms. -/
theorem holds_part (terms : List (Term ℝ)) (kind : Kind) (v : List ℝ) :
    (part terms kind).Holds v ↔
      (kind = .nonneg → ∀ t ∈ terms.zipIdx, t.1.Admits (v[t.2]?.getD 0)) := by
  have hkind : (part terms kind).kind = kind := rfl
  rw [Part.Holds, hkind, shifted_part]
  refine imp_congr_right fun h => ?_
  subst h
  simp only [List.forall_mem_map, List.mem_filter, decide_eq_true_eq, and_imp, Term.Admits]

/-- Shapes that do not occur are left out, but would add nothing. -/
theorem sum_ofTerms (terms : List (Term ℝ)) {c : Part ℝ → ℝ}
    (hnothing : ∀ kind, (part terms kind).positions.isEmpty = true → c (part terms kind) = 0) :
    ((ofTerms terms).map c).sum = (shapes.map fun kind => c (part terms kind)).sum := by
  rw [ofTerms]
  induction shapes with
  | nil => rfl
  | cons kind kinds ih =>
    rw [List.map_cons, List.map_cons, List.sum_cons, ← ih, List.filter_cons]
    split
    · rw [List.map_cons, List.sum_cons]
    · rename_i hempty
      rw [hnothing kind (by simpa using hempty), zero_add]

/-- The cost of one side is the sum of the costs of its terms. -/
theorem cost_ofTerms {terms : List (Term ℝ)} {v : List ℝ} (h : terms.length = v.length) :
    ((ofTerms terms).map fun p => p.cost (terms.map Term.scale) v).sum =
      Term.totalCost terms v := by
  have hnothing : ∀ kind, (part terms kind).positions.isEmpty = true →
      (part terms kind).cost (terms.map Term.scale) v = 0 := by
    intro kind hempty
    rw [Part.cost, part_of_isEmpty hempty]
    split <;> simp
  have hzero : ∀ t ∈ terms.zipIdx, t.1.kind = .zero → t.1.cost (v[t.2]?.getD 0) = 0 := by
    intro t _ hkind
    simp only [Term.cost, hkind]
  rw [sum_ofTerms terms hnothing]
  simp only [cost_part]
  rw [sum_shapes _ _ hzero, map_zipIdx (fun t a => t.cost a) h, Term.totalCost]

/-- The constraints of one side hold where its terms are not infinite. -/
theorem holds_ofTerms {terms : List (Term ℝ)} {v : List ℝ} (h : terms.length = v.length) :
    (∀ p ∈ ofTerms terms, p.Holds v) ↔ Term.AllAdmit terms v := by
  have hzip : List.zip terms v = terms.zipIdx.map fun t => (t.1, v[t.2]?.getD 0) :=
    (map_zipIdx Prod.mk h).symm
  rw [Term.AllAdmit, hzip, List.forall_mem_map]
  constructor
  · intro hall t ht
    by_cases hempty : (part terms .nonneg).positions.isEmpty = true
    · -- Without a half-line nothing can be infinite.
      have hnone := part_of_isEmpty hempty v
      have hholds : (part terms .nonneg).Holds v := by
        intro _ u hu
        rw [hnone] at hu
        exact absurd hu List.not_mem_nil
      exact (holds_part terms .nonneg v).1 hholds rfl t ht
    · have hmem : part terms .nonneg ∈ ofTerms terms :=
        List.mem_filter.2 ⟨List.mem_map_of_mem (by decide), by simpa using hempty⟩
      exact (holds_part terms .nonneg v).1 (hall _ hmem) rfl t ht
  · intro hall p hp
    obtain ⟨kind, -, rfl⟩ := List.mem_map.1 (List.mem_filter.1 hp).1
    exact (holds_part terms kind v).2 fun _ => hall

/-! ### The objective -/

variable {A : RowMatrix ℝ} {rowTerms colTerms : List (Term ℝ)} {m : Model ℝ} {x : List ℝ}

/-- A model has the objective of its problem. -/
theorem value?_of_build (h : build A rowTerms colTerms = .ok m)
    (hrows : rowTerms.length = A.height) (hcols : colTerms.length = A.cols)
    (hx : x.length = A.cols) :
    m.value? (colTerms.map Term.scale) x = GraphForm.value? ⟨A, rowTerms, colTerms⟩ x := by
  have hrows' : rowTerms.length = (A.mulVec x).length := hrows.trans (A.length_mulVec x).symm
  have hcols' : colTerms.length = x.length := hcols.trans hx.symm
  obtain rfl := eq_of_build h
  refine if_congr ?feasible (congrArg some ?cost) rfl
  case feasible => exact and_congr (holds_ofTerms hrows') (holds_ofTerms hcols')
  case cost => exact congrArg₂ _ (cost_ofTerms hrows') (cost_ofTerms hcols')

end Model

/-! ### Infinite values -/

/-- A value among the numbers with infinity. -/
def extended (value : Option ℝ) : WithTop ℝ := value.elim ⊤ fun a => (a : WithTop ℝ)

/-- The values of some terms add up to their cost, unless one of them is infinite. -/
theorem Term.sum_extended (terms : List (Term ℝ)) (v : List ℝ) :
    (List.zipWith (fun t a => extended (t.value? a)) terms v).sum =
      extended (if AllAdmit terms v then some (totalCost terms v) else none) := by
  induction terms generalizing v with
  | nil => simp [AllAdmit, totalCost, extended]
  | cons t terms ih =>
    cases v with
    | nil => simp [AllAdmit, totalCost, extended]
    | cons a v =>
      have hcons : AllAdmit (t :: terms) (a :: v) ↔ t.Admits a ∧ AllAdmit terms v := by
        simp only [AllAdmit, List.zip_cons_cons, List.forall_mem_cons]
      rw [List.zipWith_cons_cons, List.sum_cons, ih, Term.value?]
      by_cases ha : t.Admits a
      · by_cases hv : AllAdmit terms v
        · simp [hcons, ha, hv, extended, totalCost]
        · simp [hcons, ha, hv, extended]
      · simp [hcons, ha, extended]

/-- The objective of a problem is the sum of the values of its terms. -/
theorem GraphForm.extended_value (P : GraphForm ℝ) (x : List ℝ) :
    extended (P.value? x) =
      (List.zipWith (fun t a => extended (t.value? a)) P.rowTerms (P.matrix.mulVec x)).sum +
        (List.zipWith (fun t a => extended (t.value? a)) P.colTerms x).sum := by
  have hadmits : P.Admits x ↔ Term.AllAdmit P.rowTerms (P.matrix.mulVec x) ∧
      Term.AllAdmit P.colTerms x := Iff.rfl
  rw [Term.sum_extended, Term.sum_extended, GraphForm.value?]
  by_cases hrows : Term.AllAdmit P.rowTerms (P.matrix.mulVec x)
  · by_cases hcols : Term.AllAdmit P.colTerms x
    · simp [hadmits, hrows, hcols, extended, GraphForm.cost]
    · simp [hadmits, hrows, hcols, extended]
  · simp [hadmits, hrows, extended]

/-- There is a model for every problem.  With the scales of any columns that differ from those it was
    built for in their scales only, its objective is the sum of the values of all terms, infinite
    where one of them is. -/
theorem Model.objective_eq_sum {A : RowMatrix ℝ} {rowTerms colTerms : List (Term ℝ)}
    (hrows : rowTerms.length = A.height) (hcols : colTerms.length = A.cols) :
    ∃ m, build A rowTerms colTerms = .ok m ∧
      ∀ colTerms' : List (Term ℝ), colTerms'.map frame = colTerms.map frame →
        ∀ x : List ℝ, x.length = A.cols →
          extended (m.value? (colTerms'.map Term.scale) x) =
            (List.zipWith (fun t a => extended (t.value? a)) rowTerms (A.mulVec x)).sum +
              (List.zipWith (fun t a => extended (t.value? a)) colTerms' x).sum := by
  obtain ⟨m, hm⟩ := exists_build hrows hcols
  refine ⟨m, hm, fun colTerms' hframe x hx => ?_⟩
  have hcols' : colTerms'.length = A.cols := by
    have hlength := congrArg List.length hframe
    rw [List.length_map, List.length_map] at hlength
    exact hlength.trans hcols
  rw [value?_of_build ((build_congr hframe).trans hm) hrows hcols' hx, GraphForm.extended_value]

/-- All four shapes in one problem. -/
theorem Model.objective_eq_sum_mixed :
    ∃ m, build (.identity 2) [Term.unit .square (1 : ℝ), Term.unit .nonneg 0]
        [Term.unit .zero 3, Term.unit .abs 2] = .ok m ∧
      ∀ colTerms' : List (Term ℝ),
        colTerms'.map frame = [Term.unit .zero 3, Term.unit .abs 2].map frame →
          ∀ x : List ℝ, x.length = 2 →
            extended (m.value? (colTerms'.map Term.scale) x) =
              (List.zipWith (fun (t : Term ℝ) a => extended (t.value? a))
                [Term.unit .square 1, Term.unit .nonneg 0] ((RowMatrix.identity 2).mulVec x)).sum +
                (List.zipWith (fun t a => extended (t.value? a)) colTerms' x).sum :=
  objective_eq_sum rfl rfl

/-! ### The model of a call -/

namespace Conic

/-- Equal data are one datum. -/
def Backend.Tells {α : Type} [Scalar α] (B : Backend α) : Prop :=
  ∀ a b : α, B.same a b = true → a = b

section Kept

variable {α : Type} [Scalar α] {B : Backend α} {solver : Solver} {c c' : Cache α}
  {qs : List (Request α)} {q r : Request α} {kept : Kept α}

/-- Lists of the same data are equal. -/
theorem eq_of_sameNumbers (hB : B.Tells) {x y : List α} (h : sameNumbers B.same x y = true) :
    x = y := by
  rw [sameNumbers, Bool.and_eq_true, decide_eq_true_eq] at h
  obtain ⟨hlength, hall⟩ := h
  induction x generalizing y with
  | nil => exact (List.eq_nil_of_length_eq_zero hlength.symm).symm
  | cons a x ih =>
    cases y with
    | nil => cases hlength
    | cons b y =>
      rw [List.zipWith_cons_cons, List.all_cons, Bool.and_eq_true] at hall
      rw [hB a b hall.1, ih (Nat.succ.inj hlength) hall.2]

/-- Terms are determined by their shapes, scales and offsets. -/
theorem terms_eq {ts us : List (Term α)} (hkinds : ts.map Term.kind = us.map Term.kind)
    (hscales : ts.map Term.scale = us.map Term.scale)
    (hoffsets : ts.map Term.offset = us.map Term.offset) : ts = us := by
  induction ts generalizing us with
  | nil => exact (List.map_eq_nil_iff.1 hkinds.symm).symm
  | cons t ts ih =>
    cases us with
    | nil => cases hkinds
    | cons u us =>
      simp only [List.map_cons, List.cons.injEq] at hkinds hscales hoffsets
      rw [ih hkinds.2 hscales.2 hoffsets.2]
      congr 1
      cases t
      cases u
      simp only at hkinds hscales hoffsets
      simp only [hkinds.1, hscales.1, hoffsets.1]

/-- Requests of one key for the same matrix have the same model. -/
theorem build_of_same (hB : B.Tells) (h : (Key.ofRequest r).same B.same (Key.ofRequest q) = true)
    (hmatrix : r.design.matrix = q.design.matrix) :
    Model.build r.design.matrix r.rowTerms r.colTerms =
      Model.build q.design.matrix q.rowTerms q.colTerms := by
  simp only [Key.same, Bool.and_eq_true, decide_eq_true_eq] at h
  obtain ⟨⟨⟨⟨-, hrowKinds⟩, hcolKinds⟩, hrowNumbers⟩, hcolNumbers⟩ := h
  have hlength : (r.rowTerms.map Term.scale).length = (q.rowTerms.map Term.scale).length := by
    simpa [Key.ofRequest] using congrArg List.length hrowKinds
  obtain ⟨hscales, hoffsets⟩ := List.append_inj (eq_of_sameNumbers hB hrowNumbers) hlength
  have hframe : r.colTerms.map Model.frame = q.colTerms.map Model.frame := by
    have hzip : ∀ ts : List (Term α), ts.map Model.frame =
        List.zip (ts.map Term.kind) (ts.map Term.offset) := fun _ => (List.zip_map' ..).symm
    rw [hzip, hzip]
    exact congrArg₂ List.zip hcolKinds (eq_of_sameNumbers hB hcolNumbers)
  rw [hmatrix, terms_eq hrowKinds hscales hoffsets, Model.build_congr hframe]

/-- What is held after some requests: a model that was built for one of them. -/
def Cache.Follows (c : Cache α) (qs : List (Request α)) : Prop :=
  ∀ kept ∈ c, ∃ r ∈ qs, kept.key = Key.ofRequest r ∧
    Model.build r.design.matrix r.rowTerms r.colTerms = .ok kept.model

/-- Making the model of one more request. -/
theorem Cache.Follows.prepare (h : c.Follows qs) {outcome : Except (Fault α) (Kept α)}
    {events : List (Event α)} (hprepare : Conic.prepare B c q = (outcome, events, c')) :
    c'.Follows (qs ++ [q]) ∧ ∀ kept, outcome = .ok kept → Cache.Follows (some kept) (qs ++ [q]) := by
  have hbefore : c.Follows (qs ++ [q]) := by
    intro kept hkept
    obtain ⟨r, hr, hmade⟩ := h kept hkept
    exact ⟨r, List.mem_append_left _ hr, hmade⟩
  unfold Conic.prepare at hprepare
  cases hheld : c.filter fun k => k.key.same B.same (Key.ofRequest q) with
  | some kept =>
    simp only [hheld] at hprepare
    cases hprepare
    refine ⟨hbefore, ?_⟩
    rintro _ ⟨⟩ _ ⟨⟩
    exact hbefore kept (Option.filter_eq_some_iff.1 hheld).1
  | none =>
    simp only [hheld] at hprepare
    cases hbuild : Model.build q.design.matrix q.rowTerms q.colTerms with
    | error f =>
      simp only [hbuild] at hprepare
      cases hprepare
      exact ⟨hbefore, fun kept hkept => by cases hkept⟩
    | ok model =>
      simp only [hbuild] at hprepare
      cases hprepare
      have hnew : Cache.Follows (some ⟨Key.ofRequest q, model, false⟩) (qs ++ [q]) := by
        rintro _ ⟨⟩
        exact ⟨q, List.mem_append_right _ List.mem_cons_self, rfl, hbuild⟩
      exact ⟨hnew, by rintro _ ⟨⟩; exact hnew⟩

/-- One more call. -/
theorem Cache.Follows.solve (h : c.Follows qs) (B : Backend α) (solver : Solver) (q : Request α) :
    ((engine B solver).solve c q).2.Follows (qs ++ [q]) := by
  rcases hprepare : Conic.prepare B c q with ⟨outcome, events, c'⟩
  obtain ⟨hafter, hkept⟩ := h.prepare hprepare
  cases outcome with
  | error f =>
    simp only [engine, hprepare]
    exact hafter
  | ok kept =>
    simp only [engine, hprepare]
    split
    · exact hafter
    · split
      · exact hafter
      · split
        · exact hafter
        · split
          · exact hafter
          · -- The model that is handed on is the one that was made.
            rintro _ ⟨⟩
            exact hkept kept rfl kept rfl

/-- The engine holds nothing but models of requests that it has served. -/
theorem follows_serve (B : Backend α) (solver : Solver) (qs : List (Request α)) :
    Cache.Follows ((engine B solver).serve none qs).1 qs := by
  induction qs using List.reverseRecOn with
  | nil => rintro _ ⟨⟩
  | append_singleton qs q ih =>
    rw [Engine.serve_concat]
    exact ih.solve B solver q

/-- Whatever the engine has served, a request with a term for each row and each column gets the
    model that a fresh engine would build for it. -/
theorem build_of_prepare (hB : B.Tells) (solver : Solver)
    (hobjects : Admm.SameObjects (qs ++ [q])) (hrows : q.rowTerms.length = q.height)
    (hcols : q.colTerms.length = q.width) :
    ∃ kept events c', Conic.prepare B ((engine B solver).serve none qs).1 q =
        (.ok kept, events, c') ∧
      Model.build q.design.matrix q.rowTerms q.colTerms = .ok kept.model := by
  have hfollows := follows_serve B solver qs
  generalize ((engine B solver).serve none qs).1 = c at hfollows ⊢
  cases hheld : c.filter fun k => k.key.same B.same (Key.ofRequest q) with
  | some kept =>
    obtain ⟨hmem, hsame⟩ := Option.filter_eq_some_iff.1 hheld
    obtain ⟨r, hr, hkey, hbuild⟩ := hfollows kept hmem
    rw [hkey] at hsame
    have hmatrix : r.design.matrix = q.design.matrix := by
      have hdesign := hsame
      simp only [Key.same, Bool.and_eq_true, decide_eq_true_eq] at hdesign
      exact hobjects r (List.mem_append_left _ hr) q (List.mem_append_right _ List.mem_cons_self)
        hdesign.1.1.1.1
    refine ⟨kept, [], c, by simp only [Conic.prepare, hheld], ?_⟩
    rw [← build_of_same hB hsame hmatrix]
    exact hbuild
  | none =>
    obtain ⟨model, hmodel⟩ := Model.exists_build hrows hcols
    refine ⟨⟨Key.ofRequest q, model, false⟩, [.modelled q.height q.width],
      some ⟨Key.ofRequest q, model, false⟩, ?_, hmodel⟩
    simp only [Conic.prepare, hheld, hmodel]

end Kept

/-- So the function that the engine minimises is the objective of the problem at hand. -/
theorem value?_of_prepare {B : Backend ℝ} (hB : B.Tells) (solver : Solver)
    {qs : List (Request ℝ)} {q : Request ℝ} (hobjects : Admm.SameObjects (qs ++ [q]))
    (hrows : q.rowTerms.length = q.height) (hcols : q.colTerms.length = q.width) :
    ∃ kept events c', Conic.prepare B ((engine B solver).serve none qs).1 q =
        (.ok kept, events, c') ∧
      ∀ x : List ℝ, x.length = q.width →
        kept.model.value? (q.colTerms.map Term.scale) x = q.form.value? x := by
  obtain ⟨kept, events, c', hprepare, hbuild⟩ := build_of_prepare hB solver hobjects hrows hcols
  exact ⟨kept, events, c', hprepare, fun x hx => Model.value?_of_build hbuild hrows hcols hx⟩

end Conic

end RegPath
