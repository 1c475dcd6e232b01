import RegPath.Proofs.CrossValidation.Alignment

namespace RegPath.CrossValidation

/-!
# Fits one after the other

What a fit learns depends on its data alone, and it replaces what the fits before it have left.  A
fit that succeeds learns a table, a penalty and coefficients, but without a positive penalty it has
no path: the last path of the fits before it stays, although it belongs to other data.

* `FitCall` — what a fit is asked for;
* `Selector.fresh`, `Selector.afterFits` — what is fitted after one call, and after some;
* `Selector.orElse`, `Selector.selector_call` — each call replaces what it learns, and no more;
* `Selector.path_afterFits` — the path is the last one that a call learns;
* `Selector.Refitted`, `Selector.refitted_of_ok` — what is fitted if the last call succeeds.
-/

/-- What a fit is asked for. -/
structure FitCall (α : Type) where
  /-- The turns of its workers. -/
  choices : List Nat
  /-- The matrix. -/
  form : MatrixForm α
  /-- The observations. -/
  b : List α

variable {α : Type} [Scalar α] {σ : Type}

/-- The data of the call have no positive penalty. -/
def FitCall.Degenerate (c : FitCall α) : Prop :=
  ∃ A top, c.form.read = .ok A ∧ lambdaMax A c.b = .ok top ∧ top ≤ 0

namespace Selector

section Calls

variable (split : Nat → Except (Fault α) (List Split)) (F : Nat → Factory α σ) (s : Settings α)

/-- The fit that is asked for. -/
def call (t : Selector α) (c : FitCall α) : Fit α := t.fitBy split F s c.choices c.form c.b

/-- What is fitted after some calls, one after the other. -/
def afterFits (calls : List (FitCall α)) : Selector α :=
  calls.foldl (fun t c => (t.call split F s c).selector) .new

/-- What is fitted after the call alone. -/
def fresh (c : FitCall α) : Selector α := (Selector.new.call split F s c).selector

end Calls

/-- What is there in the first, and else in the second. -/
def orElse (u t : Selector α) : Selector α where
  curve := u.curve.or t.curve
  best := u.best.or t.best
  coef := u.coef.or t.coef
  path := u.path.or t.path

variable {split : Nat → Except (Fault α) (List Split)} {F : Nat → Factory α σ} {s : Settings α}
  {form : MatrixForm α} {b : List α}

/-! ### One call -/

/-- What a fit learns is taught by the data alone, and replaces what was fitted before. -/
theorem Learns.alone {t u : Selector α} (h : Learns split F s form b t u) :
    ∃ v, Learns split F s form b .new v ∧ u = v.orElse t := by
  cases h with
  | degenerate hA htop hle hroom => exact ⟨_, .degenerate hA htop hle hroom, rfl⟩
  | regular hA htop hpos hlayOut herrors hpath =>
    exact ⟨_, .regular hA htop hpos hlayOut herrors hpath, rfl⟩

/-- What the data alone teach can be learnt after any other fit. -/
theorem Learns.after {v : Selector α} (h : Learns split F s form b .new v) (t : Selector α) :
    Learns split F s form b t (v.orElse t) := by
  cases h with
  | degenerate hA htop hle hroom => exact .degenerate hA htop hle hroom
  | regular hA htop hpos hlayOut herrors hpath =>
    exact .regular hA htop hpos hlayOut herrors hpath

/-- A fit on folds that fails leaves what was fitted before. -/
theorem selector_fitSplits {choices : List Nat} {t : Selector α} {A : RowMatrix α} {top : α}
    {lambdas : List α} {splits : List Split} :
    (fitSplits F s choices t A b top lambdas splits).outcome ≠ .ok () →
      (fitSplits F s choices t A b top lambdas splits).selector = t := by
  unfold fitSplits
  cases runFolds s.workers choices (Fold.startAll F s A b top splits) with
  | mk outcome events =>
    cases outcome with
    | error f => exact fun _ => rfl
    | ok errors =>
      cases fullPath (F splits.length) s A b with
      | mk full more =>
        cases full with
        | error f => exact fun _ => rfl
        | ok path => exact fun h => absurd rfl h

/-- A fit of rows that fails leaves what was fitted before, unless there is no room for its
    coefficients. -/
theorem selector_fitRows {choices : List Nat} {t : Selector α} {A : RowMatrix α}
    (hA : ¬ Overfull A b) : (fitRows split F s choices t A b).outcome ≠ .ok () →
      (fitRows split F s choices t A b).selector = t := by
  unfold fitRows
  cases htop : lambdaMax A b with
  | error f => exact fun _ => rfl
  | ok top =>
    by_cases hle : top ≤ 0
    · have hroom : Scalar.HasRoom α A.cols := by
        by_contra hroom
        exact hA ⟨top, htop, hle, hroom⟩
      simp only [if_pos hle, fitZero, if_pos hroom]
      exact fun h => absurd rfl h
    · simp only [if_neg hle]
      cases layOut split s A.height top with
      | error f => exact fun _ => rfl
      | ok laid => exact selector_fitSplits

/-- A fit that fails leaves what was fitted before, unless there is no room for its coefficients. -/
theorem selector_of_not_ok {choices : List Nat} {t : Selector α}
    (hroom : ∀ A, form.read = .ok A → ¬ Overfull A b) :
    (t.fitBy split F s choices form b).outcome ≠ .ok () →
      (t.fitBy split F s choices form b).selector = t := by
  unfold fitBy
  cases hA : form.read with
  | error f => exact fun _ => rfl
  | ok A => exact selector_fitRows (hroom A hA)

/-- Each call replaces what it learns, and no more; a call that fails learns nothing, or just the
    penalty. -/
theorem selector_call (t : Selector α) (c : FitCall α) :
    (t.call split F s c).selector = (fresh split F s c).orElse t := by
  by_cases hroom : ∃ A, c.form.read = .ok A ∧ Overfull A c.b
  · obtain ⟨A, hA, hfull⟩ := hroom
    rw [call, (fitBy_of_overfull hA hfull c.choices t).2, fresh, call,
      (fitBy_of_overfull hA hfull c.choices new).2]
    rfl
  have hroom : ∀ A, c.form.read = .ok A → ¬ Overfull A c.b := fun A hA hfull => hroom ⟨A, hA, hfull⟩
  by_cases h : (Selector.new.call split F s c).outcome = .ok ()
  · exact (fitBy_of_learns ((learns_of_fitBy h).after t) c.choices).2
  · -- What was fitted before cannot make a call succeed.
    have ht : (t.call split F s c).outcome ≠ .ok () := by
      intro ht
      obtain ⟨v, hv, -⟩ := (learns_of_fitBy ht).alone
      exact h (fitBy_of_learns hv c.choices).1
    have hfresh : fresh split F s c = new := selector_of_not_ok hroom h
    rw [hfresh]
    exact selector_of_not_ok hroom ht

/-- A call has a path of its own only if its data have a positive penalty. -/
theorem path_fresh_of_degenerate {c : FitCall α} (h : c.Degenerate) :
    (fresh split F s c).path = none := by
  obtain ⟨A, top, hA, htop, hle⟩ := h
  by_cases hroom : Scalar.HasRoom α A.cols
  · have hlearns : Learns split F s c.form c.b .new _ := .degenerate hA htop hle hroom
    rw [fresh, call, (fitBy_of_learns hlearns c.choices).2]
    rfl
  · rw [fresh, call, (fitBy_of_overfull hA ⟨top, htop, hle, hroom⟩ c.choices new).2]
    rfl

/-! ### Some calls -/

/-- One more call. -/
theorem afterFits_concat (calls : List (FitCall α)) (c : FitCall α) :
    afterFits split F s (calls ++ [c]) =
      (fresh split F s c).orElse (afterFits split F s calls) := by
  rw [afterFits, List.foldl_concat, selector_call]
  rfl

/-- The path is the last one that a call learns from its own data. -/
theorem path_afterFits (calls : List (FitCall α)) :
    (afterFits split F s calls).path =
      (calls.filterMap fun c => (fresh split F s c).path).getLast? := by
  induction calls using List.reverseRecOn with
  | nil => rfl
  | append_singleton calls c ih =>
    -- The last call has a path of its own, or it leaves the one that is there.
    rw [afterFits_concat, List.filterMap_append]
    show (fresh split F s c).path.or (afterFits split F s calls).path = _
    rw [ih]
    cases hpath : (fresh split F s c).path with
    | none => simp [hpath]
    | some path => simp [hpath]

/-- What is fitted after some calls and a last one that succeeds, next to what is fitted after a
    single fit of the data of the last. -/
structure Refitted (split : Nat → Except (Fault α) (List Split)) (F : Nat → Factory α σ)
    (s : Settings α) (earlier : List (FitCall α)) (last : FitCall α) (t u : Selector α) : Prop where
  /-- The table is that of the last call. -/
  curve : t.curve = u.curve
  /-- So is the penalty. -/
  best : t.best = u.best
  /-- So are the coefficients. -/
  coef : t.coef = u.coef
  /-- So is the path, if the data of the last call have a positive penalty. -/
  path : ¬ last.Degenerate → t.path = u.path
  /-- Else the last call has no path, and the last one before it stays. -/
  stale : last.Degenerate → u.path = none ∧
    t.path = (earlier.filterMap fun c => (fresh split F s c).path).getLast?

/-- After calls of any data and outcomes, of which the last succeeds, all is fitted as by a single
    fit of its data, but for the path if they have no positive penalty. -/
theorem refitted_of_ok (earlier : List (FitCall α)) {last : FitCall α}
    (h : ((afterFits split F s earlier).call split F s last).outcome = .ok ())
    (choices : List Nat) :
    (Selector.new.fitBy split F s choices last.form last.b).outcome = .ok () ∧
      Refitted split F s earlier last (afterFits split F s (earlier ++ [last]))
        (Selector.new.fitBy split F s choices last.form last.b).selector := by
  obtain ⟨v, hv, -⟩ := (learns_of_fitBy h).alone
  obtain ⟨houtcome, hselector⟩ := fitBy_of_learns hv choices
  have hfresh : fresh split F s last = v := (fitBy_of_learns hv last.choices).2
  rw [hselector, afterFits_concat, hfresh]
  refine ⟨houtcome, ?_⟩
  cases hv with
  | degenerate hA htop hle hroom =>
    refine ⟨rfl, rfl, rfl, fun hregular => absurd ⟨_, _, hA, htop, hle⟩ hregular, fun _ => ?_⟩
    exact ⟨rfl, path_afterFits earlier⟩
  | regular hA htop hpos hlayOut herrors hpath =>
    refine ⟨rfl, rfl, rfl, fun _ => rfl, fun hdegenerate => ?_⟩
    obtain ⟨A, top, hA', htop', hle⟩ := hdegenerate
    cases hA.symm.trans hA'
    cases htop.symm.trans htop'
    exact absurd hle hpos

end Selector

/-! ### Two calls -/

/-- The observations one and zero. -/
noncomputable def oneCall : FitCall ℝ := ⟨[1, 0, 1], .compressed columnLayout, [1, 0]⟩

/-- The observations zero and zero. -/
noncomputable def zeroCall : FitCall ℝ := ⟨[], .compressed columnLayout, [0, 0]⟩

/-- The call of zeros has no positive penalty. -/
theorem zeroCall_degenerate : zeroCall.Degenerate := by
  refine ⟨_, _, read_column, lambdaMax_column 0 0, ?_⟩
  rw [add_zero, abs_zero]

namespace Selector

/-- The call of zeros succeeds after any fit. -/
theorem zeroCall_ok (t : Selector ℝ) :
    (t.call pairSettings.split (fun _ => zeroFactory) pairSettings zeroCall).outcome = .ok () := by
  obtain ⟨A, top, hA, htop, hle⟩ := zeroCall_degenerate
  exact (fitBy_of_learns (.degenerate hA htop hle (Scalar.hasRoom_real _)) _).1

/-- The call of one and zero has a path. -/
theorem exists_path_oneCall :
    ∃ path, (fresh pairSettings.split (fun _ => zeroFactory) pairSettings oneCall).path =
      some path := by
  obtain ⟨u, path, hlearns, hpath⟩ := exists_learns_oneZero zeroFactory_serves new
  refine ⟨path, ?_⟩
  rw [← hpath, ← (fitBy_of_learns hlearns oneCall.choices).2]
  rfl

/-- After a fit of one and zero, the fit of zeros is as by itself, but for the path. -/
theorem refitted_of_ok_zeroCall :
    ((afterFits pairSettings.split (fun _ => zeroFactory) pairSettings [oneCall]).call
        pairSettings.split (fun _ => zeroFactory) pairSettings zeroCall).outcome = .ok () ∧
      Refitted pairSettings.split (fun _ => zeroFactory) pairSettings [oneCall] zeroCall
        (afterFits pairSettings.split (fun _ => zeroFactory) pairSettings [oneCall, zeroCall])
        (Selector.new.fitBy pairSettings.split (fun _ => zeroFactory) pairSettings []
          zeroCall.form zeroCall.b).selector :=
  ⟨zeroCall_ok _, (refitted_of_ok [oneCall] (zeroCall_ok _) []).2⟩

/-- Not all that is fitted by calls of which the last succeeds is fitted by the last call alone:
    after a fit of one and zero and a fit of zeros, the path of one and zero is still there. -/
theorem not_forall_fresh :
    ¬ ∀ (split : Nat → Except (Fault ℝ) (List Split)) (F : Nat → Factory ℝ Unit)
      (s : Settings ℝ) (earlier : List (FitCall ℝ)) (last : FitCall ℝ),
      ((afterFits split F s earlier).call split F s last).outcome = .ok () →
        afterFits split F s (earlier ++ [last]) = fresh split F s last := by
  intro h
  have hfresh := congrArg Selector.path
    (h pairSettings.split (fun _ => zeroFactory) pairSettings [oneCall] zeroCall (zeroCall_ok _))
  obtain ⟨path, hpath⟩ := exists_path_oneCall
  -- The call of zeros has no path, so the one of the call before is the last that there is.
  rw [path_afterFits, path_fresh_of_degenerate zeroCall_degenerate] at hfresh
  simp only [List.cons_append, List.nil_append, List.filterMap_cons, List.filterMap_nil, hpath,
    path_fresh_of_degenerate zeroCall_degenerate, List.getLast?_singleton, reduceCtorEq] at hfresh

end Selector

end RegPath.CrossValidation
