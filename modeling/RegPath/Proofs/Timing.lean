import Mathlib.Data.List.Infix
import RegPath.Timing

namespace RegPath.Timing

/-!
# Lines of timed functions

The lines of a thread are a matter of this thread alone: they are what it would report if it ran by
itself.  A call that returns and one that raises leave its depth as it was, so that the lines are
properly nested pairs, one for each call that begins, at the depth of the call.

* `onThread`, `Nesting.play`, `Nesting.settle` — one thread by itself;
* `Spans` — the calls that begin on one thread, one inside another, with `Spans.lines`;
* `Call.spans` — the spans of a call: its children that begin on its own thread;
* `Nested` — properly nested pairs;
* `Interleaves`, `Interleaves.reported` — threads that take turns in any order;
* `exists_interleaves_runProgram` — a program with its pools is one such order.
-/

variable {α : Type}

/-! ### One thread -/

/-- What happens on one thread, in order. -/
def onThread {β : Type} (t : Thread) (trace : List (Thread × β)) : List β :=
  trace.filterMap fun e => if e.1 = t then some e.2 else none

/-- Something on the thread comes first. -/
theorem onThread_cons_self {β : Type} (t : Thread) (b : β) (trace : List (Thread × β)) :
    onThread t ((t, b) :: trace) = b :: onThread t trace :=
  List.filterMap_cons_some (if_pos rfl)

/-- Something on another thread is left out. -/
theorem onThread_cons_of_ne {β : Type} {t u : Thread} (h : u ≠ t) (b : β)
    (trace : List (Thread × β)) : onThread t ((u, b) :: trace) = onThread t trace :=
  List.filterMap_cons_none (if_neg h)

/-- One part of a trace, then the other. -/
theorem onThread_append {β : Type} (t : Thread) (trace more : List (Thread × β)) :
    onThread t (trace ++ more) = onThread t trace ++ onThread t more :=
  List.filterMap_append

namespace Nesting

/-- The depth of a thread after one action. -/
def next (l : Nesting) (a : Action) : Nesting := (l.act (α := Unit) a).1

/-- It does not depend on what else the events quote. -/
theorem act_fst (l : Nesting) (a : Action) : (l.act (α := α) a).1 = l.next a := by
  cases a with
  | enter name => rfl
  | leave =>
    obtain ⟨depth, running⟩ := l
    cases running <;> rfl

/-- The depth of a thread after a sequence of actions. -/
def settle (l : Nesting) : List Action → Nesting
  | [] => l
  | a :: rest => (l.next a).settle rest

/-- The events of a thread that runs by itself. -/
def play (l : Nesting) : List Action → List (Event α)
  | [] => []
  | a :: rest => (l.act a).2.toList ++ (l.next a).play rest

/-- The depth after one sequence is that before the other. -/
theorem settle_append (l : Nesting) (as bs : List Action) :
    l.settle (as ++ bs) = (l.settle as).settle bs := by
  induction as generalizing l with
  | nil => rfl
  | cons a as ih => exact ih (l.next a)

/-- The events of one sequence, then those of the other from the depth after it on. -/
theorem play_append (l : Nesting) (as bs : List Action) :
    l.play (α := α) (as ++ bs) = l.play as ++ (l.settle as).play bs := by
  induction as generalizing l with
  | nil => rfl
  | cons a as ih => rw [List.cons_append, play, ih, play, settle, List.append_assoc]

end Nesting

/-- An action sets the depth of its thread. -/
theorem Nestings.act_self (ls : Nestings) (t : Thread) (a : Action) :
    (ls.act (α := α) t a).1 t = (ls t).next a :=
  (if_pos rfl).trans ((ls t).act_fst a)

/-- The other threads keep theirs. -/
theorem Nestings.act_of_ne (ls : Nestings) {t u : Thread} (h : u ≠ t) (a : Action) :
    (ls.act (α := α) u a).1 t = ls t :=
  if_neg h.symm

/-- The depth of a thread is that of the thread by itself. -/
theorem settle_apply (ls : Nestings) (trace : List (Thread × Action)) (t : Thread) :
    settle ls trace t = (ls t).settle (onThread t trace) := by
  induction trace generalizing ls with
  | nil => rfl
  | cons e trace ih =>
    obtain ⟨u, a⟩ := e
    rw [settle, ih]
    by_cases hu : u = t
    · subst hu
      rw [onThread_cons_self, Nesting.settle, ls.act_self]
    · rw [onThread_cons_of_ne hu, ls.act_of_ne hu]

/-- The events of a thread are those of the thread by itself. -/
theorem onThread_play (ls : Nestings) (trace : List (Thread × Action)) (t : Thread) :
    onThread t (play (α := α) ls trace) = (ls t).play (onThread t trace) := by
  induction trace generalizing ls with
  | nil => rfl
  | cons e trace ih =>
    obtain ⟨u, a⟩ := e
    have hevent : ∀ e : Option (Event α),
        onThread t (e.toList.map fun e => (u, e)) = if u = t then e.toList else [] := by
      intro e
      cases e with
      | none => simp [onThread]
      | some e => by_cases hu : u = t <;> simp [onThread, hu]
    rw [play, onThread_append, ih, hevent]
    by_cases hu : u = t
    · subst hu
      rw [onThread_cons_self, Nesting.play, ls.act_self, if_pos rfl]
      rfl
    · rw [onThread_cons_of_ne hu, ls.act_of_ne hu, if_neg hu, List.nil_append]

/-! ### Spans -/

/-- The calls that begin on one thread: no more, or one with those inside it and those after it. -/
inductive Spans where
  /-- No more calls. -/
  | done
  /-- A call, those that begin inside it, and those that begin after its end. -/
  | call (name : String) (inside after : Spans)

namespace Spans

/-- What the thread does. -/
def actions : Spans → List Action
  | done => []
  | call name inside after => .enter name :: (inside.actions ++ .leave :: after.actions)

/-- The lines of the thread: a pair for each call, around the lines of those inside it, which are
    one deeper. -/
def lines (depth : Nat) : Spans → List (Event α)
  | done => []
  | call name inside after =>
    .entered depth name :: (inside.lines (depth + 1) ++ .left depth name :: after.lines depth)

/-- Calls leave the depth as it was, whatever functions are open. -/
theorem settle_actions (s : Spans) (l : Nesting) : l.settle s.actions = l := by
  induction s generalizing l with
  | done => rfl
  | call name inside after hinside hafter =>
    rw [actions, Nesting.settle, Nesting.settle_append, hinside, Nesting.settle]
    -- The end returns to the depth that the beginning has noted, which is the one before the call.
    exact hafter l

/-- Calls report their lines, at the depth at which they begin. -/
theorem play_actions (s : Spans) (l : Nesting) : l.play (α := α) s.actions = s.lines l.depth := by
  induction s generalizing l with
  | done => rfl
  | call name inside after hinside hafter =>
    rw [actions, Nesting.play, Nesting.play_append, hinside, settle_actions, Nesting.play, lines]
    -- The end of the call finds the depth as the beginning has left it.
    exact congrArg (fun es => Event.entered l.depth name :: (inside.lines (l.depth + 1) ++
      Event.left l.depth name :: es)) (hafter l)

end Spans

/-- Lines in properly nested pairs, the outermost of them at a given depth and each pair one deeper
    than the one around it. -/
inductive Nested : Nat → List (Event α) → Prop where
  /-- No line. -/
  | nil (depth : Nat) : Nested depth []
  /-- A pair around nested lines, followed by others. -/
  | pair {depth : Nat} {name : String} {inside after : List (Event α)}
      (hinside : Nested (depth + 1) inside) (hafter : Nested depth after) :
      Nested depth (.entered depth name :: (inside ++ .left depth name :: after))

/-- The lines of calls are properly nested. -/
theorem Spans.nested_lines (s : Spans) (depth : Nat) : Nested (α := α) depth (s.lines depth) := by
  induction s generalizing depth with
  | done => exact .nil depth
  | call name inside after hinside hafter => exact .pair (hinside (depth + 1)) (hafter depth)

/-! ### Calls -/

/-- How a call ends, wherever it runs. -/
def Call.outcome (c : Call) : Outcome := (c.run [] []).2

mutual

/-- A call on its thread, followed by other spans: its children are inside it, unless they run in a
    thread of their own. -/
def Call.spans : Call → Spans → Spans
  | .mk name pooled children _ _, after =>
    .call name (if pooled then .done else Call.spansInside children) after

/-- The children that begin on the thread of a call: all up to the first whose fault is not
    caught. -/
def Call.spansInside : List (Bool × Call) → Spans
  | [] => .done
  | (guard, c) :: rest => c.spans (match c.outcome.guarded guard with
    | .error _ => .done
    | .ok _ => Call.spansInside rest)

end

/-- Calls that run on one thread, one after another, whatever becomes of them. -/
def spansOf (calls : List Call) : Spans := calls.foldr Call.spans .done

/-- A trace in which each thread runs its outermost calls one after another; the threads take turns
    in any order. -/
def Interleaves (trace : List (Thread × Action)) (calls : Thread → List Call) : Prop :=
  ∀ t, onThread t trace = (spansOf (calls t)).actions

/-- What a thread reports of its outermost calls, in a trace that begins with the depths `ls`. -/
structure Reported (α : Type) (ls : Nestings) (trace : List (Thread × Action)) (t : Thread)
    (calls : List Call) : Prop where
  /-- A pair of lines for each call that begins, at its depth. -/
  lines : onThread t (play (α := α) ls trace) = (spansOf calls).lines (ls t).depth
  /-- On a thread that has not run anything the outermost calls are at depth zero. -/
  outermost : ls t = .outermost → onThread t (play (α := α) ls trace) = (spansOf calls).lines 0
  /-- The pairs are properly nested. -/
  nested : Nested (ls t).depth (onThread t (play (α := α) ls trace))
  /-- After each of the outermost calls the depth is what it was. -/
  restored : ∀ before after k, trace = before ++ after →
    onThread t before = (spansOf (calls.take k)).actions → settle ls before t = ls t

/-- Whatever the other threads do, and whatever calls raise, a thread reports its calls in nested
    pairs, at their depths, and is back at its depth after each outermost call. -/
theorem Interleaves.reported {trace : List (Thread × Action)} {calls : Thread → List Call}
    (h : Interleaves trace calls) (ls : Nestings) (t : Thread) :
    Reported α ls trace t (calls t) := by
  have hlines : onThread t (play (α := α) ls trace) = (spansOf (calls t)).lines (ls t).depth := by
    rw [onThread_play, h t, Spans.play_actions]
  refine ⟨hlines, fun hfresh => ?_, ?_, fun before _ k _ hbefore => ?_⟩
  · rw [hlines, hfresh]
    rfl
  · rw [hlines]
    exact (spansOf (calls t)).nested_lines _
  · rw [settle_apply, hbefore, Spans.settle_actions]

/-- Two outermost calls of the main thread, the first of which raises what a call inside it raises,
    and one of another thread. -/
def raisingCalls : Thread → List Call
  | [] => [.mk "outer" false [(false, .mk "inner" false [] (some "lost") 0),
      (false, .mk "skipped" false [] none 0)] none 0, .mk "later" false [] none 0]
  | [1] => [.mk "other" false [] none 0]
  | _ => []

/-- The threads take turns. -/
def raisingTrace : List (Thread × Action) :=
  [([], .enter "outer"), ([1], .enter "other"), ([], .enter "inner"), ([], .leave), ([], .leave),
    ([], .enter "later"), ([1], .leave), ([], .leave)]

/-- The fault leaves no trace in what is reported later. -/
theorem Interleaves.reported_raising :
    Interleaves raisingTrace raisingCalls ∧
      onThread [] (play .start raisingTrace) =
        [.entered 0 "outer", .entered 1 "inner", .left 1 "inner", (.left 0 "outer" : Event Unit),
          .entered 0 "later", .left 0 "later"] := by
  have h : Interleaves raisingTrace raisingCalls := by
    intro t
    by_cases hmain : t = []
    · subst hmain
      rfl
    · by_cases hother : t = [1]
      · subst hother
        rfl
      · simp [raisingTrace, onThread, raisingCalls, spansOf, Spans.actions, Ne.symm hmain,
          Ne.symm hother]
  exact ⟨h, (h.reported .start []).lines⟩

/-! ### Programs -/

namespace Call

variable {u p : List Nat} {i : Nat} {guard : Bool} {c : Call} {rest : List (Bool × Call)}

/-- A fault that is not caught ends the children. -/
theorem runAll_of_error {text : String}
    (h : (c.run u (i :: p)).2.guarded guard = .error text) :
    Call.runAll u p i ((guard, c) :: rest) = ((c.run u (i :: p)).1, .error text) := by
  rw [Call.runAll]
  generalize c.run u (i :: p) = r at h ⊢
  obtain ⟨actions, o⟩ := r
  simp only [h]

/-- Otherwise the next one begins. -/
theorem runAll_of_ok {v : Int} (h : (c.run u (i :: p)).2.guarded guard = .ok v) :
    Call.runAll u p i ((guard, c) :: rest) =
      ((c.run u (i :: p)).1 ++ (Call.runAll u p (i + 1) rest).1,
        (Call.runAll u p (i + 1) rest).2.map (v + ·)) := by
  rw [Call.runAll]
  generalize c.run u (i :: p) = r at h ⊢
  obtain ⟨actions, o⟩ := r
  simp only [h]

end Call

mutual

/-- The outcome of a call does not depend on where it runs. -/
theorem Call.run_snd (u p u' p' : List Nat) : ∀ c : Call, (c.run u p).2 = (c.run u' p').2
  | .mk name pooled children raises value => by
    rw [Call.run, Call.run]
    cases pooled with
    | false => exact congrArg (Outcome.finish raises value) (Call.runAll_snd u p 0 u' p' 0 children)
    | true => exact congrArg (Outcome.finish raises value) (Call.runPool_snd p p 0 p' p' 0 children)

/-- Nor does that of its children on its thread. -/
theorem Call.runAll_snd (u p : List Nat) (i : Nat) (u' p' : List Nat) (i' : Nat) :
    ∀ children : List (Bool × Call),
      (Call.runAll u p i children).2 = (Call.runAll u' p' i' children).2
  | [] => rfl
  | (guard, c) :: rest => by
    have hc := Call.run_snd u (i :: p) u' (i' :: p') c
    cases hguard : (c.run u' (i' :: p')).2.guarded guard with
    | error text => rw [Call.runAll_of_error hguard, Call.runAll_of_error (hc ▸ hguard)]
    | ok v =>
      rw [Call.runAll_of_ok hguard, Call.runAll_of_ok (hc ▸ hguard),
        Call.runAll_snd u p (i + 1) u' p' (i' + 1) rest]

/-- Nor that of its children in a pool. -/
theorem Call.runPool_snd (u p : List Nat) (i : Nat) (u' p' : List Nat) (i' : Nat) :
    ∀ children : List (Bool × Call),
      (Call.runPool u p i children).2 = (Call.runPool u' p' i' children).2
  | [] => rfl
  | (guard, c) :: rest => by
    have hc := Call.run_snd u (i :: p) u' (i' :: p') c
    have hrest := Call.runPool_snd u p (i + 1) u' p' (i' + 1) rest
    rw [Call.runPool, Call.runPool]
    simp only [hc, hrest]
end

/-- What comes after a call is done after it. -/
theorem Call.actions_spans (c : Call) (after : Spans) :
    (c.spans after).actions = (c.spans .done).actions ++ after.actions := by
  obtain ⟨name, pooled, children, raises, value⟩ := c
  simp [Call.spans, Spans.actions]

/-- Calls that are done one after another. -/
theorem actions_spansOf_append (as bs : List Call) :
    (spansOf (as ++ bs)).actions = (spansOf as).actions ++ (spansOf bs).actions := by
  induction as with
  | nil => rfl
  | cons c as ih =>
    change (c.spans (spansOf (as ++ bs))).actions = (c.spans (spansOf as)).actions ++ _
    rw [c.actions_spans, ih, c.actions_spans (spansOf as), List.append_assoc]

/-- A piece of a trace in which thread `u` does its own spans.  The other threads that take part are
    named after position `p`, and do outermost calls. -/
structure Spread (trace : List (Thread × Action)) (u p : List Nat) (own : Spans)
    (calls : Thread → List Call) : Prop where
  /-- What the thread does. -/
  own : onThread u trace = own.actions
  /-- What the others do. -/
  others : ∀ t, t ≠ u → onThread t trace = (spansOf (calls t)).actions
  /-- Only threads named after the position take part. -/
  named : ∀ t, calls t ≠ [] → p <:+ t

/-- An outermost call of a thread, and what is done after it. -/
theorem Spread.cons {trace more : List (Thread × Action)} {u p : List Nat} {c : Call}
    {first calls : Thread → List Call} (h : Spread trace u p (c.spans .done) first)
    (hmore : Interleaves more calls) :
    Interleaves (trace ++ more) fun t => (if t = u then [c] else first t) ++ calls t := by
  intro t
  rw [onThread_append, hmore t, actions_spansOf_append]
  by_cases ht : t = u
  · subst ht
    rw [h.own, if_pos rfl]
    rfl
  · rw [h.others t ht, if_neg ht]

mutual

/-- A call is done on its thread, and pools on others. -/
theorem Call.exists_spread_run (u p : List Nat) (h : ¬ p <:+ u) :
    ∀ c : Call, ∃ calls, Spread (c.run u p).1 u p (c.spans .done) calls
  | .mk name pooled children raises value => by
    -- Both kinds of children leave their thread between the beginning and the end.
    have haround : ∀ (body : List (Thread × Action)) (inside : Spans) (calls : Thread → List Call),
        Spread body u p inside calls →
        Spread ((u, .enter name) :: body ++ [(u, .leave)]) u p (.call name inside .done) calls := by
      intro body inside calls hbody
      refine ⟨?_, fun t ht => ?_, hbody.named⟩
      · rw [List.cons_append, onThread_cons_self, onThread_append, hbody.own]
        simp [onThread, Spans.actions]
      · rw [List.cons_append, onThread_cons_of_ne (Ne.symm ht), onThread_append, hbody.others t ht,
          onThread_cons_of_ne (Ne.symm ht)]
        simp [onThread]
    cases pooled with
    | false =>
      obtain ⟨calls, hcalls⟩ := Call.exists_spread_runAll u p h 0 children
      exact ⟨calls, haround _ _ _ hcalls⟩
    | true =>
      obtain ⟨calls, hnamed, hcalls⟩ := Call.exists_calls_runPool p 0 children
      have hu : calls u = [] := by_contra fun hne => h (hnamed u hne)
      refine ⟨calls, haround _ .done _ ⟨?_, fun t _ => hcalls t, hnamed⟩⟩
      rw [hcalls, hu]
      rfl

/-- The children of a call that begin are done on its thread. -/
theorem Call.exists_spread_runAll (u p : List Nat) (h : ¬ p <:+ u) (i : Nat) :
    ∀ children : List (Bool × Call),
      ∃ calls, Spread (Call.runAll u p i children).1 u p (Call.spansInside children) calls
  | [] => ⟨fun _ => [], rfl, fun _ _ => rfl, fun _ hne => absurd rfl hne⟩
  | (guard, c) :: rest => by
    obtain ⟨first, hfirst⟩ := Call.exists_spread_run u (i :: p)
      (fun hsuffix => h ((List.suffix_cons i p).trans hsuffix)) c
    have hnamed : ∀ t, first t ≠ [] → p <:+ t := fun t ht =>
      (List.suffix_cons i p).trans (hfirst.named t ht)
    have houtcome : c.outcome = (c.run u (i :: p)).2 := Call.run_snd _ _ _ _ c
    rw [Call.spansInside, houtcome]
    -- What decides whether the next child begins is the same here and in the run.
    cases hguard : (c.run u (i :: p)).2.guarded guard with
    | error text =>
      rw [Call.runAll_of_error hguard]
      exact ⟨first, hfirst.own, hfirst.others, hnamed⟩
    | ok v =>
      obtain ⟨more, hmore⟩ := Call.exists_spread_runAll u p h (i + 1) rest
      rw [Call.runAll_of_ok hguard]
      refine ⟨fun t => first t ++ more t, ?_, fun t ht => ?_, fun t ht => ?_⟩
      · rw [onThread_append, hfirst.own, hmore.own, c.actions_spans (Call.spansInside rest)]
      · rw [onThread_append, hfirst.others t ht, hmore.others t ht, actions_spansOf_append]
      · by_cases hempty : first t = []
        · exact hmore.named t (by simpa [hempty] using ht)
        · exact hnamed t hempty

/-- The children in a pool are outermost calls of its thread. -/
theorem Call.exists_calls_runPool (p : List Nat) (i : Nat) :
    ∀ children : List (Bool × Call),
      ∃ calls : Thread → List Call, (∀ t, calls t ≠ [] → p <:+ t) ∧
        Interleaves (Call.runPool p p i children).1 calls
  | [] => ⟨fun _ => [], fun _ hne => absurd rfl hne, fun _ => rfl⟩
  | (guard, c) :: rest => by
    -- The pool has a shorter name than the positions of its calls, so pools inside them are others.
    have hlonger : ¬ i :: p <:+ p := fun hsuffix => by
      have hlength := hsuffix.length_le
      rw [List.length_cons] at hlength
      omega
    obtain ⟨first, hfirst⟩ := Call.exists_spread_run p (i :: p) hlonger c
    obtain ⟨more, hnamed, hmore⟩ := Call.exists_calls_runPool p (i + 1) rest
    refine ⟨_, fun t ht => ?_, hfirst.cons hmore⟩
    by_cases hp : t = p
    · exact hp ▸ List.suffix_refl p
    · by_cases hempty : first t = []
      · exact hnamed t (by simpa [hp, hempty] using ht)
      · exact (List.suffix_cons i p).trans (hfirst.named t hempty)

end

/-- A program is a trace in which the main thread does its calls, and each pool those of its
    own. -/
theorem exists_interleaves_runProgram (calls : List Call) :
    ∃ forest : Thread → List Call, forest [] = calls ∧ Interleaves (runProgram calls).1 forest := by
  have hfrom : ∀ k, ∃ forest : Thread → List Call, forest [] = calls ∧
      Interleaves (((calls.zipIdx k).map fun c => c.1.run [] [c.2]).flatMap Prod.fst) forest := by
    induction calls with
    | nil => exact fun k => ⟨fun _ => [], rfl, fun t => rfl⟩
    | cons c calls ih =>
      intro k
      obtain ⟨first, hfirst⟩ := Call.exists_spread_run [] [k] (by simp) c
      obtain ⟨more, hmain, hmore⟩ := ih (k + 1)
      exact ⟨_, congrArg (c :: ·) hmain, hfirst.cons hmore⟩
  exact hfrom 0

/-- A call in a pool is reported as an outermost one. -/
example : play (α := Unit) .start
    (runProgram [.mk "fit" true [(false, .mk "fold" false [] none 0)] none 0]).1 =
      [([], .entered 0 "fit"), ([0], .entered 0 "fold"), ([0], .left 0 "fold"),
        ([], .left 0 "fit")] := rfl

end RegPath.Timing
