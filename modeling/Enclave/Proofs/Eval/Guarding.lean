import Enclave.Proofs.Eval.Agreement
import Enclave.Proofs.Eval.Evaluator
import Enclave.Proofs.Eval.Respecting

/-!
# What holds at every evaluation of an operation

Two things are known wherever evaluation gets to: the machine and the context are sound, since what
binding rules out does not happen, and classes name themselves, since evaluation respects scopes.
Here the two are brought together, so that an observer of an operation may rely on both
(`Observer.Minds.observed_eq`).

A *guarded* evaluator breaks off at every evaluation that is not sound. It does with the parts of a
construct what it should, and hence never breaks off; and as long as it does not, any observed
evaluator does the same.
-/

namespace Enclave

variable {gone : Node → Prop} {m : Machine}

/-- However a piece ends, it has taken steps. -/
theorem Eval.Meets.steps {α : Type} {x : Eval α} {p : α → Machine → Prop}
    (hx : Eval.Meets gone x m p) : m.Steps gone (Eval.final x m) := by
  unfold Eval.Meets at hx
  unfold Eval.final
  cases hrun : x m with
  | ok a m' =>
    rw [hrun] at hx
    exact hx.1
  | error stop m' =>
    rw [hrun] at hx
    cases stop with
    | raised e => exact hx.1
    -- a sound piece never breaks
    | broken fault => exact hx.elim
    | exhausted => exact hx

/-- What is evaluated is evaluated on a sound machine, in a context that suits it. -/
def Activity.IsSound (gone : Node → Prop) (m : Machine) (a : Activity) : Prop :=
  m.Sound gone ∧
    match a with
    | .eval context e => ∃ sc, context.Suits gone m sc ∧ context.frame.unit.CoversExpr sc e
    | .exec context s => ∃ sc, context.Suits gone m sc ∧ context.frame.unit.CoversStmt sc s
    | .invoke _ this => m.world.Admits gone this

open Classical in
/-- The observer that breaks off at an evaluation that is not sound. -/
noncomputable def guard (gone : Node → Prop) : Observer := fun a x m =>
  if a.IsSound gone m then x m else .error (.broken .accessorOutsideClass) m

theorem guard_of_isSound {α : Type} {a : Activity} (h : a.IsSound gone m) (x : Eval α) :
    guard gone a x m = x m :=
  if_pos h

/-- **Guards** never come into play: guarded evaluators do with the parts of a construct what they
should. -/
theorem isSound_guarded (gone : Node → Prop) (steps : ℕ) :
    (observed (guard gone) steps).IsSound gone := by
  -- where the guard sees sound activity, it lets it run as it would
  have hguard : ∀ {α : Type} {a : Activity} {x : Eval α} {m : Machine} {q : α → Machine → Prop},
      a.IsSound gone m → Eval.Meets gone x m q → Eval.Meets gone (guard gone a x) m q := by
    intro α a x m q hsound hx
    unfold Eval.Meets
    rw [guard_of_isSound hsound]
    exact hx
  induction steps with
  | zero => exact isSound_evaluator gone 0
  | succ steps ih =>
    exact
      { eval := fun hm hc he => hguard ⟨hm, _, hc, he⟩ (Eval.yields_evalExpr ih hm hc he)
        exec := fun hm hc hs => hguard ⟨hm, _, hc, hs⟩ (Eval.flows_execStmt ih hm hc hs)
        invoke := fun hm hheld hf hthis hargs =>
          hguard ⟨hm, hthis⟩ (Eval.yields_invoke ih hm hheld hthis hargs hf) }

/-- An observer that lets evaluations be where they are sound and classes name themselves. -/
def Observer.Minds (around : Observer) (gone : Node → Prop) : Prop :=
  ∀ {α : Type} (a : Activity) (x : Eval α) {m : Machine}, a.IsSound gone m →
    m.world.NamesClasses none → around a x m = x m

theorem World.NamesClasses.toNone {but : Option ScopeId} {w : World} (h : w.NamesClasses but) :
    w.NamesClasses none :=
  ⟨h.names, nofun, nofun⟩

section Observed

variable {around : Observer} (haround : around.Minds gone)

include haround

/-- Unless the guard breaks off, an observer of the kind does what the guard does. -/
theorem Observer.Minds.tracks {α : Type} {parts parts' : Evaluator} {but : Option ScopeId}
    {x : Evaluator → Eval α} (hx : Eval.Tracks parts parts' but x) (a : Activity) :
    Eval.Respects but (guard gone a (x parts)) ∧ ∀ m : Machine, m.world.NamesClasses but →
      guard gone a (x parts) m = around a (x parts') m ∨
        Eval.IsBroken (guard gone a (x parts) m) := by
  refine ⟨fun m => ?_, fun m hm => ?_⟩
  · -- sound activity runs, and is seen to be so by the observer; the rest is broken off
    by_cases hsound : a.IsSound gone m
    · rw [Eval.Leaves, Eval.final, guard_of_isSound hsound, ← Eval.final]
      exact hx.respects m
    · rw [Eval.Leaves, Eval.final_of_error (if_neg hsound)]
      exact fun _ => .refl but m.world
  · by_cases hsound : a.IsSound gone m
    · rw [guard_of_isSound hsound, haround a _ hsound hm.toNone]
      exact hx.same m hm
    · exact Or.inr ⟨_, m, if_neg hsound⟩

theorem Observer.Minds.tracks_observed (steps : ℕ) :
    (observed (guard gone) steps).Tracks (observed around steps) := by
  -- On the steps, part by part, with the evaluators of one step less.
  induction steps with
  | zero => exact tracks_evaluator 0
  | succ steps ih =>
    exact
      { eval := fun context e but =>
          have h := haround.tracks (Eval.tracks_evalExpr ih e) (.eval context e)
          ⟨h.1, h.2⟩
        exec := fun context s =>
          have h := haround.tracks (Eval.tracks_execStmt ih s) (.exec context s)
          ⟨h.1, h.2⟩
        invoke := fun held f this args construction but =>
          have h := haround.tracks (Eval.tracks_invoke ih held f this args construction)
            (.invoke f this)
          ⟨h.1, h.2⟩
        rounds := rfl }

/-- An observed operation that runs into no fault when it is guarded ends as the guarded one. -/
theorem Observer.Minds.guarded_eq {α : Type} {x : Evaluator → Eval α} {but : Option ScopeId}
    {q : α → Machine → Prop}
    (htracks : ∀ parts parts' : Evaluator, parts.Tracks parts' → Eval.Tracks parts parts' but x)
    (hmeets : ∀ parts : Evaluator, parts.IsSound gone → Eval.Meets gone (x parts) m q)
    (hm : m.world.NamesClasses but) (steps : ℕ) :
    x (observed (guard gone) steps) m = x (observed around steps) m := by
  have hguarded := hmeets _ (isSound_guarded gone steps)
  refine ((htracks _ _ (haround.tracks_observed steps)).same m hm).resolve_right ?_
  rintro ⟨f, m', hbroken⟩
  rw [Eval.Meets, hbroken] at hguarded
  exact hguarded

end Observed

/-- The observer that does nothing. -/
theorem observed_id (steps : ℕ) : observed (fun _ x => x) steps = evaluator steps := by
  induction steps with
  | zero => rfl
  | succ steps ih =>
    rw [observed, ih]
    rfl

/-- **Observation** makes no difference to an operation, if it makes none where evaluation is sound
and classes name themselves. -/
theorem Observer.Minds.observed_eq {around : Observer} (haround : around.Minds gone) {α : Type}
    {x : Evaluator → Eval α} {but : Option ScopeId} {q : α → Machine → Prop}
    (htracks : ∀ parts parts' : Evaluator, parts.Tracks parts' → Eval.Tracks parts parts' but x)
    (hmeets : ∀ parts : Evaluator, parts.IsSound gone → Eval.Meets gone (x parts) m q)
    (hm : m.world.NamesClasses but) (steps : ℕ) :
    x (observed around steps) m = x (evaluator steps) m := by
  have hid : Observer.Minds (fun _ x => x) gone := fun _ _ _ _ _ => rfl
  rw [← haround.guarded_eq htracks hmeets hm steps, hid.guarded_eq htracks hmeets hm steps,
    observed_id]

end Enclave
