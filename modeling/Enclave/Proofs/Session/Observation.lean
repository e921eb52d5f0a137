import Enclave.Proofs.Eval.Guarding
import Enclave.Proofs.Session.Tidiness

/-!
# What holds at every evaluation in a session

In every session classes name themselves (`Session.Hosted.namesClasses`), and the machine behind it
is sound. Both stay so wherever an operation gets to. So an observer of operations may rely on
them: if it lets evaluations be where the machine and the context are sound and classes name
themselves, it makes no difference to any operation (`Session.Hosted.observed_eq`).
-/

namespace Enclave

open Eval

namespace Session

variable {s : Session} {held : List Value}

/-- At the start there are no classes. -/
theorem namesClasses_start (maxDepth : ℕ) :
    (start maxDepth).machine.world.NamesClasses (some Scopes.rootId) := by
  -- There is no class in the beginning.
  have hnone : (start maxDepth).machine.world.classes.size = 0 :=
    World.isPrepared_initialWorld.noClass
  refine ⟨fun i hi => ?_, fun scope hscope => ?_, fun scope hscope i hi => ?_⟩
  · rw [hnone] at hi
    exact absurd hi (Nat.not_lt_zero i)
  · cases hscope
    exact (sound_start maxDepth).root.1
  · rw [hnone] at hi
    exact absurd hi (Nat.not_lt_zero i)

/-- What can be performed tracks, with whatever evaluator. -/
theorem respects_operation {x : Eval Value} (hx : s.Operation held x) :
    Respects (some Scopes.rootId) x := by
  cases hx with
  | run steps _ => exact (tracks_runUnit (tracks_evaluator steps) _).respects
  | call steps _ _ _ => exact (tracks_callValue (tracks_evaluator steps) _ _ _ _).respects

/-- In every session all classes name themselves, and none has the global scope for its own. -/
theorem Hosted.namesClasses (h : s.Hosted held) :
    s.machine.world.NamesClasses (some Scopes.rootId) := by
  induction h with
  | start maxDepth => exact namesClasses_start maxDepth
  | perform _ hx ih => exact ih.respects (respects_operation hx _ ih.made)
  -- between operations no scope, class or token is touched
  | newObject _ _ ih => exact ih.respects (World.respects_of_same rfl rfl rfl fun _ => rfl)
  | @edit s kept o e _ _ _ ih =>
    refine ih.respects ?_
    cases e <;> exact World.respects_of_same rfl rfl rfl fun _ => rfl
  | @settle s kept held _ _ ih =>
    have hsame := World.sameContents_reclaim s.machine.world (.scope Scopes.rootId :: nodesOf held)
    exact ih.respects
      (World.respects_of_same hsame.scopes hsame.classes hsame.tokenCount hsame.name)
  | take _ _ ih | takeOutput _ ih => exact ih

/-- **Observation.** An observer that lets evaluations be where they are sound and classes name
themselves makes no difference to any operation of a session. -/
theorem Hosted.observed_eq (h : s.Hosted held) {around : Observer}
    (haround : ∀ gone, around.Minds gone) (steps : ℕ) :
    (∀ source unit, compile source = .ok unit →
      Eval.runUnit (observed around steps) unit s.machine =
        Eval.runUnit (evaluator steps) unit s.machine) ∧
    ∀ callee this args, s.Offers held callee → s.Offers held this →
      (∀ v ∈ args, s.Offers held v) →
      callValue (observed around steps) [.scope Scopes.rootId] callee this args s.machine =
        callValue (evaluator steps) [.scope Scopes.rootId] callee this args s.machine := by
  obtain ⟨gone, hm, hheld⟩ := h.machine
  have hsound := hm.sound
  have hnames := h.namesClasses
  have hminds : around.Minds gone := haround gone
  -- For a run and for a call alike: the piece is sound, and both evaluators track it.
  refine ⟨fun source unit hcompile => ?_, fun callee this args hcallee hthis hargs => ?_⟩
  · exact hminds.observed_eq (x := fun p => Eval.runUnit p unit)
      (fun _ _ hparts => tracks_runUnit hparts unit)
      (fun _ hparts => yields_runUnit hparts hsound (CompiledUnit.isBound_of_compile hcompile))
      hnames steps
  · have hmeets : ∀ parts : Evaluator, parts.IsSound gone →
        Yields gone (callValue parts [.scope Scopes.rootId] callee this args) s.machine :=
      fun parts hparts => yields_callValue hparts hsound
        (fun n hn => List.mem_singleton.mp hn ▸ hsound.root) (admits_of_offers hsound hheld hthis)
        (fun v hv => admits_of_offers hsound hheld (hargs v hv))
        (admits_of_offers hsound hheld hcallee)
    exact hminds.observed_eq
      (x := fun p => callValue p [.scope Scopes.rootId] callee this args)
      (fun _ _ hparts => tracks_callValue hparts _ _ _ _) hmeets hnames steps

/-- Whether an observer is noticed: code that ends well at the start fails under it. -/
def isNoticed (around : Observer) (steps : ℕ) (unit : CompiledUnit) : Bool :=
  (Eval.runUnit (observed around steps) unit (start 128).machine matches .error ..) &&
    (Eval.runUnit (evaluator steps) unit (start 128).machine matches .ok ..)

/-- An observer that is noticed makes a difference to a run. -/
theorem exists_observed_ne (around : Observer) (steps : ℕ) (source : List UInt8)
    (h : (compile source).toOption.any (isNoticed around steps) = true) :
    ∃ unit, compile source = .ok unit ∧
      Eval.runUnit (observed around steps) unit (start 128).machine ≠
        Eval.runUnit (evaluator steps) unit (start 128).machine := by
  obtain ⟨unit, hcompile, hnoticed⟩ := exists_compiled source _ h
  refine ⟨unit, hcompile, fun hsame => ?_⟩
  rw [isNoticed, hsame] at hnoticed
  -- one and the same run would have to fail and to end well
  cases hrun : Eval.runUnit (evaluator steps) unit (start 128).machine with
  | ok v m =>
    rw [hrun] at hnoticed
    cases hnoticed
  | error stop m =>
    rw [hrun] at hnoticed
    cases hnoticed

end Session

end Enclave
