import Enclave.Proofs.Eval.Evaluator
import Enclave.Proofs.Eval.Relations
import Enclave.Proofs.Run.Reached
import Enclave.Proofs.Store.Edits

/-!
# Histories of sessions

What a host and scripts can do with a session, in any order and any number of times
(`Session.Hosted`). Sources are run and values are called, with whatever the host can get hold of
(`Session.Offers`). The host keeps results and what it finds in them for as long as it likes, makes
objects, edits the properties of objects, lets go of what it has kept, and takes the output. So it
may call a closure again that an earlier run returned. Operations may take any number of steps, and
may end in any way, also by using up their steps.

The machine behind every such session is reached by sound steps, and whatever the host keeps may
turn up in what runs next (`Session.Hosted.machine`).
-/

namespace Enclave

/-- A source that a test of compiled units accepts is compiled. -/
theorem exists_compiled (source : List UInt8) (test : CompiledUnit → Bool)
    (h : (compile source).toOption.any test = true) :
    ∃ unit, compile source = .ok unit ∧ test unit = true := by
  cases hcompile : compile source with
  | error e =>
    rw [hcompile] at h
    cases h
  | ok unit =>
    rw [hcompile] at h
    exact ⟨unit, rfl, h⟩

namespace Session

/-! ### Operations -/

/-- The values that the host can get hold of in a session, besides those it was given. -/
inductive Offers (s : Session) (kept : List Value) : Value → Prop
  | held {v : Value} (h : v ∈ kept) : Offers s kept v
  /-- Values that refer to nothing can be made. -/
  | plain {v : Value} (h : v.node? = none) : Offers s kept v
  | global {name : String} {v : Value} (h : s.global? name = some v) : Offers s kept v
  | property {o : ObjectId} {key : PropertyKey} {v : Value} (ho : Offers s kept (.object o))
    (h : s.machine.world.getProperty? o key = some v) : Offers s kept v
  /-- What a class keeps for an object. -/
  | slot {o : ObjectId} {c : ClassRef} {t : SlotTable} {key : PropertyKey} {v : Value}
    (ho : Offers s kept (.object o)) (hc : Offers s kept (.class c)) (ht : s.tableOf? o c = some t)
    (h : t.get? key = some v) : Offers s kept v
  | prototype {c : ClassRef} (hc : Offers s kept (.class c)) :
    Offers s kept (.object (s.machine.world.classAt c).prototype)

/-- What can be performed in a session: running a unit that was compiled, or calling a value, in any
number of steps. -/
inductive Operation (s : Session) (kept : List Value) : Eval Value → Prop
  | run {source : List UInt8} {unit : CompiledUnit} (steps : ℕ) (h : compile source = .ok unit) :
    Operation s kept (Eval.runUnit (evaluator steps) unit)
  | call {callee this : Value} {args : List Value} (steps : ℕ) (hcallee : s.Offers kept callee)
    (hthis : s.Offers kept this) (hargs : ∀ v ∈ args, s.Offers kept v) :
    Operation s kept
      (Eval.callValue (evaluator steps) [.scope Scopes.rootId] callee this args)

/-- Replaces the world of a session. -/
def withWorld (s : Session) (world : World) : Session := ⟨{ s.machine with world }⟩

/-- **Histories.** The sessions that are reached, with the values that the host keeps: results of
operations, what it gets hold of from there, and objects of its own. -/
inductive Hosted : Session → List Value → Prop
  | start (maxDepth : ℕ) : Hosted (start maxDepth) []
  /-- An operation has returned, and nothing has been reclaimed yet. -/
  | perform {s : Session} {kept : List Value} {x : Eval Value} (h : Hosted s kept)
    (hx : s.Operation kept x) :
    Hosted ⟨Eval.final x s.machine⟩ ((s.perform x).1.values ++ kept)
  | newObject {s : Session} {kept : List Value} {proto : Option ObjectId} (h : Hosted s kept)
    (hproto : ∀ p ∈ proto, s.Offers kept (.object p)) :
    Hosted (s.withWorld (s.machine.world.newObject proto).2)
      (.object (s.machine.world.newObject proto).1 :: kept)
  | edit {s : Session} {kept : List Value} {o : ObjectId} {e : SlotTable.Edit} (h : Hosted s kept)
    (ho : s.Offers kept (.object o)) (hvalue : ∀ v ∈ e.value?, s.Offers kept v) :
    Hosted (s.withWorld (s.machine.world.edit (.object o) e)) kept
  | take {s : Session} {kept : List Value} {v : Value} (h : Hosted s kept)
    (hv : s.Offers kept v) : Hosted s (v :: kept)
  /-- The host lets go of all but some values, and what nothing holds any more is reclaimed. -/
  | settle {s : Session} {kept held : List Value} (h : Hosted s kept) (hheld : held ⊆ kept) :
    Hosted (s.settle held) held
  | takeOutput {s : Session} {kept : List Value} (h : Hosted s kept) : Hosted s.takeOutput.2 kept

variable {s : Session} {gone : Node → Prop} {kept held : List Value}

/-- Running a source is one of the operations, unless it is rejected. -/
theorem run_eq (s : Session) (source : List UInt8) :
    (∃ e, s.run source = (.rejected e, s)) ∨
      ∃ x, (∀ kept, Operation s kept x) ∧ s.run source = s.perform x := by
  unfold run
  cases h : compile source with
  | error e => exact Or.inl ⟨e, rfl⟩
  | ok unit => exact Or.inr ⟨_, fun _ => .run steps h, rfl⟩

/-- An operation leaves a machine, on which what is not held any more is reclaimed. -/
theorem perform_eq (s : Session) (x : Eval Value) :
    (s.perform x).2 = (Session.mk (Eval.final x s.machine)).settle (s.perform x).1.values := by
  unfold perform Eval.final
  cases x s.machine with
  | ok v m => rfl
  | error stop m => cases stop <;> rfl

/-- A host that keeps nothing but the last result is one of those that keep what they like. -/
theorem Hosted.performed (h : s.Hosted kept) {x : Eval Value} (hx : s.Operation kept x) :
    (s.perform x).2.Hosted (s.perform x).1.values := by
  rw [perform_eq]
  exact (h.perform hx).settle (List.subset_append_left _ _)

/-! ### Sessions that run a single source -/

/-- What comes of a source that is run in a fresh session, in a number of steps. -/
def ran (maxDepth : ℕ) (source : List UInt8) (steps : ℕ) : Outcome × Session :=
  match compile source with
  | .ok unit => (start maxDepth).perform (Eval.runUnit (evaluator steps) unit)
  | .error e => (.rejected e, start maxDepth)

/-- The session after such a run. A session with a name of its own is defined by it, so that the two
names are compared and the run is not carried out. -/
def left (maxDepth : ℕ) (source : List UInt8) (steps : ℕ) : Session := (ran maxDepth source steps).2

/-- After the run the host has its result. -/
theorem hosted_left (maxDepth : ℕ) (source : List UInt8) (steps : ℕ) :
    Hosted (left maxDepth source steps) (ran maxDepth source steps).1.values := by
  unfold left ran
  cases h : compile source with
  | ok unit => exact (Hosted.start maxDepth).performed (.run steps h)
  | error e => exact .start maxDepth

/-! ### Machines behind sessions -/

/-- Whatever the host gets hold of may turn up. -/
theorem admits_of_offers (hm : s.machine.Sound gone)
    (hkept : ∀ v ∈ kept, s.machine.world.Admits gone v) {v : Value} (h : s.Offers kept v) :
    s.machine.world.Admits gone v := by
  -- what is offered is held by the host, named, or found in what is offered
  induction h with
  | held h => exact hkept _ h
  | @plain v h =>
    refine World.admits_of_node?_eq_none h ?_
    cases v <;> trivial
  | global h => exact hm.world.admits_of_lookup hm.root h
  | property _ h ih => exact hm.world.admits_of_getProperty? (World.admits_object.mp ih) h
  | slot _ _ ht h iho ihc =>
    obtain ⟨table, hlookup, rfl⟩ := Option.map_eq_some_iff.mp ht
    have htable := hm.world.knows_instanceTable (hm.world.knows_classToken ihc)
      (World.admits_object.mp iho) hlookup
    exact hm.world.admits_of_stored htable (SlotTable.mem_values_of_get? h)
  | prototype _ ih => exact World.admits_object.mpr (hm.world.knows_prototype ih)

/-- An operation gives values that may turn up, and runs into no fault. -/
theorem yields_of_operation (hm : s.machine.Sound gone)
    (hkept : ∀ v ∈ kept, s.machine.world.Admits gone v) {x : Eval Value}
    (hx : s.Operation kept x) : Eval.Yields gone x s.machine := by
  cases hx with
  | run steps h =>
    exact Eval.yields_runUnit (isSound_evaluator gone steps) hm (CompiledUnit.isBound_of_compile h)
  | call steps hcallee hthis hargs =>
    refine Eval.yields_callValue (isSound_evaluator gone steps) hm (fun n hn => ?_)
      (admits_of_offers hm hkept hthis) (fun v hv => admits_of_offers hm hkept (hargs v hv))
      (admits_of_offers hm hkept hcallee)
    exact List.mem_singleton.mp hn ▸ hm.root

/-- What gives values that may turn up takes sound steps. The values that are left when nothing has
been reclaimed yet may turn up, and it has run into no fault. -/
theorem steps_final {x : Eval Value} (hx : Eval.Yields gone x s.machine) :
    s.machine.Steps gone (Eval.final x s.machine) ∧
      (∀ v ∈ (s.perform x).1.values, (Eval.final x s.machine).world.Admits gone v) ∧
      ∀ f, (s.perform x).1 ≠ .broken f := by
  unfold Eval.Yields Eval.Meets at hx
  unfold perform Eval.final
  -- however it ends, its steps are sound, and only a value returned or thrown is handed out
  cases hrun : x s.machine with
  | ok v m =>
    rw [hrun] at hx
    exact ⟨hx.1, fun w hw => List.mem_singleton.mp hw ▸ hx.2, fun _ heq => nomatch heq⟩
  | error stop m =>
    rw [hrun] at hx
    cases stop with
    | raised e =>
      refine ⟨hx.1, fun w hw => ?_, fun _ heq => nomatch heq⟩
      cases e with
      | thrown v => exact List.mem_singleton.mp hw ▸ hx.2 v rfl
      | _ => cases hw
    | broken f => exact hx.elim
    | exhausted => exact ⟨hx, fun _ hw => (nomatch hw), fun _ heq => nomatch heq⟩

/-- What an operation leaves is reached, and what the host has kept may turn up still. -/
theorem reached_final {x : Eval Value} (hm : s.machine.Reached gone)
    (hkept : ∀ v ∈ kept, s.machine.world.Admits gone v) (hx : s.Operation kept x) :
    (Eval.final x s.machine).Reached gone ∧
      ∀ v ∈ (s.perform x).1.values ++ kept, (Eval.final x s.machine).world.Admits gone v := by
  obtain ⟨hsteps, hvalues, -⟩ := steps_final (yields_of_operation hm.sound hkept hx)
  refine ⟨hm.steps hsteps, fun v hv => ?_⟩
  rcases List.mem_append.mp hv with hv | hv
  · exact hvalues v hv
  · exact hm.sound.admits_grows (hsteps.keeps hm.sound).2 (hkept v hv)

/-- Reclaiming all but the globals and some values. -/
theorem reached_settle (h : s.machine.Reached gone)
    (hheld : ∀ v ∈ held, s.machine.world.Admits gone v) :
    ∃ gone', (s.settle held).machine.Reached gone' ∧
      ∀ v ∈ held, (s.settle held).machine.world.Admits gone' v := by
  have hm := h.sound
  refine ⟨_, h.reclaim (fun n hn => ?_) List.mem_cons_self, fun v hv => ?_⟩
  · rcases List.mem_cons.mp hn with rfl | hn
    · exact hm.root
    · exact World.knows_of_mem_nodesOf hheld n hn
  · refine hm.world.admits_reclaim (hheld v hv) fun n hn => List.mem_cons_of_mem _ ?_
    exact List.mem_filterMap.mpr ⟨v, hv, hn⟩

/-- The object that a host makes, with a prototype that it has got hold of, is a step of the
machine. -/
theorem alters_newObject (hm : s.machine.Sound gone)
    (hkept : ∀ v ∈ kept, s.machine.world.Admits gone v) {proto : Option ObjectId}
    (hproto : ∀ p ∈ proto, s.Offers kept (.object p)) :
    World.Alters gone s.machine.world (s.machine.world.newObject proto).2 :=
  World.alters_newObject hm.world fun p hp =>
    World.admits_object.mp (admits_of_offers hm hkept (hproto p hp))

/-- So is its edit of a property. -/
theorem alters_edit (hm : s.machine.Sound gone)
    (hkept : ∀ v ∈ kept, s.machine.world.Admits gone v) {o : ObjectId} {e : SlotTable.Edit}
    (ho : s.Offers kept (.object o)) (hvalue : ∀ v ∈ e.value?, s.Offers kept v) :
    World.Alters gone s.machine.world (s.machine.world.edit (.object o) e) := by
  have hknown := World.admits_object.mp (admits_of_offers hm hkept ho)
  cases e with
  | set key v =>
    exact World.alters_setProperty hm.world hknown.2 key (admits_of_offers hm hkept (hvalue v rfl))
  | delete key => exact World.alters_deleteProperty hm.world hknown.2 key

/-- **Histories are sound.** The machine behind a session is reached, and whatever the host keeps
may turn up. -/
theorem Hosted.machine (h : s.Hosted kept) :
    ∃ gone, s.machine.Reached gone ∧ ∀ v ∈ kept, s.machine.world.Admits gone v := by
  -- on what the host has done: each is a step of the machine, and what is kept stays known
  induction h with
  | start maxDepth => exact ⟨_, .start maxDepth, fun _ hv => nomatch hv⟩
  | perform _ hx ih =>
    obtain ⟨gone, hm, hkept⟩ := ih
    exact ⟨gone, reached_final hm hkept hx⟩
  -- the new object is made, and so known, and is kept from now on
  | @newObject s kept proto _ hproto ih =>
    obtain ⟨gone, hm, hkept⟩ := ih
    have hnew := alters_newObject hm.sound hkept hproto
    have hmade := World.knows_newObject hm.sound.world proto
    refine ⟨gone, hm.step (.alter hnew), List.forall_mem_cons.mpr ⟨?_, fun v hv => ?_⟩⟩
    · exact World.admits_object.mpr hmade
    · exact (hkept v hv).grows hm.sound.world.tokens hnew.grows
  | edit _ ho hvalue ih =>
    obtain ⟨gone, hm, hkept⟩ := ih
    have hedit := alters_edit hm.sound hkept ho hvalue
    exact ⟨gone, hm.step (.alter hedit), fun v hv =>
      (hkept v hv).grows hm.sound.world.tokens hedit.grows⟩
  -- what is on offer is admitted, by the session or because it is kept
  | take _ hv ih =>
    obtain ⟨gone, hm, hkept⟩ := ih
    exact ⟨gone, hm, List.forall_mem_cons.mpr ⟨admits_of_offers hm.sound hkept hv, hkept⟩⟩
  -- what is held is kept, so reclaiming leaves it alone
  | settle _ hheld ih =>
    obtain ⟨gone, hm, hkept⟩ := ih
    exact reached_settle hm fun v hv => hkept v (hheld hv)
  | takeOutput _ ih =>
    obtain ⟨gone, hm, hkept⟩ := ih
    exact ⟨gone, hm.step (.count _ _ _), hkept⟩

end Session

end Enclave
