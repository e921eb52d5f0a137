import Enclave.Proofs.Eval.Following
import Enclave.Proofs.Session.CallDepth

/-!
# The protocol of constructions in sessions

In every session, whatever is run and however it ends, constructions keep to their protocol
(`Session.Hosted.construction_protocol`). No class starts to set up its members in an object twice,
not even if a constructor calls `super(...)` again after it has caught an error of the first call.
-/

namespace Enclave

namespace World

variable {w w' : World} {past : List Event}

/-- What is timely depends on the classes and the functions alone. -/
theorem IsTimely.of_eq (hclasses : w'.classes = w.classes) (hfunctions : w'.functions = w.functions)
    {e : Event} (h : w.IsTimely past e) : w'.IsTimely past e := by
  have hat : w'.classAt = w.classAt := funext fun c => by rw [classAt, hclasses, classAt]
  have hchain : w'.classChain = w.classChain := funext fun c => by
    rw [classChain, hat, classChain]
  unfold IsTimely HasBegun at h ⊢
  rw [hclasses, hfunctions, hat, hchain]
  exact h

theorem HasBegun.of_eq (hclasses : w'.classes = w.classes) {k : ClassRef} {o : ObjectId}
    (h : w.HasBegun past k o) : w'.HasBegun past k o := by
  have hat : w'.classAt = w.classAt := funext fun c => by rw [classAt, hclasses, classAt]
  have hchain : w'.classChain = w.classChain := funext fun c => by
    rw [classChain, hat, classChain]
  unfold HasBegun at h ⊢
  rw [hclasses, hat, hchain]
  exact h

end World

namespace Machine

variable {m : Machine}

/-- The order of what happened does not depend on what becomes of a world between operations, where
classes and functions stay what they are. -/
theorem IsInOrder.withWorld (hm : m.IsInOrder) {w : World} (htidy : { m with world := w }.IsTidy)
    (hclasses : w.classes = m.world.classes) (hfunctions : w.functions = m.world.functions)
    (hobjects : m.world.objects.size ≤ w.objects.size) : { m with world := w }.IsInOrder := by
  -- Classes are where they were, so installations have the steps they had.
  have hat : w.classAt = m.world.classAt := funext fun c => by
    rw [World.classAt, hclasses, World.classAt]
  refine ⟨htidy, fun c d g hg g' hg' => ?_, fun id hid => ?_, fun k o => ?_, ?_⟩
  · rw [hat] at hg hg'
    exact hm.constructors c d g hg g' hg'
  · exact (hm.begun id hid).of_eq hclasses
  · obtain hnone | ⟨hk, ho, hsofar⟩ := hm.setUp k o
    · exact Or.inl hnone
    · refine Or.inr ⟨hclasses ▸ hk, ho.trans_le hobjects, ?_⟩
      rw [World.installation, hat]
      exact hsofar
  · exact hm.timely.imp fun _ _ _ he => he.of_eq hclasses hfunctions

end Machine

/-- An installation starts once. -/
theorem count_installing_le (w : World) (k : ClassRef) (o : ObjectId) :
    (w.installation k o).count (.installing k o) ≤ 1 := by
  have hrest : Event.installing k o ∉ (w.classAt k).privateMethods.map
      (fun p => .methodStored k o p.1) ++ (w.classAt k).fields.flatMap
        (fun f => [.fieldStarted k o f.name, .fieldStored k o f.name]) ++ [.installed k o] := by
    simp
  unfold World.installation
  rw [List.append_assoc, List.cons_append, ← List.append_assoc, List.count_cons_self,
    List.count_eq_zero.mpr hrest]

namespace Session

variable {s : Session} {held : List Value}

/-- In every session constructions have kept to their protocol. -/
theorem Hosted.isInOrder (h : s.Hosted held) : s.machine.IsInOrder := by
  -- operations follow the protocol, and between them no host touches classes or the journal
  induction h with
  | start maxDepth =>
    refine ⟨isTidy_start maxDepth, fun c d g hg => ?_, fun id hid => ?_, fun k o => Or.inl rfl,
      trivial⟩
    · cases hg
    · exact absurd hid (Nat.not_lt_zero _)
  | @perform s held x h hx ih =>
    obtain ⟨hm, hheld⟩ := h.isTidy
    obtain ⟨-, hdepth⟩ := h.countsCalls
    obtain ⟨y, steps, hrun, hy⟩ := built_of_operation (Eval.supports_working none)
      (fun _ => trivial) (Nat.zero_le _) hm hheld hdepth hx
    -- run from outside any construction, so there is none for it to have begun
    have hfollows : s.machine.Follows none (Eval.final x s.machine) := by
      rw [Eval.final, hrun, ← Eval.final]
      exact hy.follows (follows_evaluator steps) hm
    exact (hfollows ih (Machine.isFresh_none _)).inOrder
  | newObject _ _ ih =>
    obtain ⟨htidy, hext⟩ := tidy_newObject ih.tidy _
    exact ih.withWorld htidy rfl rfl hext.world.objects
  | @edit s kept o e h ho hvalue ih =>
    obtain ⟨hm, hkept⟩ := h.isTidy
    obtain ⟨htidy, hext⟩ := tidy_edit hm o fun v hv => passes_of_offers hm hkept (hvalue v hv)
    refine ih.withWorld htidy ?_ ?_ hext.world.objects <;> cases e <;> rfl
  | take _ _ ih => exact ih
  | @settle s kept held _ _ ih =>
    have hsame := World.sameContents_reclaim s.machine.world (.scope Scopes.rootId :: nodesOf held)
    exact ih.withWorld (ih.tidy.reclaim _) hsame.classes hsame.functions hsame.objectCount.ge
  | takeOutput _ ih =>
    exact ⟨(ih.tidy.count _ "").1, ih.constructors, ih.begun, ih.setUp, ih.timely⟩

/-- **The protocol of constructions.** For each class and object, what the class did to set up its
members is the beginning of its installation; it started at most once. Whatever happened in a
construction happened when it should. Objects are allocated for one class only, and classes have
constructors of their own. -/
theorem Hosted.construction_protocol (h : s.Hosted held) :
    (∀ k o, stepsOf s.machine.journal k o <+: s.machine.world.installation k o ∧
      s.machine.journal.count (.installing k o) ≤ 1) ∧
    (∀ later past e, s.machine.journal = later ++ e :: past →
      s.machine.world.IsTimely past e) ∧
    (∀ c c' o, .constructing c o ∈ s.machine.journal → .constructing c' o ∈ s.machine.journal →
      c = c') ∧
    s.machine.world.HasOwnConstructors := by
  have hm := h.isInOrder
  obtain ⟨gone, hreached, -⟩ := h.machine
  refine ⟨fun k o => ?_, fun later past e hjournal => ?_, hreached.sound.registered.unique,
    hm.constructors⟩
  · have hsofar : stepsOf s.machine.journal k o <+: s.machine.world.installation k o := by
      -- not begun, or as far as the steps recorded are a beginning of those there are
      obtain hnone | ⟨-, -, hsofar⟩ := hm.setUp k o
      · rw [hnone]
        exact List.nil_prefix
      · exact hsofar
    refine ⟨hsofar, ?_⟩
    -- an installation begins with the one event counted, which is among its steps
    calc s.machine.journal.count (.installing k o)
        = (stepsOf s.machine.journal k o).count (.installing k o) := by
          rw [stepsOf, List.count_reverse, List.count_filter]
          exact decide_eq_true ⟨rfl, rfl⟩
      _ ≤ (s.machine.world.installation k o).count (.installing k o) :=
          hsofar.sublist.count_le _
      _ ≤ 1 := count_installing_le _ k o
  · have hevents := hm.timely
    rw [hjournal] at hevents
    exact hevents.of_eq

/-- A chain of three classes, the middle one without a constructor. The last one catches the error
of a second `super(...)`. -/
def layered : Session :=
  left 128 ("class B{private x=1;private m(){}constructor(){}}" ++
    "class C extends B{private y=2;}" ++
    "class D extends C{constructor(){super();try{super();}catch(e){}}}new D();").toUTF8.toList 9

theorem construction_protocol_layered :
    .installing ⟨1, "C"⟩ ⟨3⟩ ∈ layered.machine.journal ∧
      layered.machine.journal.count (.installing ⟨1, "C"⟩ ⟨3⟩) ≤ 1 ∧
      ∃ later past, layered.machine.journal = later ++ .installing ⟨1, "C"⟩ ⟨3⟩ :: past ∧
        .initialized ⟨0, "B"⟩ ⟨3⟩ ∈ past ∧ layered.machine.world.HasBegun past ⟨1, "C"⟩ ⟨3⟩ := by
  have hhosted : layered.Hosted _ := hosted_left _ _ _
  obtain ⟨hsteps, htimely, -, -⟩ := hhosted.construction_protocol
  obtain ⟨hmem, hparent⟩ : .installing ⟨1, "C"⟩ ⟨3⟩ ∈ layered.machine.journal ∧
      (layered.machine.world.classAt ⟨1, "C"⟩).parent = some ⟨0, "B"⟩ := by
    decide +kernel
  obtain ⟨later, past, hjournal⟩ := List.append_of_mem hmem
  obtain ⟨-, hbegun, hinitialized⟩ := htimely later past _ hjournal
  exact ⟨hmem, (hsteps _ _).2, later, past, hjournal, hinitialized _ hparent, hbegun⟩

end Session

end Enclave
