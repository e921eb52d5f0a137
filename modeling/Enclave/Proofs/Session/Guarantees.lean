import Enclave.Proofs.Eval.Rejection
import Enclave.Proofs.Run.Initialization
import Enclave.Proofs.Session.Observation

/-!
# What sessions guarantee

For every history of a session, of any length and with everything a host may do in between, also
with calls of functions that it has kept since an earlier run:

* what binding decided before a run is what evaluation finds, wherever it gets to
  (`Context.MatchesBinding`, `Session.Hosted.binding_agrees`);
* an instance that is handed out has the private members of its whole chain exactly if every call of
  a parent's constructor for it has returned (`Session.Hosted.installed_iff_returned`). A
  constructor may catch what such a call raises, so not all instances have them
  (`Session.not_installed_of_caught`).

The points of a run are read off the journal, in which what came before an event stands behind it.
-/

namespace Enclave

open Eval

/-! ### Binding and evaluation agree -/

/-- What evaluation finds of what binding has decided, where an expression is evaluated. -/
structure Context.MatchesBinding (context : Context) (m : Machine) (e : Expr) : Prop where
  /-- A slot is read, assigned, deleted or called by a function whose home is the class that the
  slot is bound to. -/
  slot : ∀ (role : Role) (slot : Expr) accessor key, role.Fills slot e →
    slot.form = .slot accessor key → ∃ home, context.IsHome m.world slot.id home
  /-- So it is with the question whether a slot is there. -/
  question : ∀ key accessor, e.form = .hasSlot key accessor →
    ∃ home, context.IsHome m.world e.id home
  /-- Where a member of the parent is read, the home has a parent. -/
  superMember : ∀ name, e.form = .superMember name → ∃ home parent,
    context.frame.home = some home ∧ home.parent = some parent
  /-- Where the parent's constructor is called, a constructor is at work, and its class has a
  parent. -/
  superCall : ∀ args, e.form = .superCall args → ∃ id parent,
    context.frame.construction = some id ∧ id.index < m.constructions.size ∧
      (m.world.classAt (m.constructionAt id).classRef).parent = some parent
  /-- Only a member is deleted, and only a target assigned to. -/
  proper : e.form.IsProper

/-- An expression that is covered by what surrounds it matches its binding. -/
theorem Context.Suits.matchesBinding {gone : Node → Prop} {m : Machine} {context : Context}
    {sc : ScopeContext} (hc : context.Suits gone m sc) {e : Expr}
    (he : context.frame.unit.CoversExpr sc e) : context.MatchesBinding m e where
  slot role slot accessor key hfills hform :=
    exists_isHome hc ((covers_slot he hfills).boundTo hc.unit (Or.inl ⟨key, hform⟩))
  question key accessor hform := exists_isHome hc (he.boundTo hc.unit (Or.inr ⟨key, hform⟩))
  superMember name hform := by
    obtain ⟨home, hhome, parent, hparent⟩ := hc.surrounds.parent (he.superMember hc.unit hform)
    exact ⟨home, parent, hhome, hparent⟩
  superCall args hform := by
    obtain ⟨id, hid, hknows⟩ := hc.construction (he.superCall hc.unit hform)
    obtain ⟨parent, hparent⟩ := Option.isSome_iff_exists.mp hknows.handsOver.1
    exact ⟨id, parent, hid, hknows.made, hparent⟩
  proper := he.isProper hc.unit

/-- An observer that lets evaluations be where they match their binding. -/
def Observer.MindsBinding (around : Observer) : Prop :=
  ∀ {α : Type} (a : Activity) (x : Eval α) {m : Machine},
    (∀ context e, a = .eval context e → context.MatchesBinding m e) → around a x m = x m

theorem Observer.MindsBinding.minds {around : Observer} (h : around.MindsBinding)
    (gone : Node → Prop) : around.Minds gone := by
  intro α a x m hsound _
  refine h a x fun context e ha => ?_
  subst ha
  obtain ⟨-, sc, hc, he⟩ := hsound
  exact hc.matchesBinding he

namespace Session

variable {s : Session} {held : List Value}

/-- **Agreement.** No operation runs into what binding rules out, and at every evaluation of an
operation accessors find the class they are bound to, `super` finds a home with a parent and
`super(...)` a constructor at work, of a class with a parent. So an observer that does what it likes
wherever this fails makes no difference. -/
theorem Hosted.binding_agrees (h : s.Hosted held) :
    (∀ source f, (s.run source).1 ≠ .broken f) ∧
      (∀ x, s.Operation held x → (∀ f, (s.perform x).1 ≠ .broken f) ∧
        ∀ c o, .superCalled c o ∈ (s.perform x).2.machine.journal →
          ((s.perform x).2.machine.world.classAt c).parent.isSome) ∧
      ∀ around : Observer, around.MindsBinding → ∀ steps,
        (∀ source unit, compile source = .ok unit →
          Eval.runUnit (observed around steps) unit s.machine =
            Eval.runUnit (evaluator steps) unit s.machine) ∧
        ∀ callee this args, s.Offers held callee → s.Offers held this →
          (∀ v ∈ args, s.Offers held v) →
          callValue (observed around steps) [.scope Scopes.rootId] callee this args s.machine =
            callValue (evaluator steps) [.scope Scopes.rootId] callee this args s.machine := by
  obtain ⟨gone, hm, hheld⟩ := h.machine
  -- an operation is sound, so nothing that the binding was to rule out ever happens
  have hfaults : ∀ {x}, s.Operation held x → ∀ f, (s.perform x).1 ≠ .broken f := fun hx =>
    (steps_final (yields_of_operation hm.sound hheld hx)).2.2
  refine ⟨fun source f => ?_, fun x hx => ⟨hfaults hx, fun c o hcalled => ?_⟩,
    fun around haround => h.observed_eq haround.minds⟩
  · obtain ⟨e, hrun⟩ | ⟨x, hx, hrun⟩ := s.run_eq source
    · rw [hrun]
      exact fun heq => nomatch heq
    · rw [hrun]
      exact hfaults (hx held) f
  · obtain ⟨_, hm', -⟩ := (h.performed hx).machine
    exact hm'.isOrdered.parent_of_superCalled hcalled

/-- A derived constructor calls the parent's, and its class has an accessor. -/
def derived : Session :=
  left 128 ("class B{private x=1;}class D extends B{private y=2;constructor(){super();private.y;}}" ++
    "new D();").toUTF8.toList 8

theorem binding_agrees_derived :
    .superCalled ⟨1, "D"⟩ ⟨2⟩ ∈ derived.machine.journal ∧
      .resolved ⟨1⟩ (.object ⟨2⟩) ∈ derived.machine.journal ∧
      ∀ source f, (derived.run source).1 ≠ .broken f := by
  have hevents : .superCalled ⟨1, "D"⟩ ⟨2⟩ ∈ derived.machine.journal ∧
      .resolved ⟨1⟩ (.object ⟨2⟩) ∈ derived.machine.journal := by
    decide +kernel
  exact ⟨hevents.1, hevents.2, (hosted_left _ _ _ : derived.Hosted _).binding_agrees.1⟩

/-! ### Instances that are handed out -/

/-- **Initialization.** When an instance is handed out, every class of its chain has stored and
installed all its private members if and only if every call of a parent's constructor for it has
returned. -/
theorem Hosted.installed_iff_returned (h : s.Hosted held) {later past : List Event} {c : ClassRef}
    {o : ObjectId} (hjournal : s.machine.journal = later ++ .constructed c o :: past) :
    (∀ k ∈ s.machine.world.classChain c,
        .installed k o ∈ past ∧ s.machine.world.HasStored past k o) ↔
      ∀ k ∈ s.machine.world.classChain c, .superCalled k o ∈ past →
        .superReturned k o ∈ past := by
  obtain ⟨gone, hm, -⟩ := h.machine
  exact hm.isOrdered.installed_iff hm.sound.world hjournal

theorem installed_iff_returned_derived :
    let past := derived.machine.journal.drop 1
    derived.machine.journal = .constructed ⟨1, "D"⟩ ⟨2⟩ :: past ∧
      ∀ k ∈ derived.machine.world.classChain ⟨1, "D"⟩,
        .installed k ⟨2⟩ ∈ past ∧ derived.machine.world.HasStored past k ⟨2⟩ := by
  intro past
  obtain ⟨hjournal, hreturned⟩ :
      derived.machine.journal = [] ++ .constructed ⟨1, "D"⟩ ⟨2⟩ :: past ∧
        ∀ k ∈ derived.machine.world.classChain ⟨1, "D"⟩, .superCalled k ⟨2⟩ ∈ past →
          .superReturned k ⟨2⟩ ∈ past := by
    decide +kernel
  -- The theorem, at the journal that the run has left.
  have hiff := (hosted_left _ _ _ : derived.Hosted _).installed_iff_returned hjournal
  exact ⟨hjournal, hiff.mpr hreturned⟩

/-- A derived constructor catches the error that the parent's initializer raises. -/
def caught : Session :=
  left 128 ("class B{private x=y;}class D extends B{constructor(){try{super();}catch(e){}}}" ++
    "new D();").toUTF8.toList 8

/-- **A caught error.** An instance may be handed out that lacks the private members of its
parent. -/
theorem not_installed_of_caught :
    ¬∀ (s : Session) (held : List Value) (later past : List Event) (c : ClassRef) (o : ObjectId),
      s.Hosted held → s.machine.journal = later ++ .constructed c o :: past →
        ∀ k ∈ s.machine.world.classChain c, .installed k o ∈ past := by
  intro hall
  obtain ⟨hjournal, hparent, hmissing⟩ :
      caught.machine.journal =
          [] ++ .constructed ⟨1, "D"⟩ ⟨2⟩ :: caught.machine.journal.drop 1 ∧
        ⟨0, "B"⟩ ∈ caught.machine.world.classChain ⟨1, "D"⟩ ∧
        .installed ⟨0, "B"⟩ ⟨2⟩ ∉ caught.machine.journal.drop 1 := by
    decide +kernel
  exact hmissing (hall _ _ _ _ _ _ (hosted_left _ _ _ : caught.Hosted _) hjournal _ hparent)

end Session

end Enclave
