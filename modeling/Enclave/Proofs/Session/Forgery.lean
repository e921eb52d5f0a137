import Enclave.Proofs.Eval.Rejection
import Enclave.Proofs.Session.Observation

/-!
# Private access cannot be forged

Code of a class reaches the private members of an object exactly if the object was allocated by
`new` for the class or for one that descends from it. This is so at every evaluation of every
operation of a session, in whatever form the access is made: reading, assigning, deleting or calling
a slot, or asking whether it is there (`Session.Hosted.unforgeable`). The class is the value that
one evaluation of its definition gave, so instances that another evaluation of the same definition
made are rejected like anything else.

What an evaluation comes to is said of the machine that the target leaves
(`Context.GuardsAccess`). There an object counts as allocated as soon as `new` has made it, before
any code of a script has run for it, and no object becomes one later.
-/

namespace Enclave

open Eval

variable {gone : Node → Prop} {m m' : Machine} {context : Context}

/-! ### Tokens and allocated objects -/

/-- The token of a class keeps tables for the instances of the class and of its heirs. -/
theorem Machine.Sound.registers_iff (hm : m.Sound gone) {d : ClassRef} (hd : m.world.HasClass d)
    {v : Value} (hv : m.world.Admits gone v) :
    m.world.Registers (m.world.classAt d).token v ↔ m.world.IsAllocatedFor m.journal d v := by
  constructor
  · rintro ⟨o, rfl, hlookup⟩
    exact (hm.isSome_lookupInstance?_iff hd (World.admits_object.mp hv).2).mp hlookup
  · rintro ⟨c, o, rfl, hc, hmem⟩
    refine ⟨o, rfl, (hm.isSome_lookupInstance?_iff hd (World.admits_object.mp hv).2).mpr ?_⟩
    exact ⟨c, o, rfl, hc, hmem⟩

/-- A machine that is sound after a rejection tells that it was justified. -/
theorem Machine.Sound.not_isAllocatedFor {t : TokenId} {v : Value}
    (hm : Machine.Sound gone { m with journal := .rejected t v :: m.journal }) {d : ClassRef}
    (htoken : (m.world.classAt d).token = t) : ¬m.world.IsAllocatedFor m.journal d v := by
  rintro ⟨c, o, rfl, hc, hmem⟩
  exact hm.registered.accesses.1.2 ⟨c, o, rfl, hc, d, hmem, htoken⟩

/-- An object that has just been allocated counts for the whole chain. -/
theorem isAllocatedFor_allocate {c d : ClassRef} (hd : d ∈ m.world.classChain c) :
    (m.allocate c).world.IsAllocatedFor (m.allocate c).journal d (.object m.nextObject) := by
  refine ⟨c, m.nextObject, rfl, ?_, ?_⟩
  · rw [Machine.allocate, Machine.journal_registerAll]
    exact List.mem_append_right _ List.mem_cons_self
  · have hat := funext (World.classAt_of_eq (m.sameClasses_allocate c).1)
    rwa [World.classChain, hat]

/-! ### Code of a class -/

/-- The running function was written in a class that has been defined, and the accessor is bound to
it. The home has the token of this class. -/
structure Context.IsOfClass (context : Context) (w : World) (site : ExprId) (home : Home) :
    Prop where
  isHome : context.IsHome w site home
  hasClass : w.HasClass home.classRef
  token : (w.classAt home.classRef).token = home.token

/-- A class keeps its token. -/
theorem Context.IsOfClass.token_grows {site : ExprId} {home : Home} (hm : m.Sound gone)
    (hg : m.Grows m') (h : context.IsOfClass m.world site home) :
    m'.world.HasClass home.classRef ∧ (m'.world.classAt home.classRef).token = home.token :=
  ⟨hm.hasClass_grows hg h.hasClass, (congrArg Class.token (hg.classAt h.hasClass)).trans h.token⟩

/-- Wherever an accessor is evaluated, there is such a class. -/
theorem exists_isOfClass {sc : ScopeContext} (hm : m.Sound gone) (hc : context.Suits gone m sc)
    {site : ExprId} (hbound : IsBoundIn context.frame.unit sc site) :
    ∃ home, context.IsOfClass m.world site home := by
  obtain ⟨home, hhome⟩ := exists_isHome hc hbound
  have hclass := hasClass_home hm hc hhome.home
  refine ⟨home, hhome, hclass, ?_⟩
  rw [(hm.world.classAt_fits hclass).token, (hc.surrounds.fits home hhome.home).classRef]

/-! ### Evaluations -/

/-- What private access comes to where an expression is evaluated, in a number of steps. -/
structure Context.GuardsAccess (context : Context) (m : Machine) (e : Expr) (steps : ℕ) : Prop where
  /-- A slot is read, assigned, deleted or called, and `v` is what the target comes to. It is
  rejected if and only if it is no object that was allocated for a class whose chain has the class
  of the running function in it. If it is not rejected, no such error is that of the access. -/
  slot : ∀ role slot accessor key target v m₁, role.Fills slot e →
    slot.form = .slot accessor key → target? (evaluator steps) context accessor = some target →
    target m = .ok v m₁ → ∃ home, context.IsOfClass m.world slot.id home ∧
      ((evaluator (steps + 1)).eval context e m = reject home.token v m₁ ↔
        ¬m₁.world.IsAllocatedFor m₁.journal home.classRef v) ∧
      (m₁.world.IsAllocatedFor m₁.journal home.classRef v → ∀ name w m',
        (evaluator (steps + 1)).eval context e m = .error (.raised (.privateAccess name w)) m' →
        StopsInPart (evaluator steps) context key role (.raised (.privateAccess name w)) m')
  /-- So it is with the question whether a slot is there, when its key has been evaluated. -/
  question : ∀ key accessor target k m₀ v m₁, e.form = .hasSlot key accessor →
    (evaluator steps).eval context key m = .ok k m₀ →
    target? (evaluator steps) context accessor = some target → target m₀ = .ok v m₁ →
    ∃ home, context.IsOfClass m₀.world e.id home ∧
      ((evaluator (steps + 1)).eval context e m = reject home.token v m₁ ↔
        ¬m₁.world.IsAllocatedFor m₁.journal home.classRef v) ∧
      (m₁.world.IsAllocatedFor m₁.journal home.classRef v →
        ∃ isThere m', (evaluator (steps + 1)).eval context e m = .ok (.bool isThere) m')
  /-- The value of an object literal was allocated for no class. -/
  literal : ∀ properties v m', e.form = .object properties →
    (evaluator steps).eval context e m = .ok v m' → ∀ d, ¬m'.world.IsAllocatedFor m'.journal d v
  /-- What is there already is not allocated by the evaluation. -/
  allocated : ∀ c o, m.world.Has (.object o) →
    .constructing c o ∈ (final ((evaluator steps).eval context e) m).journal →
    .constructing c o ∈ m.journal

section Evaluation

variable {sc : ScopeContext} {e : Expr} {steps : ℕ} (hm : m.Sound gone)
  (hc : context.Suits gone m sc)

include hm hc

/-- What a target comes to may turn up, on a machine that is sound. -/
theorem sound_target {accessor : Accessor} {target : Eval Value}
    (haccessor : context.frame.unit.CoversAccessor sc accessor)
    (htarget : target? (evaluator steps) context accessor = some target) {v : Value}
    {m₁ : Machine} (hrun : target m = .ok v m₁) :
    m₁.Sound gone ∧ m.Grows m₁ ∧ m₁.world.Admits gone v := by
  -- Only a target in parentheses is evaluated; the receiver is at hand.
  cases accessor with
  | ofReceiver span =>
    cases htarget
    cases hrun
    exact ⟨hm, .refl m, hc.this⟩
  | ofTarget span target =>
    cases htarget
    obtain ⟨hsteps, hv⟩ := ((isSound_evaluator gone steps).eval hm hc haccessor.target).of_ok hrun
    obtain ⟨hm₁, hg⟩ := hsteps.keeps hm
    exact ⟨hm₁, hg, hv⟩
  | ofClass span => cases htarget

/-- A rejection is justified where it has happened. -/
theorem not_allocated_of_reject (he : context.frame.unit.CoversExpr sc e) {t : TokenId} {v : Value}
    {m₁ : Machine} (hrun : (evaluator steps).eval context e m = reject t v m₁) {d : ClassRef}
    (htoken : (m₁.world.classAt d).token = t) : ¬m₁.world.IsAllocatedFor m₁.journal d v := by
  have hsteps := ((isSound_evaluator gone steps).eval hm hc he).steps
  rw [final_of_error hrun] at hsteps
  exact (hsteps.keeps hm).1.not_isAllocatedFor htoken

/-- What comes of an access whose target has been evaluated: the token of the class keeps a table
for the target exactly if this was allocated for the class. -/
theorem registers_target {site : ExprId} {accessor : Accessor} {target : Eval Value}
    (haccessor : context.frame.unit.CoversAccessor sc accessor)
    (htarget : target? (evaluator steps) context accessor = some target) {v : Value}
    {m₁ : Machine} (hrun : target m = .ok v m₁) {home : Home}
    (hhome : context.IsOfClass m.world site home) :
    (m₁.world.classAt home.classRef).token = home.token ∧
      (m₁.world.Registers home.token v ↔
        m₁.world.IsAllocatedFor m₁.journal home.classRef v) := by
  obtain ⟨hm₁, hg, hv⟩ := sound_target hm hc haccessor htarget hrun
  obtain ⟨hclass, htoken⟩ := hhome.token_grows hm hg
  have hregisters := hm₁.registers_iff hclass hv
  rw [htoken] at hregisters
  exact ⟨htoken, hregisters⟩

/-- The object of a literal is new, and no instance. -/
theorem not_allocated_of_literal {properties : List Property}
    (hproperties : context.frame.unit.CoversProperties sc properties) {v : Value}
    (hrun : objectLiteral (evaluator steps) context properties m = .ok v m') (d : ClassRef) :
    ¬m'.world.IsAllocatedFor m'.journal d v := by
  have halters : World.Alters gone m.world (m.world.newObject none).2 :=
    World.alters_newObject hm.world fun _ h => nomatch h
  obtain ⟨hm₁, hg⟩ := (Machine.Step.alter halters).keeps hm
  have ho : (m.world.newObject none).2.Knows gone (.object m.nextObject) :=
    World.knows_newObject hm.world none
  -- the properties are evaluated when the object is there already
  have hstored := runs_storeProperties (isSound_evaluator gone steps) hm₁
    ((hc.grows hm hm₁ hg).holdingNode ho) ho hproperties
  change EStateM.bind (storeProperties (evaluator steps) _ m.nextObject properties)
    (fun _ => pure (Value.object m.nextObject))
    { m with world := (m.world.newObject none).2 } = _ at hrun
  unfold EStateM.bind at hrun
  split at hrun
  · next hproperties =>
    cases hrun
    rintro ⟨c, _, ⟨⟩, hconstructing, -⟩
    have hold := (hstored.of_ok hproperties).1.constructing_of_has hm₁ ho.1 hconstructing
    exact Nat.lt_irrefl m.world.objects.size (hm.registered.made c _ hold).2
  · cases hrun

/-- **Guarded access.** Wherever evaluation is sound, private access is what it should be. -/
theorem guardsAccess (he : context.frame.unit.CoversExpr sc e) (steps : ℕ) :
    context.GuardsAccess m e steps where
  slot role slot accessor key target v m₁ hfills hslot htarget hrun := by
    have hcovers := covers_slot he hfills
    obtain ⟨home, hhome⟩ := exists_isOfClass hm hc (hcovers.boundTo hc.unit (Or.inl ⟨key, hslot⟩))
    obtain ⟨htoken, hregisters⟩ :=
      registers_target hm hc (hcovers.slot hslot).1 htarget hrun hhome
    obtain ⟨-, hslots, -⟩ := rejection_atomic (evaluator steps) context accessor target htarget
    obtain ⟨hrejects, haccepts⟩ :=
      hslots role slot e key m m₁ home v hfills hslot hhome.isHome hrun
    refine ⟨home, hhome, ⟨fun h => ?_, fun h => hrejects (mt hregisters.mp h)⟩,
      fun h => haccepts (hregisters.mpr h)⟩
    -- the error was not raised by anything else in between
    exact not_allocated_of_reject hm hc he h htoken
  question key accessor target k m₀ v m₁ hform hkey htarget hrun := by
    obtain ⟨hkeyCovers, haccessor⟩ := he.hasSlot hform
    -- the key comes before the target, and leaves a sound machine
    obtain ⟨hsteps, -⟩ := ((isSound_evaluator gone steps).eval hm hc hkeyCovers).of_ok hkey
    obtain ⟨hm₀, hg₀⟩ := hsteps.keeps hm
    have hc₀ := hc.grows hm hm₀ hg₀
    obtain ⟨home, hhome⟩ := exists_isOfClass hm₀ hc₀ (he.boundTo hc.unit (Or.inr ⟨key, hform⟩))
    obtain ⟨htoken, hregisters⟩ := registers_target hm₀ hc₀ haccessor htarget hrun hhome
    obtain ⟨-, -, hquestions⟩ := rejection_atomic (evaluator steps) context accessor target htarget
    obtain ⟨hrejects, haccepts⟩ :=
      hquestions key e m m₀ m₁ home k v hform hkey hhome.isHome hrun
    refine ⟨home, hhome, ⟨fun h => ?_, fun h => hrejects (mt hregisters.mp h)⟩,
      fun h => haccepts (hregisters.mpr h)⟩
    exact not_allocated_of_reject hm hc he h htoken
  literal properties v m' hform hrun := by
    cases steps with
    | zero => cases hrun
    | succ steps =>
      change evalExpr (evaluator steps) context e m = _ at hrun
      rw [evalExpr, hform] at hrun
      exact not_allocated_of_literal hm hc (he.object hform) hrun
  allocated c o ho hconstructing :=
    ((isSound_evaluator gone steps).eval hm hc he).steps.constructing_of_has hm ho hconstructing

end Evaluation

/-- An observer that lets evaluations be where private access is what it should be, in any number
of steps. -/
def Observer.MindsAccess (around : Observer) : Prop :=
  ∀ {α : Type} (a : Activity) (x : Eval α) {m : Machine},
    (∀ context e, a = .eval context e → ∀ steps, context.GuardsAccess m e steps) →
      around a x m = x m

theorem Observer.MindsAccess.minds {around : Observer} (h : around.MindsAccess)
    (gone : Node → Prop) : around.Minds gone := by
  intro α a x m hsound _
  refine h a x fun context e ha steps => ?_
  subst ha
  obtain ⟨hm, sc, hc, he⟩ := hsound
  exact guardsAccess hm hc he steps

/-! ### Sessions -/

namespace Session

variable {s : Session} {held : List Value}

/-- **Forgery resistance.** At every evaluation of an operation of a session, a private access is
rejected if and only if its target is no object that was allocated for a class whose chain has the
class of the running function in it. So an observer that does what it likes wherever this fails
makes no difference.

Of what has happened in a session: whenever a token was asked for a table, it refused if and only if
the value was no object allocated for a class that descends from the class of the token. An object
is allocated for one class, and none that was there before. No prototype is allocated for any. When
`new` has allocated an object, it counts as allocated for all classes of the chain, and everything
else that `new` does comes after. -/
theorem Hosted.unforgeable (h : s.Hosted held) :
    (∀ around : Observer, around.MindsAccess → ∀ steps,
      (∀ source unit, compile source = .ok unit →
        Eval.runUnit (observed around steps) unit s.machine =
          Eval.runUnit (evaluator steps) unit s.machine) ∧
      ∀ callee this args, s.Offers held callee → s.Offers held this →
        (∀ v ∈ args, s.Offers held v) →
        callValue (observed around steps) [.scope Scopes.rootId] callee this args s.machine =
          callValue (evaluator steps) [.scope Scopes.rootId] callee this args s.machine) ∧
    (∀ later past e t v, s.machine.journal = later ++ e :: past →
      e = .resolved t v ∨ e = .rejected t v →
      ∃ d, .minted t d ∈ past ∧ (∀ d', .minted t d' ∈ past → d' = d) ∧
        (e = .rejected t v ↔ ¬s.machine.world.IsAllocatedFor past d v)) ∧
    (∀ c c' o, .constructing c o ∈ s.machine.journal → .constructing c' o ∈ s.machine.journal →
      c = c') ∧
    (∀ x, s.Operation held x → ∀ c o, s.machine.world.Has (.object o) →
      .constructing c o ∈ (s.perform x).2.machine.journal →
      .constructing c o ∈ s.machine.journal) ∧
    (∀ d c, s.machine.world.HasClass d →
      .constructing c (s.machine.world.classAt d).prototype ∉ s.machine.journal) ∧
    ∀ (self : Evaluator) nodes c args (m : Machine),
      (∀ d ∈ m.world.classChain c,
        (m.allocate c).world.IsAllocatedFor (m.allocate c).journal d (.object m.nextObject)) ∧
      construct self nodes c args m = (do
        let chain := (← world).classChain c
        noting (initializeAs self (.object m.nextObject :: c.node :: nodes) m.nextObject args chain)
          fun _ => .constructed c m.nextObject
        return Value.object m.nextObject) (m.allocate c) := by
  obtain ⟨gone, hreached, hheld⟩ := h.machine
  have hm := hreached.sound
  refine ⟨fun around haround => h.observed_eq haround.minds,
    fun later past e t v => hm.registered.rejected_iff hm.toCoherent,
    hm.registered.unique, fun x hx c o ho hconstructing => ?_,
    fun d c hd => hm.registered.prototypes d hd c, fun self nodes c args m =>
      ⟨fun d hd => isAllocatedFor_allocate hd, bind_of_ok (allocate_eq c)⟩⟩
  -- Every operation is made of steps, and none of them constructs an object that was there.
  have hsteps := (steps_final (yields_of_operation hm hheld hx)).1
  refine hsteps.constructing_of_has hm ho ?_
  rwa [perform_eq] at hconstructing

/-- A class has an accessor that has been given an instance, which it reaches. -/
def forgery : Session :=
  left 128 "class A{private x=1;f(o){return private(o).x;}}let a=new A();a.f(a);".toUTF8.toList 8

/-- It is given an object that is none. -/
def forgingSource : List UInt8 := "a.f({});".toUTF8.toList

open Classical in
/-- An observer that stops where private access is not what it should be, with a fault that there is
nowhere else. -/
noncomputable def checkingAccess : Observer := fun a x m =>
  if ∀ context e, a = .eval context e → ∀ steps, context.GuardsAccess m e steps then x m
  else .error (.broken .accessorOutsideClass) m

theorem unforgeable_forgery :
    .resolved ⟨0⟩ (.object ⟨1⟩) ∈ forgery.machine.journal ∧
      ∃ unit, compile forgingSource = .ok unit ∧
        Eval.runUnit (observed checkingAccess 8) unit forgery.machine =
          Eval.runUnit (evaluator 8) unit forgery.machine ∧
        (Eval.runUnit (evaluator 8) unit forgery.machine matches
          .error (.raised (.privateAccess "A" (.object ⟨2⟩))) _) := by
  have hresolved : .resolved ⟨0⟩ (.object ⟨1⟩) ∈ forgery.machine.journal := by decide +kernel
  obtain ⟨unit, hcompile, hrejected⟩ := exists_compiled forgingSource
    (fun unit => Eval.runUnit (evaluator 8) unit forgery.machine matches
      .error (.raised (.privateAccess "A" (.object ⟨2⟩))) _) (by decide +kernel)
  have hhosted : forgery.Hosted _ := hosted_left _ _ _
  -- The observer does what it likes only where the class of the code has not allocated the value.
  have hobserver : checkingAccess.MindsAccess := fun _ _ _ h => if_pos h
  obtain ⟨hobserved, -⟩ := hhosted.unforgeable
  exact ⟨hresolved, unit, hcompile, (hobserved checkingAccess hobserver 8).1 _ unit hcompile,
    hrejected⟩

end Session

end Enclave
