import Enclave.Proofs.Eval.Composed
import Enclave.Proofs.Eval.Notes

/-!
# Constructions from single operations

The construction of an instance is put together from parts too, if the operations are admitted that
only constructions make: to note what happens to an instance, to register it, to begin a derived
constructor and note that it has called its parent's, and to call a constructor (`Primitive`). Where
nothing restricts what may be evaluated, everything is built from these (`supports_primitive`).
-/

namespace Enclave

/-- Events of calls, as opposed to those of constructions, class definitions and accesses. -/
def Event.isCall : Event → Bool
  | .invoked .. | .returned _ | .refused _ => true
  | _ => false

namespace Eval

variable {R : Terms} {m : Machine} {context : Context}

/-- Operations of constructions and of class definitions. -/
inductive Primitive (R : Terms) : Pieces
  | record {m : Machine} (e : Event) (he : e.isCall = false) :
    Primitive R Unit (fun _ => record e) m fun _ _ => True
  | register {m : Machine} {t : TokenId} {o : ObjectId} (ht : t.index < m.world.tokens.size)
    (hmay : R.may t) (ho : o.index < m.world.objects.size) :
    Primitive R TableId (fun _ => onWorld fun w => w.registerInstance t o) m
      fun table m' => R.Reaches m'.world table
  | newConstruction {m : Machine} {c : ClassRef} {o : ObjectId}
    (hc : c.index < m.world.classes.size) (ho : o.index < m.world.objects.size) :
    Primitive R ConstructionId (fun _ => newConstruction c o) m
      fun id m' => id.index < m'.constructions.size
  | constructionAt {m : Machine} (id : ConstructionId) :
    Primitive R Construction (fun _ => constructionAt id) m fun k m' => k = m'.constructionAt id
  | markSuperCalled {m : Machine} (id : ConstructionId) :
    Primitive R Unit (fun _ => markSuperCalled id) m fun _ _ => True
  | invoke {m : Machine} (held : List Node) (f : FunctionRef) {this : Value} {args : List Value}
    {construction : Option ConstructionId} (hthis : m.world.Passes this)
    (hargs : ∀ v ∈ args, m.world.Passes v)
    (hconstruction : ∀ id ∈ construction, id.index < m.constructions.size ∧ R.works id) :
    Primitive R Value (fun self => self.invoke held f this args construction) m Gives
  | makeClass {m : Machine} {context : Context} {c : ClassDef} {parent : Option ClassRef}
    (hm : m.IsTidy) (hc : R.Suits m context.frame)
    (hparent : ∀ p ∈ parent, m.world.Passes (.class p)) (hmay : R.may ⟨m.world.tokens.size⟩)
    (hcode : R.code (.class c)) :
    Primitive R ClassParts (fun _ => makeClass context c parent) m fun parts m' =>
      parts.unit = context.frame.unit ∧ R.Allows m'.world parts.home ∧
        R.Reaches m'.world parts.statics

/-- A class whose members may be set up: it has been made, and its code may run. -/
structure MayInstall (R : Terms) (w : World) (c : ClassRef) : Prop where
  made : c.index < w.classes.size
  may : R.may (w.classAt c).token
  fields : ∀ f ∈ (w.classAt c).fields, ∀ e ∈ f.initializer, R.code (.expr e)
  minted : R.minted ≤ w.tokens.size

theorem MayInstall.extends {w w' : World} {c : ClassRef} (h : MayInstall R w c)
    (hext : w.Extends w') : MayInstall R w' c := by
  refine ⟨h.made.trans_le hext.classCount, ?_, ?_, h.minted.trans hext.tokens⟩
  · rw [hext.classAt h.made]
    exact h.may
  · rw [hext.classAt h.made]
    exact h.fields

/-- Where everything may run, the members of any class that has been made may be set up. -/
theorem mayInstall_anything {w : World} {c : ClassRef} (hc : c.index < w.classes.size) :
    MayInstall .anything w c :=
  ⟨hc, trivial, fun _ _ _ _ => trivial, Nat.zero_le _⟩

/-! ### Private members -/

theorem built_record (e : Event) (he : e.isCall = false) :
    Built R (Primitive R) (fun _ => record e) m fun _ _ => True :=
  .own (.record e he)

theorem built_storeMethods (c : ClassRef) (inst : ObjectId) {table : TableId}
    (htable : R.Reaches m.world table) (methods : List (String × FunctionRef))
    (hmethods : ∀ x ∈ methods, m.world.Passes (.function x.2)) :
    Built R (Primitive R) (fun _ => storeMethods c inst table methods) m fun _ _ => True := by
  -- Method by method: the slot is set, and then noted.
  induction methods generalizing m with
  | nil => exact .pure trivial
  | cons x rest ih =>
    obtain ⟨name, f⟩ := x
    have hf : m.world.Passes (.function f) := hmethods _ List.mem_cons_self
    simp only [storeMethods_cons]
    refine .bind (.atom (.setSlot htable _ hf)) fun _ m₁ _ hext₁ _ => ?_
    refine .bind (built_record _ rfl) fun _ m₂ _ hext₂ _ => ?_
    have hext := hext₁.trans hext₂
    refine ih (htable.extends hext.world) fun x hx => ?_
    exact (hmethods x (List.mem_cons_of_mem _ hx)).extends hext.world

theorem built_storeFields (hc : R.Suits m context.frame) (c : ClassRef) (inst : ObjectId)
    {table : TableId} (htable : R.Reaches m.world table) (fields : List Field)
    (hfields : ∀ f ∈ fields, ∀ e ∈ f.initializer, R.code (.expr e)) :
    Built R (Primitive R) (fun self => storeFields self context c inst table fields) m
      fun _ _ => True := by
  induction fields generalizing m with
  | nil => exact .pure trivial
  | cons field rest ih =>
    simp only [storeFields_cons]
    refine .bind (built_record _ rfl) fun _ m₁ _ hext₁ _ => ?_
    have hinitializer := hfields field List.mem_cons_self
    refine .bind (built_evalOptional (hc.extends hext₁) _ hinitializer) fun v m₂ _ hext₂ hv => ?_
    -- the table is still there when the initializer has been run
    have hreach := htable.extends (hext₁.trans hext₂).world
    refine .bind (.atom (.setSlot hreach _ hv)) fun _ m₃ _ hext₃ _ => ?_
    refine .bind (built_record _ rfl) fun _ m₄ _ hext₄ _ => ?_
    have hext := ((hext₁.trans hext₂).trans hext₃).trans hext₄
    exact ih (hc.extends hext) (htable.extends hext.world) fun f hf =>
      hfields f (List.mem_cons_of_mem _ hf)

/-- Initializers run in a frame of their class. -/
theorem suits_initializer (hm : m.IsTidy) {c : ClassRef} (h : MayInstall R m.world c)
    (held : List Node) (inst : ObjectId) :
    R.Suits m (initializerContext held c (m.world.classAt c) (.object inst)).frame := by
  have htoken := (hm.world.classAt h.made).token
  refine ⟨⟨trivial, fun x hx => ?_, fun _ hid => nomatch hid⟩, fun x hx => ?_,
    fun _ hid => (nomatch hid), h.minted⟩
  · cases hx
    refine ⟨?_, (congrArg TokenId.index htoken).symm⟩
    change (m.world.classAt c).token.index < m.world.tokens.size
    -- every class has its token
    rw [htoken, ← hm.settled]
    exact h.made
  · cases hx
    exact h.may

theorem built_installPrivate (hm : m.IsTidy) (held : List Node) {c : ClassRef} {inst : ObjectId}
    (hc : MayInstall R m.world c) (ho : inst.index < m.world.objects.size) :
    Built R (Primitive R) (fun self => installPrivate self held c inst) m fun _ _ => True := by
  -- the class has a token, and registering with it gives the table to store into
  have htoken : (m.world.classAt c).token.index < m.world.tokens.size := by
    rw [(hm.world.classAt hc.made).token, ← hm.settled]
    exact hc.made
  simp only [installPrivate_stepwise, storePrivate_stepwise]
  refine .bind (p := fun _ _ => True) ?_ fun _ _ _ _ _ => built_record _ rfl
  refine .world (fun _ => rfl) ?_
  refine .bind (.own (.register htoken hc.may ho)) fun table m₁ _ hext₁ htable => ?_
  refine .bind (built_record _ rfl) fun _ m₂ _ hext₂ _ => ?_
  have hext := hext₁.trans hext₂
  refine .bind (built_storeMethods c inst (htable.extends hext₂.world) _ fun x hx => ?_) ?_
  · exact ((hm.world.classAt hc.made).methods x hx).extends hext.world
  · intro _ m₃ _ hext₃ _
    have hframe := (suits_initializer hm hc (.table table :: held) inst).extends
      (hext.trans hext₃)
    exact built_storeFields hframe c inst (htable.extends (hext₂.trans hext₃).world) _ hc.fields

/-! ### Chains -/

/-- Pieces that constructions are put together from: single operations, and the installation of the
private members of classes of some kind. -/
structure Installs (R : Terms) (own : Pieces) (kind : World → ClassRef → Prop) : Prop where
  primitive : ∀ {α : Type} {x : Evaluator → Eval α} {m : Machine} {q : α → Machine → Prop},
    Primitive R α x m q → own α x m q
  made : ∀ {w : World} {c : ClassRef}, kind w c →
    c.index < w.classes.size ∧ R.may (w.classAt c).token
  extends_ : ∀ {w w' : World} {c : ClassRef}, kind w c → w.Extends w' → kind w' c
  install : ∀ {m : Machine} (held : List Node) {c : ClassRef} {inst : ObjectId}, m.IsTidy →
    kind m.world c → inst.index < m.world.objects.size →
    Built R own (fun self => installPrivate self held c inst) m fun _ _ => True

/-- Single operations are enough to install the members of classes whose code may run. -/
theorem installs_primitive : Installs R (Primitive R) (MayInstall R) where
  primitive h := h
  made h := ⟨h.made, h.may⟩
  extends_ h hext := h.extends hext
  install held _ _ hm hc ho := built_installPrivate hm held hc ho

section Chains

variable {own : Pieces} {kind : World → ClassRef → Prop} (hs : Installs R own kind)

include hs

theorem Installs.record (e : Event) (he : e.isCall = false) :
    Built R own (fun _ => Eval.record e) m fun _ _ => True :=
  .own (hs.primitive (.record e he))

theorem built_initializeAs (hworks : ∀ id, R.works id) (hm : m.IsTidy) (held : List Node)
    {inst : ObjectId} (ho : inst.index < m.world.objects.size) {args : List Value}
    (hargs : ∀ v ∈ args, m.world.Passes v) (chain : List ClassRef)
    (hchain : ∀ c ∈ chain, kind m.world c) :
    Built R own (fun self => initializeAs self held inst args chain) m fun _ _ => True := by
  induction chain generalizing m with
  | nil => exact .broken _
  | cons c ancestors ih =>
    simp only [initializeAs_cons]
    refine .bind (hs.record _ rfl) fun _ m₁ hm₁ hext₁ _ => ?_
    have hc := hs.extends_ (hchain c List.mem_cons_self) hext₁.world
    have ho₁ := ho.trans_le hext₁.world.objects
    have hargs₁ : ∀ v ∈ args, m₁.world.Passes v := fun v hv => (hargs v hv).extends hext₁.world
    have hancestors : ∀ d ∈ ancestors, kind m₁.world d := fun d hd =>
      hs.extends_ (hchain d (List.mem_cons_of_mem _ hd)) hext₁.world
    refine .world (fun _ => rfl) ?_
    -- the four kinds of classes: with or without a parent, with or without a constructor
    cases (m₁.world.classAt c).parent with
    | none =>
      cases (m₁.world.classAt c).constructor with
      | none =>
        exact .bind (hs.install _ hm₁ hc ho₁) fun _ _ _ _ _ => hs.record _ rfl
      | some f =>
        refine .bind (hs.install _ hm₁ hc ho₁) fun _ m₂ _ hext₂ _ => ?_
        have hargs₂ : ∀ v ∈ args, m₂.world.Passes v := fun v hv => (hargs₁ v hv).extends hext₂.world
        refine .bind (.own (hs.primitive (.invoke held f trivial hargs₂ fun _ h => nomatch h))) ?_
        exact fun _ _ _ _ _ => hs.record _ rfl
    | some p =>
      cases (m₁.world.classAt c).constructor with
      | none =>
        refine .bind (ih hm₁ ho₁ hargs₁ hancestors) fun _ m₂ hm₂ hext₂ _ => ?_
        have hc₂ := hs.extends_ hc hext₂.world
        refine .bind (hs.install held hm₂ hc₂ (ho₁.trans_le hext₂.world.objects)) ?_
        exact fun _ _ _ _ _ => hs.record _ rfl
      | some f =>
        -- the constructor runs for a construction of its own, which it may not leave unfinished
        refine .bind (.own (hs.primitive (.newConstruction (hs.made hc).1 ho₁)))
          fun id m₂ _ hext₂ hid => ?_
        have hargs₂ : ∀ v ∈ args, m₂.world.Passes v := fun v hv => (hargs₁ v hv).extends hext₂.world
        have hid' : ∀ x ∈ some id, x.index < m₂.constructions.size ∧ R.works x := fun x hx => by
          cases hx
          exact ⟨hid, hworks id⟩
        refine .bind (.own (hs.primitive (.invoke held f trivial hargs₂ hid'))) fun _ m₃ _ _ _ => ?_
        refine .bind (.own (hs.primitive (.constructionAt id))) fun k _ _ _ _ => ?_
        cases k.superCalled with
        | false =>
          exact .bind (p := fun _ _ => False) (built_raiseType _) fun _ _ _ _ h => h.elim
        | true => exact hs.record _ rfl

theorem built_registerAll (hm : m.IsTidy) {inst : ObjectId}
    (ho : inst.index < m.world.objects.size) (chain : List ClassRef)
    (hchain : ∀ c ∈ chain, c.index < m.world.classes.size ∧ R.may (m.world.classAt c).token) :
    Built R own (fun _ => registerAll inst chain) m fun _ _ => True := by
  -- Class by class along the chain, from the machine the last registration left.
  induction chain generalizing m with
  | nil => exact .pure trivial
  | cons c rest ih =>
    obtain ⟨hmade, hmay⟩ := hchain c List.mem_cons_self
    have htoken : (m.world.classAt c).token.index < m.world.tokens.size := by
      rw [(hm.world.classAt hmade).token, ← hm.settled]
      exact hmade
    simp only [registerAll_cons]
    refine .world (fun _ => rfl) ?_
    refine .bind (.own (hs.primitive (.register htoken hmay ho))) fun _ m₁ _ hext₁ _ => ?_
    refine .bind (hs.record _ rfl) fun _ m₂ hm₂ hext₂ _ => ?_
    have hext := (hext₁.trans hext₂).world
    refine ih hm₂ (ho.trans_le hext.objects) fun d hd => ?_
    obtain ⟨hmade', hmay'⟩ := hchain d (List.mem_cons_of_mem _ hd)
    rw [hext.classAt hmade']
    exact ⟨hmade'.trans_le hext.classCount, hmay'⟩

/-- The instance is allocated, and registered with the tokens of its chain. -/
theorem built_allocate (hm : m.IsTidy) {c : ClassRef}
    (hchain : ∀ d ∈ m.world.classChain c, kind m.world d) :
    Built R own (fun _ => allocate c) m fun inst m' => inst.index < m'.world.objects.size := by
  have hc : c.index < m.world.classes.size := (hs.made (hchain c (World.mem_classChain_self c))).1
  simp only [allocate_stepwise]
  refine .world (fun _ => rfl) ?_
  refine .bind (.atom (.newObject _)) fun inst m₁ _ hext₁ ho => ?_
  refine .bind (hs.record _ rfl) fun _ m₂ hm₂ hext₂ _ => ?_
  have hext := hext₁.trans hext₂
  refine .world (fun _ => rfl) ?_
  have ho₂ := ho.trans_le hext₂.world.objects
  refine .bind (built_registerAll hs hm₂ ho₂ _ fun d hd => ?_) fun _ m₃ _ hext₃ _ => ?_
  · -- the classes that register the object are those that its class descends from by now
    rw [World.classChain_extends hm.world hext.world hc] at hd
    exact hs.made (hs.extends_ (hchain d hd) hext.world)
  · exact .pure (ho₂.trans_le hext₃.world.objects)

/-- What happens to an instance that has been allocated. -/
theorem built_setUp (hworks : ∀ id, R.works id) (hm : m.IsTidy) (held : List Node)
    {c : ClassRef} {inst : ObjectId} {args : List Value} (ho : inst.index < m.world.objects.size)
    (hargs : ∀ v ∈ args, m.world.Passes v) (hchain : ∀ d ∈ m.world.classChain c, kind m.world d) :
    Built R own (fun self => do
      let chain := (← world).classChain c
      initializeAs self held inst args chain
      Eval.record (.constructed c inst)
      return .object inst) m Gives := by
  refine .world (fun _ => rfl) ?_
  refine .bind (built_initializeAs hs hworks hm _ ho hargs _ hchain) fun _ m₁ _ _ _ => ?_
  exact .bind (hs.record _ rfl) fun _ _ _ _ _ => .pure trivial

/-- **Constructions.** -/
theorem built_construct (hworks : ∀ id, R.works id) (hm : m.IsTidy) (held : List Node)
    {c : ClassRef} {args : List Value} (hargs : ∀ v ∈ args, m.world.Passes v)
    (hchain : ∀ d ∈ m.world.classChain c, kind m.world d) :
    Built R own (fun self => construct self held c args) m Gives := by
  have hc : c.index < m.world.classes.size := (hs.made (hchain c (World.mem_classChain_self c))).1
  simp only [construct_stepwise]
  refine .bind (built_allocate hs hm hchain) fun inst m₁ hm₁ hext₁ ho => ?_
  refine built_setUp hs hworks hm₁ _ ho (fun v hv => (hargs v hv).extends hext₁.world)
    fun d hd => ?_
  -- the chain of a class that has been made is the same at all later machines
  rw [World.classChain_extends hm.world hext₁.world hc] at hd
  exact hs.extends_ (hchain d hd) hext₁.world

/-- What comes after the check that the parent's constructor has not been called. -/
theorem built_handOver (hworks : ∀ id, R.works id) (hm : m.IsTidy) (held : List Node)
    {c : ClassRef} {inst : ObjectId} {args : List Value} (ho : inst.index < m.world.objects.size)
    (hargs : ∀ v ∈ args, m.world.Passes v) (hchain : ∀ d ∈ m.world.classChain c, kind m.world d) :
    Built R own (fun self => do
      let ancestors := ((← world).classChain c).drop 1
      initializeAs self held inst args ancestors
      installPrivate self held c inst
      Eval.record (.superReturned c inst)) m fun _ _ => True := by
  refine .world (fun _ => rfl) ?_
  -- the ancestors first, then the private members of the class itself
  refine .bind (built_initializeAs hs hworks hm _ ho hargs _ fun d hd => ?_)
    fun _ m₁ hm₁ hext₁ _ => ?_
  · exact hchain d (List.mem_of_mem_drop hd)
  · have hself := hs.extends_ (hchain c (World.mem_classChain_self c)) hext₁.world
    exact .bind (hs.install _ hm₁ hself (ho.trans_le hext₁.world.objects))
      fun _ _ _ _ _ => hs.record _ rfl

/-- `super(...)` is refused, or hands over as the construction says that it is part of. -/
theorem built_superCall_of (hc : R.Suits m context.frame) {args : List Value}
    (hcall : ∀ id ∈ context.frame.construction, ∀ (k : Construction) (m' : Machine), m'.IsTidy →
      m.Extends m' → k.classRef = (m.constructionAt id).classRef →
      k.inst = (m.constructionAt id).inst → Built R own (fun self => do
        markSuperCalled id
        let ancestors := ((← world).classChain k.classRef).drop 1
        initializeAs self context.nodes k.inst args ancestors
        installPrivate self context.nodes k.classRef k.inst
        Eval.record (.superReturned k.classRef k.inst)) m' fun _ _ => True) :
    Built R own (fun self => superCall self context args) m fun _ _ => True := by
  simp only [superCall_stepwise]
  cases hconstruction : context.frame.construction with
  | none => exact .broken _
  | some id =>
    -- the construction found is still of the class and the instance it was begun for
    refine .bind (.own (hs.primitive (.constructionAt id))) fun k m₁ hm₁ hext₁ hk => ?_
    obtain ⟨hclass, hinst⟩ := hext₁.constructions id (hc.construction id hconstruction)
    rw [← hk] at hclass hinst
    -- a second `super` is a type error, the first hands over
    by_cases hcalled : k.superCalled
    · simp only [hcalled, if_true]
      exact .bind (p := fun _ _ => False) (built_raiseType _) fun _ _ _ _ h => h.elim
    · simp only [hcalled]
      exact hcall id hconstruction k m₁ hm₁ hext₁ hclass hinst

/-- **`super(...)`.** -/
theorem built_superCall (hworks : ∀ id, R.works id) (hm : m.IsTidy)
    (hc : R.Suits m context.frame) {args : List Value} (hargs : ∀ v ∈ args, m.world.Passes v)
    (hchain : ∀ id ∈ context.frame.construction,
      ∀ d ∈ m.world.classChain (m.constructionAt id).classRef, kind m.world d) :
    Built R own (fun self => superCall self context args) m fun _ _ => True := by
  refine built_superCall_of hs hc fun id hid k m₁ _ hext₁ hclass hinst => ?_
  obtain ⟨hmade, ho⟩ := hm.constructions id (hc.construction id hid)
  rw [← hclass] at hmade
  rw [← hinst] at ho
  refine .bind (.own (hs.primitive (.markSuperCalled id))) fun _ m₂ hm₂ hext₂ _ => ?_
  have hext := hext₁.trans hext₂
  refine built_handOver hs hworks hm₂ _ (ho.trans_le hext.world.objects)
    (fun v hv => (hargs v hv).extends hext.world) fun d hd => ?_
  -- the chain is that of the class under construction, as it was when the call began
  rw [World.classChain_extends hm.world hext.world hmade, hclass] at hd
  exact hs.extends_ (hchain id hid d hd) hext.world

end Chains

/-! ### Without restrictions -/

/-- Where nothing is restricted, everything is built from single operations. -/
theorem supports_primitive : Supports .anything (Primitive .anything) where
  covers _ _ := ⟨fun _ _ => trivial, fun _ => trivial, fun _ => trivial⟩
  construct _ {_ _ _ _} hm _ hc hargs :=
    built_construct installs_primitive (fun _ => trivial) hm _ hargs fun _ hd =>
      mayInstall_anything (hm.world.lt_of_mem_classChain hc hd)
  superCall hm hc hargs :=
    built_superCall installs_primitive (fun _ => trivial) hm hc hargs fun id hid _ hd =>
      mayInstall_anything
        (hm.world.lt_of_mem_classChain (hm.constructions id (hc.construction id hid)).1 hd)
  makeClass hm hc _ hparent := .own (.makeClass hm hc hparent trivial trivial)

end Eval

end Enclave
