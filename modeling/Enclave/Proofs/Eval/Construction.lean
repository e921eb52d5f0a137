import Enclave.Eval.Construction
import Enclave.Proofs.Eval.Calls

/-!
# Construction

An instance that is allocated is registered with the tokens of its whole chain, so its table is
found when members are installed. When it has been initialized as one of a class, the journal says
so, and says what the class has done (`World.HasInitialized`).
-/

namespace Enclave.Eval

variable {gone : Node → Prop} {m : Machine} {context : Context} {sc : ScopeContext}
  {self : Evaluator}

/-! ### What a class knows -/

section Knows

variable {w : World} (hs : w.Sound gone) {c : ClassRef} (hc : w.Admits gone (.class c))

include hs hc

/-- The scope of a class that may turn up is known. -/
theorem knows_classScope : w.Knows gone (.scope (w.classAt c).scope) :=
  hs.knows_of_mem_classHolds hc (by simp [Class.holds])

/-- The private methods of a class that may turn up may turn up. -/
theorem admits_privateMethod {p : String × FunctionRef} (hp : p ∈ (w.classAt c).privateMethods) :
    w.Admits gone (.function p.2) := by
  refine ⟨(hs.classAt_fits hc.fits).methods p hp, fun n hn => ?_⟩
  cases hn
  refine hs.knows_of_mem_classHolds hc (List.mem_append_right _ ?_)
  exact List.mem_map.mpr ⟨p, hp, rfl⟩

/-- The home of what is written in a class. -/
theorem surrounds_class :
    w.Surrounds (.inClass (w.tokenAt ⟨c.index⟩).site)
      (some ⟨(w.classAt c).token, c, (w.classAt c).parent⟩) := by
  have hfits := hs.classAt_fits hc.fits
  refine ⟨fun h hh => ?_, ?_, fun hne => absurd rfl hne⟩
  · cases hh
    refine ⟨?_, ?_, fun p hp => (hfits.parent p hp).2⟩
    · exact (hs.knows_classToken hc).1
    · rw [hfits.token, ← hc.fits.2]
  · rw [hfits.token]
    rfl

/-- A constructor is called with a construction if its class is derived. -/
theorem mayCall_constructor {m : Machine} (hw : m.world = w) {f : FunctionRef}
    (hf : (w.classAt c).constructor = some f) {construction : Option ConstructionId}
    (hconstruction : (w.classAt c).parent.isSome →
      ∃ id, construction = some id ∧ m.KnowsConstruction gone id) :
    m.MayCall gone f construction := by
  subst hw
  refine ⟨hs.knows_of_mem_classHolds hc ?_, fun x hx => ?_⟩
  · simp [Class.holds, hf]
  · have hbound := ((hs.classAt_fits hc.fits).constructor f hf).2 x hx
    refine ⟨_, hbound, fun hsuper => hconstruction ?_⟩
    by_contra hnone
    rw [ScopeContext.inConstructor, if_neg hnone] at hsuper
    cases hsuper

end Knows

/-! ### Installing members -/

/-- Storing methods notes each of them. -/
theorem meets_storeMethods (hm : m.Sound gone) {c : ClassRef} {o : ObjectId} {table : TableId}
    (htable : m.world.Knows gone (.table table)) {methods : List (String × FunctionRef)}
    (hmethods : ∀ p ∈ methods, m.world.Admits gone (.function p.2)) :
    Meets gone (storeMethods c o table methods) m fun _ m' =>
      ∀ p ∈ methods, .methodStored c o p.1 ∈ m'.journal := by
  -- each method is stored before it is recorded, and the rest only add to the journal
  induction methods generalizing m with
  | nil => exact Meets.pure fun _ h => nomatch h
  | cons method methods ih =>
    obtain ⟨name, f⟩ := method
    have hf := hmethods _ List.mem_cons_self
    rw [storeMethods_cons]
    have halters := World.alters_setSlot hm.world htable.2 (.string name) hf
    refine (meets_changeWorld halters).bind hm ?_
    intro _ m₁ hm₁ hg₁ _
    have hwarrants : m₁.Warrants gone (.methodStored c o name) := trivial
    refine (meets_record hwarrants).bind hm₁ ?_
    rintro _ m₂ hm₂ hg₂ hstored
    have hg := hg₁.trans hg₂
    refine (ih hm₂ (htable.grows hg.world) fun p hp => ?_).imp hm₂ ?_
    · exact hm.admits_grows hg (hmethods p (List.mem_cons_of_mem _ hp))
    · intro _ m₃ _ hg₃ hrest p hp
      rcases List.mem_cons.mp hp with rfl | hp
      · refine hg₃.mem ?_
        rw [hstored]
        exact List.mem_cons_self
      · exact hrest p hp

/-- Storing fields notes each of them. -/
theorem meets_storeFields (hself : Evaluator.IsSound gone self) (hm : m.Sound gone)
    (hc : context.Suits gone m sc) {c : ClassRef} {o : ObjectId} {table : TableId}
    (htable : m.world.Knows gone (.table table)) {fields : List Field}
    (hfields : ∀ f ∈ fields, context.frame.unit.CoversOptional sc f.initializer) :
    Meets gone (storeFields self context c o table fields) m fun _ m' =>
      ∀ f ∈ fields, .fieldStored c o f.name ∈ m'.journal := by
  -- each field is recorded twice, on both sides of the run of its initializer
  induction fields generalizing m with
  | nil => exact Meets.pure fun _ h => nomatch h
  | cons field fields ih =>
    rw [storeFields_cons]
    have hwarrants : m.Warrants gone (.fieldStarted c o field.name) := trivial
    refine (meets_record hwarrants).bind hm ?_
    intro _ m₁ hm₁ hg₁ _
    have hc₁ := hc.grows hm hm₁ hg₁
    have hfield := hfields field List.mem_cons_self
    refine (yields_evalOptional hself hm₁ hc₁ hfield).bind hm₁ ?_
    intro v m₂ hm₂ hg₂ hv
    have halters := World.alters_setSlot hm₂.world htable.2 (.string field.name) hv
    refine (meets_changeWorld halters).bind hm₂ ?_
    intro _ m₃ hm₃ hg₃ _
    have hwarrants' : m₃.Warrants gone (.fieldStored c o field.name) := trivial
    refine (meets_record hwarrants').bind hm₃ ?_
    intro _ m₄ hm₄ hg₄ hstored
    have hg := ((hg₁.trans hg₂).trans hg₃).trans hg₄
    refine (ih hm₄ (hc.grows hm hm₄ hg) (htable.grows hg.world) fun f hf => ?_).imp hm₄ ?_
    · exact hfields f (List.mem_cons_of_mem _ hf)
    · intro _ m₅ _ hg₅ hrest f hf
      -- this field was recorded last; the others are recorded after it
      rcases List.mem_cons.mp hf with rfl | hf
      · refine hg₅.mem ?_
        rw [hstored]
        exact List.mem_cons_self
      · exact hrest f hf

section Install

variable {held : List Node} {c : ClassRef} {o : ObjectId} (hself : Evaluator.IsSound gone self)
  (hm : m.Sound gone) (hheld : ∀ n ∈ held, m.world.Knows gone n)
  (hc : m.world.Admits gone (.class c)) (ho : m.world.IsInstance gone c o)

include hself hm hheld hc ho

omit hself in
/-- The initializers of a class are evaluated inside of its body, for the instance. -/
theorem suits_initializers :
    Context.Suits gone m (initializerContext held c (m.world.classAt c) (.object o))
      (.inClass (m.world.tokenAt ⟨c.index⟩).site) where
  unit := (hm.world.classAt_fits hc.fits).unit
  surrounds := surrounds_class hm.world hc
  this := World.admits_object.mpr ho.known
  -- the class holds its own home, its token and its parent
  home := fun h hh n hn => by
    cases hh
    refine hm.world.knows_of_mem_classHolds hc ?_
    rcases List.mem_cons.mp hn with rfl | hn
    · simp [Class.holds]
    · simp only [Class.holds, List.mem_append]
      exact Or.inl (Or.inl (Or.inr hn))
  scope := knows_classScope hm.world hc
  held := hheld
  construction := fun hsuper => nomatch hsuper

/-- When private members have been stored, the journal says of each that it was. -/
theorem meets_storePrivate :
    Meets gone (storePrivate self held c o) m fun _ m' =>
      m'.world.HasStored m'.journal c o := by
  rw [storePrivate_stepwise]
  refine Meets.world_bind ?_
  -- the instance was registered when it was allocated, so its table is there
  obtain ⟨table, hlookup⟩ := Option.isSome_iff_exists.mp
    (ho.registered c (World.mem_classChain_self c))
  have htable := hm.world.knows_instanceTable (hm.world.knows_classToken hc) ho.known hlookup
  -- so to register the instance is to look its table up, and changes nothing
  have hregister : Meets gone (onWorld (·.registerInstance (m.world.classAt c).token o)) m
      fun t m' => table = t ∧ m = m' := by
    unfold Meets
    have hrun : onWorld (·.registerInstance (m.world.classAt c).token o) m = .ok table m := by
      change EStateM.Result.ok (m.world.registerInstance _ o).1
        { m with world := (m.world.registerInstance _ o).2 } = _
      rw [World.registerInstance_of_some hlookup]
    rw [hrun]
    exact ⟨.refl, rfl, rfl⟩
  refine hregister.bind hm ?_
  rintro _ _ - - ⟨rfl, rfl⟩
  -- the note that begins the members asks for nothing
  have hwarrants : m.Warrants gone (.installing c o) := trivial
  refine (meets_record hwarrants).bind hm ?_
  intro _ m₁ hm₁ hg₁ _
  refine (meets_storeMethods hm₁ (htable.grows hg₁.world) fun p hp => ?_).bind hm₁ ?_
  · exact hm.admits_grows hg₁ (admits_privateMethod hm.world hc hp)
  intro _ m₂ hm₂ hg₂ hmethods
  have hg := hg₁.trans hg₂
  -- the table is held as well while the initializers run
  have hheld' : ∀ n ∈ Node.table table :: held, m.world.Knows gone n := fun n hn => by
    rcases List.mem_cons.mp hn with rfl | hn
    · exact htable
    · exact hheld n hn
  have hcontext := suits_initializers hm hheld' hc ho
  refine (meets_storeFields hself hm₂ (hcontext.grows hm hm₂ hg) (htable.grows hg.world)
    (hm.world.classAt_fits hc.fits).fields).imp hm₂ ?_
  intro _ m₃ _ hg₃ hfields
  -- the class is the same at the end, so the members are those that were asked for
  have hat : m₃.world.classAt c = m.world.classAt c := (hg.trans hg₃).classAt hc.fits
  refine ⟨fun p hp => ?_, fun f hf => ?_⟩
  · rw [hat] at hp
    exact hg₃.mem (hmethods p hp)
  · rw [hat] at hf
    exact hfields f hf

/-- Outside of `super(...)`, members are installed of classes that do not hand over to the parent
themselves. -/
theorem meets_installPrivate (hform : ¬(m.world.classAt c).HandsOver) :
    Meets gone (installPrivate self held c o) m fun _ m' => .installed c o ∈ m'.journal := by
  rw [installPrivate_stepwise]
  refine (meets_storePrivate hself hm hheld hc ho).bind hm ?_
  intro _ m' hm' hg hstored
  -- The note is warranted by what storing the members has left in the journal.
  have hwarrants : m'.Warrants gone (.installed c o) := by
    refine ⟨hm.hasClass_grows hg hc.fits, ?_, hstored⟩
    rw [hg.classAt hc.fits]
    exact hform
  refine (meets_record hwarrants).imp hm' ?_
  rintro _ _ - - rfl
  exact List.mem_cons_self

end Install

/-! ### Initializing -/

/-- Looking at a construction, in front of the rest of a piece. -/
theorem Meets.constructionAt_bind {α : Type} {id : ConstructionId} {f : Construction → Eval α}
    {q : α → Machine → Prop} (h : Meets gone (f (m.constructionAt id)) m q) :
    Meets gone (constructionAt id >>= f) m q := h

/-- A new construction is known, with its class and its instance. -/
theorem meets_newConstruction {c : ClassRef} {o : ObjectId}
    (hc : m.world.Admits gone (.class c)) (hform : (m.world.classAt c).HandsOver)
    (ho : m.world.IsInstance gone c o) :
    Meets gone (newConstruction c o) m fun id m' => m'.world = m.world ∧
      m'.KnowsConstruction gone id ∧ (m'.constructionAt id).classRef = c ∧
        (m'.constructionAt id).inst = o := by
  -- the construction pushed is the one found under the new id
  have hat : (Machine.constructionAt
      { m with constructions := m.constructions.push ⟨c, o, false⟩ } ⟨m.constructions.size⟩) =
        ⟨c, o, false⟩ := by
    rw [Machine.constructionAt_push]
    exact if_pos rfl
  refine ⟨.single (.construct c o), rfl, ⟨?_, ?_, ?_, ?_⟩, ?_, ?_⟩
  · change m.constructions.size < (m.constructions.push _).size
    rw [Array.size_push]
    exact Nat.lt_succ_self _
  · rw [hat]
    exact hc
  · rw [hat]
    exact hform
  · rw [hat]
    exact ho
  · rw [hat]
  · rw [hat]

/-- What is at hand when an instance is about to be initialized as one of a class. -/
structure Prepared (gone : Node → Prop) (m : Machine) (held : List Node) (c : ClassRef)
    (o : ObjectId) (args : List Value) : Prop where
  sound : m.Sound gone
  held : ∀ n ∈ held, m.world.Knows gone n
  args : ∀ v ∈ args, m.world.Admits gone v
  admits : m.world.Admits gone (.class c)
  inst : m.world.IsInstance gone c o

section Initialize

variable {held : List Node} {c p : ClassRef} {o : ObjectId} {args : List Value} {f : FunctionRef}
  {m' : Machine}

/-- What is prepared stays prepared while the machine grows. -/
theorem Prepared.grows (h : Prepared gone m held c o args) (hm' : m'.Sound gone)
    (hg : m.Grows m') : Prepared gone m' held c o args where
  sound := hm'
  held := fun n hn => (h.held n hn).grows hg.world
  args := fun v hv => h.sound.admits_grows hg (h.args v hv)
  admits := h.sound.admits_grows hg h.admits
  inst := h.sound.isInstance_grows hm'.toCoherent hg h.admits.fits h.inst

/-- The arguments are at hand as well. -/
theorem Prepared.knows_args (h : Prepared gone m held c o args) :
    ∀ n ∈ nodesOf args ++ held, m.world.Knows gone n := fun n hn =>
  (List.mem_append.mp hn).elim (World.knows_of_mem_nodesOf h.args n) (h.held n)

/-- What the class has done is noted last. -/
theorem meets_initialized (h : Prepared gone m held c o args)
    (hdone : m.world.HasInitialized m.journal c o) :
    Meets gone (record (.initialized c o)) m fun _ m' => .initialized c o ∈ m'.journal := by
  have hwarrants : m.Warrants gone (.initialized c o) := ⟨h.admits.fits, hdone⟩
  refine (meets_record hwarrants).imp h.sound ?_
  rintro _ _ - - rfl
  exact List.mem_cons_self

/-- The members of a base class are installed at once. -/
theorem meets_baseMembers (hself : Evaluator.IsSound gone self)
    (h : Prepared gone m held c o args) (hparent : (m.world.classAt c).parent = none) :
    Meets gone (installPrivate self (nodesOf args ++ held) c o) m fun _ m' =>
      .installed c o ∈ m'.journal := by
  refine meets_installPrivate hself h.sound h.knows_args h.admits h.inst fun hform => ?_
  rw [Class.HandsOver, hparent] at hform
  exact Bool.false_ne_true hform.1

/-- The constructor of the class is called. -/
theorem runs_constructor (hself : Evaluator.IsSound gone self)
    (h : Prepared gone m held c o args) (hconstructor : (m.world.classAt c).constructor = some f)
    {construction : Option ConstructionId}
    (hconstruction : (m.world.classAt c).parent.isSome →
      ∃ id, construction = some id ∧ m.KnowsConstruction gone id) :
    Yields gone (self.invoke held f (.object o) args construction) m :=
  hself.invoke h.sound h.held
    (mayCall_constructor h.sound.world h.admits rfl hconstructor hconstruction)
    (World.admits_object.mpr h.inst.known) h.args

/-- A base class without constructor installs its members, and is initialized. -/
theorem meets_plainBase (hself : Evaluator.IsSound gone self)
    (h : Prepared gone m held c o args) (hparent : (m.world.classAt c).parent = none) :
    Meets gone (do
      installPrivate self (nodesOf args ++ held) c o
      record (.initialized c o)) m fun _ m' => .initialized c o ∈ m'.journal := by
  refine (meets_baseMembers hself h hparent).bind h.sound ?_
  intro _ m₁ hm₁ hg₁ hinstalled
  refine meets_initialized (h.grows hm₁ hg₁) ?_
  rw [World.HasInitialized, hg₁.classAt h.admits.fits, hparent]
  exact hinstalled

/-- A base class with a constructor installs its members before the constructor runs. -/
theorem meets_builtBase (hself : Evaluator.IsSound gone self)
    (h : Prepared gone m held c o args) (hparent : (m.world.classAt c).parent = none)
    (hconstructor : (m.world.classAt c).constructor = some f) :
    Meets gone (do
      installPrivate self (nodesOf args ++ held) c o
      let _ ← self.invoke held f (.object o) args none
      record (.initialized c o)) m fun _ m' => .initialized c o ∈ m'.journal := by
  refine (meets_baseMembers hself h hparent).bind h.sound ?_
  intro _ m₁ hm₁ hg₁ hinstalled
  -- the class is still what it was when its members are installed, and when it returns
  have hat₁ := hg₁.classAt h.admits.fits
  have h₁ := h.grows hm₁ hg₁
  refine (runs_constructor hself h₁ (hat₁ ▸ hconstructor) fun hsome => ?_).bind hm₁ ?_
  · rw [hat₁, hparent] at hsome
    cases hsome
  · intro _ m₂ hm₂ hg₂ _
    refine meets_initialized (h₁.grows hm₂ hg₂) ?_
    rw [World.HasInitialized, hg₂.classAt h₁.admits.fits, hat₁, hparent]
    exact hg₂.mem hinstalled

/-- A derived class without constructor has its parent initialized first. -/
theorem meets_plainHeir (hself : Evaluator.IsSound gone self)
    (h : Prepared gone m held c o args) (hparent : (m.world.classAt c).parent = some p)
    (hconstructor : (m.world.classAt c).constructor = none) {ancestors : List ClassRef}
    (hsettled : Meets gone (initializeAs self held o args ancestors) m fun _ m' =>
      .initialized p o ∈ m'.journal) :
    Meets gone (do
      initializeAs self held o args ancestors
      installPrivate self held c o
      record (.initialized c o)) m fun _ m' => .initialized c o ∈ m'.journal := by
  refine hsettled.bind h.sound ?_
  intro _ m₁ hm₁ hg₁ hinitialized
  have hat₁ := hg₁.classAt h.admits.fits
  have h₁ := h.grows hm₁ hg₁
  -- a class without a constructor does not hand over
  have hform : ¬(m₁.world.classAt c).HandsOver := fun hform => by
    rw [Class.HandsOver, hat₁, hconstructor] at hform
    exact Bool.false_ne_true hform.2
  refine (meets_installPrivate hself hm₁ h₁.held h₁.admits h₁.inst hform).bind hm₁ ?_
  intro _ m₂ hm₂ hg₂ hinstalled
  refine meets_initialized (h₁.grows hm₂ hg₂) ?_
  rw [World.HasInitialized, hg₂.classAt h₁.admits.fits, hat₁, hparent, hconstructor]
  exact ⟨hg₂.mem hinitialized, hinstalled⟩

/-- A derived class with a constructor is initialized when that has called `super(...)`. -/
theorem meets_builtHeir (hself : Evaluator.IsSound gone self)
    (h : Prepared gone m held c o args) (hparent : (m.world.classAt c).parent = some p)
    (hconstructor : (m.world.classAt c).constructor = some f) :
    Meets gone (do
      let construction ← newConstruction c o
      let _ ← self.invoke held f (.object o) args (some construction)
      if !(← constructionAt construction).superCalled then
        raiseType (.superMissing c.name)
      record (.initialized c o)) m fun _ m' => .initialized c o ∈ m'.journal := by
  have hform : (m.world.classAt c).HandsOver :=
    ⟨by rw [hparent]; rfl, by rw [hconstructor]; rfl⟩
  refine (meets_newConstruction h.admits hform h.inst).bind h.sound ?_
  rintro id m₁ hm₁ hg₁ ⟨-, hid, hclass, hinst⟩
  have hat₁ := hg₁.classAt h.admits.fits
  have h₁ := h.grows hm₁ hg₁
  refine (runs_constructor hself h₁ (hat₁ ▸ hconstructor) fun _ => ⟨id, rfl, hid⟩).bind hm₁ ?_
  intro _ m₂ hm₂ hg₂ _
  obtain ⟨hmade, hclass', hinst'⟩ := hg₂.constructions id hid.made
  refine Meets.constructionAt_bind ?_
  split
  · exact (meets_raiseType _).bind hm₂ fun _ _ _ _ (h : False) => h.elim
  · next hcalled =>
    -- a sound machine knows what a call of the parent's constructor has done
    refine meets_initialized (h₁.grows hm₂ hg₂) ?_
    rw [World.HasInitialized, hg₂.classAt h₁.admits.fits, hat₁, hparent, hconstructor]
    have hsuper := hm₂.superCalls id hmade (by simpa using hcalled)
    rwa [hclass', hinst', hclass, hinst] at hsuper

/-- **Initializing.** The journal tells that the instance was initialized as one of the first class
of the chain. -/
theorem meets_initializeAs (hself : Evaluator.IsSound gone self) {chain : List ClassRef}
    {c : ClassRef} (h : Prepared gone m held c o args) (hchain : m.world.classChain c = chain) :
    Meets gone (initializeAs self held o args chain) m fun _ m' =>
      .initialized c o ∈ m'.journal := by
  induction chain generalizing m c with
  -- the chain of a class begins with the class
  | nil => exact absurd (World.mem_classChain_self c) (hchain ▸ List.not_mem_nil)
  | cons c' ancestors ih =>
    rw [initializeAs_cons]
    -- the note comes first, and what was known is carried over it
    have hwarrants : m.Warrants gone (.initializing c' o) := trivial
    refine (meets_record hwarrants).bind h.sound ?_
    intro _ m₁ hm₁ hg₁ _
    replace hchain := (h.sound.world.classChain_grows hm₁.world hg₁.world h.admits.fits).trans
      hchain
    replace h := h.grows hm₁ hg₁
    refine Meets.world_bind ?_
    -- the class is the first of the chain, with or without a parent
    cases hparent : (m₁.world.classAt c).parent with
    | none =>
      rw [World.classChain_of_none hparent] at hchain
      obtain ⟨rfl, rfl⟩ := List.cons.inj hchain
      cases hconstructor : (m₁.world.classAt c).constructor with
      | none =>
        dsimp only
        rw [hparent, hconstructor]
        exact meets_plainBase hself h hparent
      | some f =>
        dsimp only
        rw [hparent, hconstructor]
        exact meets_builtBase hself h hparent hconstructor
    | some p =>
      rw [hm₁.world.classChain_of_some hparent] at hchain
      obtain ⟨rfl, hancestors⟩ := List.cons.inj hchain
      cases hconstructor : (m₁.world.classAt c).constructor with
      | none =>
        dsimp only
        rw [hparent, hconstructor]
        -- without a constructor the parent gets the same arguments
        have hp : Prepared gone m₁ held p o args := ⟨hm₁, h.held, h.args,
          hm₁.world.admits_parent h.admits hparent, h.inst.parent hm₁.world hparent⟩
        exact meets_plainHeir hself h hparent hconstructor (ih hp hancestors)
      | some f =>
        dsimp only
        rw [hparent, hconstructor]
        exact meets_builtHeir hself h hparent hconstructor

end Initialize

/-! ### `super(...)` and `new` -/

section SuperCall

variable (hself : Evaluator.IsSound gone self) (hm : m.Sound gone)

include hself hm

/-- **`super(...)`.** It stands in a derived constructor, and its class has a parent. -/
theorem runs_superCall (hc : context.Suits gone m sc) (hsuper : sc.superUse = .construction)
    {args : List Value} (hargs : ∀ v ∈ args, m.world.Admits gone v) :
    Runs gone (superCall self context args) m := by
  -- code that may use `super` so runs in a construction, which knows its class and object
  obtain ⟨id, hid, hknows⟩ := hc.construction hsuper
  rw [superCall_stepwise]
  rw [hid]
  refine Meets.constructionAt_bind ?_
  set c := (m.constructionAt id).classRef with hclass
  set o := (m.constructionAt id).inst with hinst
  -- the class of such a construction has a parent to hand over to
  obtain ⟨hparent, -⟩ := hknows.handsOver
  obtain ⟨p, hp⟩ := Option.isSome_iff_exists.mp hparent
  have hmark : Meets gone (markSuperCalled id) m fun _ m' => m' = m.callSuper id :=
    ⟨.single (.callSuper hknows), rfl⟩
  -- a second call is refused before anything is marked
  split
  · exact (meets_raiseType _).bind hm fun _ _ _ _ (h : False) => h.elim
  refine hmark.bind hm ?_
  intro _ m₁ hm₁ hg₁ _
  refine Meets.world_bind ?_
  -- what the construction knows still holds once it is marked
  have hc₁ := hm.admits_grows hg₁ hknows.classKnown
  have ho₁ := hm.isInstance_grows hm₁.toCoherent hg₁ hknows.classKnown.fits hknows.inst
  have hp₁ : (m₁.world.classAt c).parent = some p := by
    rw [hg₁.classAt hknows.classKnown.fits, hp]
  rw [hm₁.world.classChain_of_some hp₁]
  have hnodes₁ := (hc.grows hm hm₁ hg₁).nodes
  have hprepared : Prepared gone m₁ context.nodes p o args := ⟨hm₁, hnodes₁,
    fun v hv => hm.admits_grows hg₁ (hargs v hv), hm₁.world.admits_parent hc₁ hp₁,
    ho₁.parent hm₁.world hp₁⟩
  refine (meets_initializeAs hself hprepared rfl).bind hm₁ ?_
  intro _ m₂ hm₂ hg₂ hinitialized
  have hg := hg₁.trans hg₂
  rw [installPrivate_stepwise, bind_assoc]
  -- the parent is done, and the members of the class itself follow
  refine (meets_storePrivate hself hm₂ (hc.grows hm hm₂ hg).nodes (hm₁.admits_grows hg₂ hc₁)
    (hm₁.isInstance_grows hm₂.toCoherent hg₂ hc₁.fits ho₁)).bind hm₂ ?_
  intro _ m₃ hm₃ hg₃ hstored
  have hat : m₃.world.classAt c = m.world.classAt c :=
    (hg.trans hg₃).classAt hknows.classKnown.fits
  -- nothing happens between the last member and the end of the call
  refine ⟨.single (.returnSuper (p := p) ?_ ?_ ?_ (hg₃.mem hinitialized) hstored), trivial⟩
  · exact hm.hasClass_grows (hg.trans hg₃) hknows.classKnown.fits
  · rw [hat]
    exact hknows.handsOver
  · rw [hat, hp]

end SuperCall

section Construct

variable {c : ClassRef} (hm : m.Sound gone) (hc : m.world.Admits gone (.class c))

include hm hc

/-- An instance that has just been allocated is registered with its whole chain. -/
theorem isInstance_allocate : (m.allocate c).world.IsInstance gone c m.nextObject := by
  obtain ⟨hbegin, hg⟩ := hm.begin hc
  have henrolls := hm.enrolls_allocate hc
  have hclass := hm.hasClass_grows hg hc.fits
  refine ⟨(World.knows_newObject hm.world _).grows henrolls.grows.world, fun d hd => ?_⟩
  rw [hbegin.world.classChain_grows henrolls.coherent.world henrolls.grows.world hclass] at hd
  rw [henrolls.grows.classAt (hbegin.world.hasClass_of_mem hclass hd)]
  exact (henrolls.lookups _ _).mpr (Or.inr ⟨rfl, d, hd, rfl⟩)

omit hm hc in
/-- Registering with all classes of a chain, as one change of the machine. -/
theorem registerAll_eq (o : ObjectId) (cs : List ClassRef) :
    registerAll o cs m = .ok () (cs.foldl (Machine.register o) m) := by
  induction cs generalizing m with
  | nil => rfl
  | cons c cs ih => exact ih

omit hm hc in
/-- Allocating an instance, as one change of the machine. -/
theorem allocate_eq (c : ClassRef) : allocate c m = .ok m.nextObject (m.allocate c) := by
  change EStateM.bind (registerAll m.nextObject ((m.begin c).world.classChain c))
    (fun _ => pure m.nextObject) (m.begin c) = _
  rw [EStateM.bind, registerAll_eq]
  rfl

omit hm in
/-- An instance that is allocated is registered with the whole chain. -/
theorem meets_allocate :
    Meets gone (allocate c) m fun o m' => o = m.nextObject ∧ m' = m.allocate c := by
  unfold Meets
  rw [allocate_eq]
  exact ⟨.single (.allocate hc), rfl, rfl⟩

/-- **`new`.** -/
theorem yields_construct (hself : Evaluator.IsSound gone self) {held : List Node}
    (hheld : ∀ n ∈ held, m.world.Knows gone n) {args : List Value}
    (hargs : ∀ v ∈ args, m.world.Admits gone v) :
    Yields gone (construct self held c args) m := by
  rw [construct_stepwise]
  -- a new object is registered with every class of the chain before any code runs
  refine (meets_allocate hc).bind hm ?_
  rintro o m₁ hm₁ hg₁ ⟨rfl, rfl⟩
  refine Meets.world_bind ?_
  have hc₁ := hm.admits_grows hg₁ hc
  have ho := isInstance_allocate hm hc
  -- the new object and its class are held while it is initialized
  have hheld₁ : ∀ n ∈ Node.object m.nextObject :: c.node :: held,
      (m.allocate c).world.Knows gone n := by
    intro n hn
    rcases List.mem_cons.mp hn with rfl | hn
    · exact ho.known
    rcases List.mem_cons.mp hn with rfl | hn
    · exact hc₁.known _ rfl
    · exact (hheld n hn).grows hg₁.world
  have hprepared : Prepared gone (m.allocate c) _ c m.nextObject args :=
    ⟨hm₁, hheld₁, fun v hv => hm.admits_grows hg₁ (hargs v hv), hc₁, ho⟩
  refine (meets_initializeAs hself hprepared rfl).bind hm₁ ?_
  intro _ m₂ hm₂ hg₂ hinitialized
  -- construction is noted at the end, when the object is initialized for its class
  have hwarrants : m₂.Warrants gone (.constructed c m.nextObject) :=
    ⟨hm₁.hasClass_grows hg₂ hc₁.fits, hinitialized⟩
  refine (meets_record hwarrants).bind hm₂ ?_
  intro _ m₃ _ hg₃ _
  exact Meets.pure (World.admits_object.mpr ((ho.known.grows hg₂.world).grows hg₃.world))

end Construct

end Enclave.Eval
