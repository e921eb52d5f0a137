import Enclave.Proofs.Eval.SettingUp

/-!
# Evaluation keeps to the protocol

Constructions keep to their protocol if the evaluator of the parts does: an object is initialized
from the base of the chain on, every class sets up its members after the parent's initialization,
and constructors are called when it is time. From that it follows of the evaluator by induction on
the number of steps (`follows_evaluator`).
-/

namespace Enclave

/-! ### Objects that wait -/

/-- One of some classes sets up its members in one object. -/
def Eval.Among (chain : List ClassRef) (o : ObjectId) (k : ClassRef) (o' : ObjectId) : Prop :=
  k ∈ chain ∧ o' = o

namespace Machine

variable {S : ClassRef → ObjectId → Prop} {m m' : Machine} {chain ancestors : List ClassRef}
  {c p : ClassRef} {o : ObjectId} {args : List Value}

/-- An object waits to be initialized as one of the first class of a chain: its construction has
begun, and no class of the chain has set up anything in it. -/
structure Awaits (m : Machine) (chain : List ClassRef) (c : ClassRef) (o : ObjectId)
    (args : List Value) : Prop where
  inOrder : m.IsInOrder
  made : c.index < m.world.classes.size
  chain_eq : m.world.classChain c = chain
  object : o.index < m.world.objects.size
  passes : ∀ v ∈ args, m.world.Passes v
  begun : m.world.HasBegun m.journal c o
  untouched : ∀ k ∈ chain, stepsOf m.journal k o = []

/-- An object goes on waiting while nothing is set up in it by the classes of its chain. -/
theorem Awaits.later (h : m.Awaits chain c o args) (hw : m.Within S m')
    (hsame : ∀ k ∈ chain, stepsOf m'.journal k o = stepsOf m.journal k o) :
    m'.Awaits chain c o args where
  inOrder := hw.inOrder
  made := h.made.trans_le hw.extends_.world.classCount
  chain_eq := (World.classChain_extends h.inOrder.tidy.world hw.extends_.world h.made).trans
    h.chain_eq
  object := h.object.trans_le hw.extends_.world.objects
  passes := fun v hv => (h.passes v hv).extends hw.extends_.world
  begun := h.begun.mono h.inOrder.tidy.world hw.extends_.world hw.extends_.journal.subset
  untouched := fun k hk => (hsame k hk).trans (h.untouched k hk)

/-- A note of something else does not end the waiting. -/
theorem Awaits.note (h : m.Awaits chain c o args) (hw : m.Within S m') {e : Event}
    (hjournal : m'.journal = e :: m.journal) (he : ∀ k, e.isStepOf k o = false) :
    m'.Awaits chain c o args :=
  h.later hw fun k _ => by rw [hjournal, stepsOf_cons_other (he k)]

/-- A class without a parent is the whole chain. -/
theorem Awaits.base (h : m.Awaits chain c o args) (hparent : (m.world.classAt c).parent = none) :
    chain = [c] :=
  h.chain_eq.symm.trans (World.classChain_of_none hparent)

/-- A class with a parent comes before the chain of the parent. -/
theorem Awaits.heir (h : m.Awaits chain c o args)
    (hparent : (m.world.classAt c).parent = some p) :
    chain = c :: m.world.classChain p :=
  h.chain_eq.symm.trans (h.inOrder.tidy.world.classChain_of_some hparent)

/-- An object that waits for a class waits for its parent as well. -/
theorem Awaits.parent (h : m.Awaits (c :: ancestors) c o args)
    (hparent : (m.world.classAt c).parent = some p) : m.Awaits ancestors p o args where
  inOrder := h.inOrder
  made := (h.inOrder.tidy.world.parent_lt c p hparent).trans h.made
  chain_eq := (List.cons.inj (h.heir hparent)).2.symm
  object := h.object
  passes := h.passes
  begun := by
    refine h.begun.of_mem h.inOrder.tidy.world ?_
    -- the parent is in the chain of the class that has begun
    rw [h.inOrder.tidy.world.classChain_of_some hparent]
    exact List.mem_cons_of_mem c (World.mem_classChain_self p)
  untouched := fun k hk => h.untouched k (List.mem_cons_of_mem c hk)

/-- A class is younger than its ancestors, and so none of them. -/
theorem Awaits.notMem_ancestors (h : m.Awaits (c :: ancestors) c o args)
    (hparent : (m.world.classAt c).parent = some p) : c ∉ ancestors := fun hmem => by
  rw [← (h.parent hparent).chain_eq] at hmem
  have hle := h.inOrder.tidy.world.le_of_mem_classChain hmem
  exact absurd (h.inOrder.tidy.world.parent_lt c p hparent) (Nat.not_lt_of_le hle)

end Machine

end Enclave

namespace Enclave.Eval

variable {m : Machine} {self : Evaluator} {S : ClassRef → ObjectId → Prop}

/-! ### Initializing -/

/-- A derived constructor starts work. -/
theorem does_newConstruction (hm : m.IsInOrder) {c : ClassRef} {o : ObjectId}
    (hc : c.index < m.world.classes.size) (ho : o.index < m.world.objects.size)
    (hbegun : m.world.HasBegun m.journal c o) :
    Does S (newConstruction c o) m fun id m' => id.index < m'.constructions.size ∧
      m'.constructionAt id = ⟨c, o, false⟩ ∧ m'.journal = m.journal ∧ m'.world = m.world := by
  refine ⟨hm.push hc ho hbegun, ?_, ?_, rfl, rfl⟩
  · change m.constructions.size < (m.constructions.push _).size
    rw [Array.size_push]
    exact Nat.lt_succ_self _
  · rw [Machine.constructionAt_push]
    exact if_pos rfl

section Initialize

variable (hself : self.Follows) {o : ObjectId} {args : List Value}
  {chain ancestors : List ClassRef} {c p : ClassRef}

include hself

/-- The constructor of a class is called on an object that is being initialized. -/
theorem does_constructor (hm : m.IsInOrder) (held : List Node) {c : ClassRef} {f : FunctionRef}
    (hf : (m.world.classAt c).constructor = some f) (hc : c.index < m.world.classes.size)
    (hargs : ∀ v ∈ args, m.world.Passes v) (hbegun : m.world.HasBegun m.journal c o)
    (hbase : (m.world.classAt c).parent = none → .installed c o ∈ m.journal)
    {construction : Option ConstructionId} (hfresh : m.IsFresh construction)
    (hS : ∀ m' k o', o'.index < m.world.objects.size → m.Opens construction m' k o' → S k o') :
    Does S (self.invoke held f (.object o) args construction) m fun _ m' =>
      World.EndsCall m'.journal f (.object o) := by
  have htimely : m.world.IsTimely m.journal (.invoked f (.object o)) := by
    refine ⟨(hm.tidy.world.classAt hc).constructor f hf, ?_⟩
    intro k g hg heq
    -- the class whose constructor it is can be no other
    have hk : c.index = k.index := hm.constructors c k f hf g hg heq.symm
    refine ⟨c, o, hk, rfl, hbegun, fun hparent => hbase ?_⟩
    rw [World.classAt, hk]
    exact hparent
  have hids : ∀ id ∈ construction, id.index < m.constructions.size := fun id hid =>
    (hfresh id hid).1
  refine (does_of_leaves (hself.start held f hm.tidy htimely trivial hargs hids) hm hfresh
    hS).imp ?_
  intro v m' _ hrun
  exact hself.ends held f hm.tidy trivial hargs hids hrun

omit hself in
/-- That the object has been initialized as one of a class is noted last. -/
theorem does_initialized (hm : m.IsInOrder) {c : ClassRef} (hc : c.index < m.world.classes.size)
    (hconstructor : ∀ g ∈ (m.world.classAt c).constructor,
      World.EndsCall m.journal g (.object o)) :
    Does S (record (.initialized c o)) m fun _ m' => .initialized c o ∈ m'.journal := by
  refine (does_note hm (.initialized c o) ⟨hc, hconstructor⟩ fun _ _ => rfl).imp ?_
  intro _ m' _ hjournal
  rw [hjournal]
  exact List.mem_cons_self

/-- A base class sets up its members at once. -/
theorem does_baseMembers (h : m.Awaits chain c o args) (held : List Node)
    (hparent : (m.world.classAt c).parent = none) :
    Does (Among chain o) (installPrivate self held c o) m fun _ m' =>
      .installed c o ∈ m'.journal := by
  have hc : c ∈ chain := h.chain_eq ▸ World.mem_classChain_self c
  refine (does_installPrivate hself h.inOrder held h.made h.object h.begun (fun p hp => ?_)
    (h.untouched c hc)).mono fun k o' _ h => ⟨h.1 ▸ hc, h.2⟩
  rw [hparent] at hp
  cases hp

/-- A base class without a constructor sets up its members, and that is all. -/
theorem does_plainBase (h : m.Awaits chain c o args) (held : List Node)
    (hparent : (m.world.classAt c).parent = none)
    (hconstructor : (m.world.classAt c).constructor = none) :
    Does (Among chain o) (do
      installPrivate self held c o
      record (.initialized c o)) m fun _ m' => .initialized c o ∈ m'.journal := by
  refine (does_baseMembers hself h held hparent).bind fun _ m₁ hw₁ _ => ?_
  refine does_initialized hw₁.inOrder (h.made.trans_le hw₁.extends_.world.classCount) ?_
  rw [hw₁.extends_.world.classAt h.made, hconstructor]
  exact fun _ hg => nomatch hg

/-- The constructor of a base class is called when its members have been set up. -/
theorem does_builtBase (h : m.Awaits chain c o args) (held held' : List Node)
    (hparent : (m.world.classAt c).parent = none) {f : FunctionRef}
    (hconstructor : (m.world.classAt c).constructor = some f) :
    Does (Among chain o) (do
      installPrivate self held c o
      let _ ← self.invoke held' f (.object o) args none
      record (.initialized c o)) m fun _ m' => .initialized c o ∈ m'.journal := by
  refine (does_baseMembers hself h held hparent).bind fun _ m₁ hw₁ hinstalled => ?_
  have hext₁ := hw₁.extends_
  have hat := hext₁.world.classAt h.made
  have hc₁ := h.made.trans_le hext₁.world.classCount
  -- all members are installed before the constructor is run
  refine (does_constructor hself hw₁.inOrder held' (hat ▸ hconstructor) hc₁
    (fun v hv => (h.passes v hv).extends hext₁.world)
    (h.begun.mono h.inOrder.tidy.world hext₁.world hext₁.journal.subset) (fun _ => hinstalled)
    (Machine.isFresh_none m₁) fun _ _ _ _ h => absurd h Machine.not_opens_none).bind ?_
  intro _ m₂ hw₂ hends
  refine does_initialized hw₂.inOrder (hc₁.trans_le hw₂.extends_.world.classCount) ?_
  rw [hw₂.extends_.world.classAt hc₁, hat, hconstructor]
  exact fun g hg => Option.some.inj hg ▸ hends

/-- **The parent first.** When the ancestors have initialized an object, the class sets up its own
members in it. -/
theorem does_parentFirst (h : m.Awaits (c :: ancestors) c o args)
    (hparent : (m.world.classAt c).parent = some p) {held : List Node} (held' : List Node)
    (hsettled : Does (Among ancestors o) (initializeAs self held o args ancestors) m fun _ m' =>
      .initialized p o ∈ m'.journal) {next : Eval Unit} {q : Unit → Machine → Prop}
    (hnext : ∀ m', m.Within (Among (c :: ancestors) o) m' →
      Does (Among (c :: ancestors) o) next m' q) :
    Does (Among (c :: ancestors) o) (do
      initializeAs self held o args ancestors
      installPrivate self held' c o
      next) m q := by
  refine (hsettled.recall.mono fun k o' _ h => ⟨List.mem_cons_of_mem c h.1, h.2⟩).bind ?_
  rintro _ m₁ hw₁ ⟨hinitialized, hwithin⟩
  have hext₁ := hw₁.extends_
  -- the class is none of its ancestors, so it has set up nothing when they are done
  have huntouched : stepsOf m₁.journal c o = [] := by
    rw [hwithin.same c o h.object fun hmem => h.notMem_ancestors hparent hmem.1]
    exact h.untouched c List.mem_cons_self
  refine ((does_installPrivate hself hw₁.inOrder held' (h.made.trans_le hext₁.world.classCount)
    (h.object.trans_le hext₁.world.objects)
    (h.begun.mono h.inOrder.tidy.world hext₁.world hext₁.journal.subset) (fun q hq => ?_)
    huntouched).mono fun k o' _ h => ⟨h.1 ▸ List.mem_cons_self, h.2⟩).bind
      fun _ m₂ hw₂ _ => hnext m₂ (hw₁.trans hw₂ fun _ _ _ h => h)
  rw [hext₁.world.classAt h.made, hparent] at hq
  exact Option.some.inj hq ▸ hinitialized

/-- A derived class without a constructor has the object initialized as one of the parent, and sets
up its members. -/
theorem does_plainHeir (h : m.Awaits (c :: ancestors) c o args) (held held' : List Node)
    (hparent : (m.world.classAt c).parent = some p)
    (hconstructor : (m.world.classAt c).constructor = none)
    (hsettled : Does (Among ancestors o) (initializeAs self held o args ancestors) m fun _ m' =>
      .initialized p o ∈ m'.journal) :
    Does (Among (c :: ancestors) o) (do
      initializeAs self held o args ancestors
      installPrivate self held' c o
      record (.initialized c o)) m fun _ m' => .initialized c o ∈ m'.journal := by
  refine does_parentFirst hself h hparent held' hsettled fun m₁ hw₁ => ?_
  refine does_initialized hw₁.inOrder (h.made.trans_le hw₁.extends_.world.classCount) ?_
  rw [hw₁.extends_.world.classAt h.made, hconstructor]
  exact fun _ hg => nomatch hg

/-- The constructor of a derived class is called first of all. It may have the classes of the chain
set up their members, and has to. -/
theorem does_builtHeir (h : m.Awaits chain c o args) (held : List Node)
    (hparent : (m.world.classAt c).parent = some p) {f : FunctionRef}
    (hconstructor : (m.world.classAt c).constructor = some f) :
    Does (Among chain o) (do
      let construction ← newConstruction c o
      let _ ← self.invoke held f (.object o) args (some construction)
      if !(← constructionAt construction).superCalled then
        raiseType (.superMissing c.name)
      record (.initialized c o)) m fun _ m' => .initialized c o ∈ m'.journal := by
  refine (does_newConstruction h.inOrder h.made h.object h.begun).bind ?_
  rintro id m₁ hw₁ ⟨hid, hat, hjournal₁, hworld₁⟩
  have hc₁ : c.index < m₁.world.classes.size := hworld₁ ▸ h.made
  have hchain₁ : m₁.world.classChain c = chain := hworld₁ ▸ h.chain_eq
  -- the constructor has not called its parent's, and nothing has been set up
  have hfresh : m₁.IsFresh (some id) := by
    intro id' hid'
    cases hid'
    refine ⟨hid, fun _ k hk => ?_⟩
    rw [hat, hchain₁] at hk
    rw [hat, hjournal₁]
    exact h.untouched k hk
  refine (does_constructor hself hw₁.inOrder held (hworld₁ ▸ hconstructor) hc₁
    (hworld₁ ▸ h.passes) (hworld₁ ▸ hjournal₁ ▸ h.begun) (fun hbase => ?_) hfresh ?_).bind ?_
  · rw [hworld₁, hparent] at hbase
    cases hbase
  · -- what the construction opens is the chain of the class, in the object
    rintro m' k o' - ⟨id', hid', hinst, hk, -, -⟩
    cases hid'
    rw [hat, hchain₁] at hk
    rw [hat] at hinst
    exact ⟨hk, hinst.symm⟩
  · intro _ m₂ hw₂ hends
    have hlook : Does (Among chain o) (constructionAt id) m₂ fun k m' => m' = m₂ :=
      ⟨.refl hw₂.inOrder, rfl⟩
    refine hlook.bind ?_
    rintro k _ - rfl
    cases k.superCalled with
    | false =>
      -- a constructor that has not handed over fails, and nothing comes after
      exact (does_raiseType (q := fun _ _ => False) hw₂.inOrder _).bind fun _ _ _ h => h.elim
    | true =>
      refine does_initialized hw₂.inOrder (hc₁.trans_le hw₂.extends_.world.classCount) ?_
      rw [hw₂.extends_.world.classAt hc₁, hworld₁, hconstructor]
      exact fun g hg => Option.some.inj hg ▸ hends

/-- **Initializing** as one of the first class of a chain: only the classes of the chain set up
members, and only in the object. -/
theorem does_initializeAs (held : List Node) (chain : List ClassRef) {c : ClassRef}
    (h : m.Awaits chain c o args) :
    Does (Among chain o) (initializeAs self held o args chain) m fun _ m' =>
      .initialized c o ∈ m'.journal := by
  induction chain generalizing m c with
  | nil => exact absurd (World.mem_classChain_self c) (h.chain_eq ▸ List.not_mem_nil)
  | cons c' ancestors ih =>
    rw [initializeAs_cons]
    -- the note is the first thing that is added, and it may stand where it stands
    refine (does_note h.inOrder (.initializing c' o) trivial fun _ _ => rfl).bind
      fun _ m₁ hw₁ hjournal₁ => ?_
    replace h := h.note hw₁ hjournal₁ fun _ => rfl
    refine Does.world_bind ?_
    -- the class is the first of the chain, with or without a parent
    cases hparent : (m₁.world.classAt c).parent with
    | none =>
      obtain ⟨rfl, rfl⟩ := List.cons.inj (h.base hparent)
      cases hconstructor : (m₁.world.classAt c').constructor with
      | none =>
        dsimp only
        rw [hparent, hconstructor]
        exact does_plainBase hself h _ hparent hconstructor
      | some f =>
        dsimp only
        rw [hparent, hconstructor]
        exact does_builtBase hself h _ _ hparent hconstructor
    | some p =>
      -- with a parent, the rest of the chain is that of the parent
      obtain ⟨rfl, -⟩ := List.cons.inj (h.heir hparent)
      cases hconstructor : (m₁.world.classAt c').constructor with
      | none =>
        dsimp only
        rw [hparent, hconstructor]
        exact does_plainHeir hself h _ _ hparent hconstructor (ih (h.parent hparent))
      | some f =>
        dsimp only
        rw [hparent, hconstructor]
        exact does_builtHeir hself h _ hparent hconstructor

end Initialize

/-! ### `super(...)` and `new` -/

section Whole

variable {p : Option ConstructionId} {context : Context}

/-- Single operations set up nothing. -/
theorem Atom.follows {α : Type} {R : Terms} {x : Eval α} {q : α → Machine → Prop}
    (h : Atom R m x q) (hm : m.IsTidy) : Leaves (Machine.Follows p) x m := by
  intro hm' _
  obtain ⟨htidy, hext⟩ := (h.keeps hm).final
  exact hm'.beside htidy hext h.beside

/-- Handing over: the classes of the chain set up members in the object. -/
theorem does_handOver (hself : self.Follows) (context : Context) {chain : List ClassRef}
    {c : ClassRef} {o : ObjectId} {args : List Value} (h : m.Awaits chain c o args) :
    Does (Among chain o) (handOver self context c o args) m fun _ _ => True := by
  unfold handOver
  refine Does.world_bind ?_
  dsimp only
  rw [h.chain_eq]
  cases hparent : (m.world.classAt c).parent with
  | none =>
    -- there is no chain left to initialize the object
    rw [h.base hparent]
    exact .refl h.inOrder
  | some p =>
    obtain rfl := h.heir hparent
    refine does_parentFirst hself h hparent context.nodes
      (does_initializeAs hself context.nodes _ (h.parent hparent)) fun m₁ hw₁ => ?_
    exact (does_note hw₁.inOrder (.superReturned c o) trivial fun _ _ => rfl).imp
      fun _ _ _ _ => trivial

/-- **`super(...)`** opens the object that is constructed, if it has not been called before. -/
theorem follows_superCall (hself : self.Follows) (hc : (Terms.working p).Suits m context.frame)
    {args : List Value} (hargs : ∀ v ∈ args, m.world.Passes v) :
    Leaves (Machine.Follows p) (superCall self context args) m := by
  intro hm hfresh
  obtain ⟨-, hrun⟩ | ⟨id, hid, ⟨-, hrun⟩ | ⟨huncalled, hrun⟩⟩ :=
    superCall_cases self context args m
  · -- outside a construction, or called again, it fails before anything is changed
    rw [final_of_error hrun]
    exact .refl hm
  · rw [final_of_error hrun]
    exact .refl hm
  · -- otherwise the construction is one of those in progress, and has noted nothing yet
    have hp : id ∈ p := hc.works id hid
    obtain ⟨hid, hnone⟩ := hfresh id hp
    obtain ⟨hmade, ho⟩ := hm.tidy.constructions id hid
    -- marking the construction adds no note, and so the order is as before
    have hw₁ : m.Within (fun _ _ => False) (m.callSuper id) := hm.callSuper id
    have hawaits : m.Awaits _ (m.constructionAt id).classRef (m.constructionAt id).inst args :=
      ⟨hm, hmade, rfl, ho, hargs, hm.begun id hid, hnone huncalled⟩
    have hwithin := (does_handOver hself context
      (hawaits.later hw₁ fun k _ => hw₁.same k _ ho not_false)).final
    rw [final, hrun, ← final]
    -- by now the parent's constructor has been called
    have hid₁ : id.index < (m.callSuper id).constructions.size := by
      change id.index < (m.constructions.modify id.index _).size
      rwa [Array.size_modify]
    have hcalled : ((m.callSuper id).constructionAt id).superCalled = true := by
      rw [Machine.constructionAt_callSuper, if_pos ⟨rfl, hid⟩]
    -- what is noted for others is noted for the object of this construction
    refine (hm.callSuper id).trans hwithin fun k o _ h => ?_
    exact ⟨id, hp, h.2.symm, h.1, huncalled, hwithin.superCalled id hid₁ hcalled⟩

/-- Registering an object with the tokens of some classes. -/
theorem does_registerAll (hm : m.IsInOrder) {o : ObjectId} (ho : o.index < m.world.objects.size)
    (chain : List ClassRef) (hchain : ∀ d ∈ chain, d.index < m.world.classes.size) :
    Does S (registerAll o chain) m fun _ m' =>
      ∀ d ∈ chain, .registered (m.world.classAt d).token o ∈ m'.journal := by
  -- on the chain: each class registers the object, then records that it has
  induction chain generalizing m with
  | nil => exact ⟨.refl hm, fun _ hd => nomatch hd⟩
  | cons c rest ih =>
    have hc := hchain c List.mem_cons_self
    have htoken : (m.world.classAt c).token.index < m.world.tokens.size := by
      rw [(hm.tidy.world.classAt hc).token, ← hm.tidy.settled]
      exact hc
    have hregister : Does S (onWorld fun w => w.registerInstance (m.world.classAt c).token o) m
        fun _ _ => True := by
      obtain ⟨htidy, hext⟩ := hm.tidy.alter (hm.tidy.world.registerInstance htoken ho)
        (World.classes_registerInstance _ _ _) (World.tokenCount_registerInstance _ _ _)
      refine ⟨hm.beside htidy hext ⟨rfl, rfl, rfl, ?_, [], rfl, fun _ h => nomatch h⟩, trivial⟩
      exact World.classes_registerInstance _ _ _
    rw [registerAll_cons]
    refine Does.world_bind ?_
    refine hregister.bind fun _ m₁ hw₁ _ => ?_
    refine (does_note hw₁.inOrder (.registered (m.world.classAt c).token o) trivial
      fun _ _ => rfl).bind ?_
    intro _ m₂ hw₂ hjournal₂
    have hext := (hw₁.extends_.trans hw₂.extends_).world
    refine (ih hw₂.inOrder (ho.trans_le hext.objects) fun d hd =>
      (hchain d (List.mem_cons_of_mem c hd)).trans_le hext.classCount).imp ?_
    intro _ m₃ hw₃ hrest d hd
    -- the first class is in the journal by now, and has kept its token
    rcases List.mem_cons.mp hd with rfl | hd
    · refine hw₃.extends_.journal.subset ?_
      rw [hjournal₂]
      exact List.mem_cons_self
    · have hmade := hchain d (List.mem_cons_of_mem c hd)
      rw [← hext.classAt hmade]
      exact hrest d hd

/-- An object that is allocated is new, construction has begun on it, and nothing has been set up in
it. -/
theorem does_allocate (hm : m.IsInOrder) {c : ClassRef} (hc : c.index < m.world.classes.size) :
    Does (fun _ _ => False) (allocate c) m fun o m' => o.index = m.world.objects.size ∧
      o.index < m'.world.objects.size ∧ m'.world.HasBegun m'.journal c o ∧
        ∀ k, stepsOf m'.journal k o = [] := by
  -- a new object is numbered next, and nothing is recorded of it
  have hnew : Does (fun _ _ => False)
      (onWorld fun w => w.newObject (some (m.world.classAt c).prototype)) m
      fun o m' => o.index = m.world.objects.size ∧ o.index < m'.world.objects.size ∧
        m'.journal = m.journal := by
    obtain ⟨htidy, hext⟩ := hm.tidy.alter
      (hm.tidy.world.newObject (some (m.world.classAt c).prototype)) rfl rfl
    refine ⟨hm.beside htidy hext ⟨rfl, rfl, rfl, rfl, [], rfl, fun _ h => nomatch h⟩, rfl, ?_, rfl⟩
    change m.world.objects.size < (m.world.objects.push _).size
    rw [Array.size_push]
    exact Nat.lt_succ_self _
  rw [allocate_stepwise]
  refine Does.world_bind ?_
  refine hnew.bind ?_
  rintro o m₁ hw₁ ⟨hindex, ho₁, hjournal₁⟩
  refine (does_note hw₁.inOrder (.constructing c o) trivial fun _ _ => rfl).bind ?_
  intro _ m₂ hw₂ hjournal₂
  have hext₂ := (hw₁.extends_.trans hw₂.extends_).world
  have hc₂ := hc.trans_le hext₂.classCount
  have ho₂ := ho₁.trans_le hw₂.extends_.world.objects
  refine Does.world_bind ?_
  refine (does_registerAll hw₂.inOrder ho₂ _ fun d hd =>
    hw₂.inOrder.tidy.world.lt_of_mem_classChain hc₂ hd).recall.bind ?_
  rintro _ m₃ - ⟨hregistered, hw₃⟩
  have hext₃ := hw₃.extends_
  -- the classes that registered it are still those that its class descends from
  have hchain := World.classChain_extends hw₂.inOrder.tidy.world hext₃.world hc₂
  refine ⟨.refl hw₃.inOrder, hindex, ho₂.trans_le hext₃.world.objects, ?_, fun k => ?_⟩
  · refine ⟨c, hc₂.trans_le hext₃.world.classCount, hext₃.journal.subset ?_,
      World.mem_classChain_self c, fun d hd => ?_⟩
    · rw [hjournal₂]
      exact List.mem_cons_self
    · rw [hchain] at hd
      rw [hext₃.world.classAt (hw₂.inOrder.tidy.world.lt_of_mem_classChain hc₂ hd)]
      exact hregistered d hd
  · -- no step of an installation was taken on it since it did not exist
    rw [hw₃.same k o ho₂ not_false, hjournal₂, stepsOf_cons_other rfl, hjournal₁]
    exact hm.steps_of_size_le (Nat.le_of_eq hindex.symm) k

/-- **`new`** sets up nothing in objects that were there before. -/
theorem follows_construct (hself : self.Follows) (held : List Node) {c : ClassRef}
    {args : List Value} (hc : m.world.Passes (.class c)) (hargs : ∀ v ∈ args, m.world.Passes v) :
    Leaves (Machine.Follows p) (construct self held c args) m := by
  intro hm _
  have hdoes : Does (fun _ o => o.index = m.world.objects.size) (construct self held c args) m
      fun _ _ => True := by
    rw [construct_stepwise]
    refine ((does_allocate hm hc).mono fun _ _ _ h => h.elim).bind ?_
    rintro o m₁ hw₁ ⟨hindex, ho, hbegun, hnone⟩
    have hext₁ := hw₁.extends_.world
    refine Does.world_bind ?_
    -- nothing of the new object is installed yet, and its classes have registered it
    have hawaits : m₁.Awaits _ c o args := ⟨hw₁.inOrder, Nat.lt_of_lt_of_le hc hext₁.classCount,
      rfl, ho, fun v hv => (hargs v hv).extends hext₁, hbegun, fun k _ => hnone k⟩
    refine ((does_initializeAs hself _ _ hawaits).mono fun k o' _ h => h.2 ▸ hindex).bind ?_
    intro _ m₂ hw₂ _
    refine (does_note hw₂.inOrder (.constructed c o) trivial fun _ _ => rfl).bind ?_
    exact fun _ m₃ hw₃ _ => ⟨.refl hw₃.inOrder, trivial⟩
  -- an object that was there before is none that this construction makes
  exact hdoes.final.mono fun k o ho hnew => absurd hnew (Nat.ne_of_lt ho)

/-- Class definitions set up nothing. -/
theorem ClassMade.follows {c : ClassDef} {parts : ClassParts} {m' : Machine}
    (h : ClassMade context c m parts m') : Machine.Follows p m m' := by
  intro hm _
  refine hm.alter h.tidy h.extends_ ?_ h.constructions [_] h.journal (fun e he k o => ?_) ?_
  · intro c d g hg g' hg' heq
    -- the constructor of the new class is younger than those of the classes that were there
    have hnew : ∀ c d : ClassRef, ∀ g ∈ (m'.world.classAt c).constructor,
        ∀ g' ∈ (m'.world.classAt d).constructor, c.index < m.world.classes.size →
          m.world.classes.size ≤ d.index → g.index ≠ g'.index := by
      intro c d g hg g' hg' hc hd
      rw [h.extends_.world.classAt hc] at hg
      have hold := (hm.tidy.world.classAt hc).constructor g hg
      exact Nat.ne_of_lt (hold.trans_le (h.extends_.world.constructors d.index hd g' hg'))
    -- a class that has a constructor is one that was made
    have hmade : ∀ c : ClassRef, ∀ g ∈ (m'.world.classAt c).constructor,
        c.index < m.world.classes.size + 1 := by
      intro c g hg
      by_contra hc
      rw [World.classAt, getD_of_size_le (by rw [h.classCount]; omega)] at hg
      cases hg
    -- two functions that are the same are both of old classes, or both of the new one
    have hc := hmade c g hg
    have hd := hmade d g' hg'
    by_cases hc' : c.index < m.world.classes.size <;> by_cases hd' : d.index < m.world.classes.size
    · rw [h.extends_.world.classAt hc'] at hg
      rw [h.extends_.world.classAt hd'] at hg'
      exact hm.constructors c d g hg g' hg' heq
    · exact absurd heq (hnew c d g hg g' hg' hc' (Nat.le_of_not_lt hd'))
    · exact absurd heq.symm (hnew d c g' hg' g hg hd' (Nat.le_of_not_lt hc'))
    · omega
  · exact List.mem_singleton.mp he ▸ rfl
  · rw [h.journal]
    exact ⟨trivial, hm.timely_extends h.extends_.world⟩

/-- Constructions and class definitions keep to the protocol. -/
theorem Whole.follows {α : Type} {x : Evaluator → Eval α} {q : α → Machine → Prop}
    (h : Whole (.working p) α x m q) (hself : self.Follows) :
    Leaves (Machine.Follows p) (x self) m := by
  cases h with
  | construct _ _ _ hclass hargs => exact follows_construct hself _ hclass hargs
  | superCall _ hc hargs => exact follows_superCall hself hc hargs
  | @makeClass _ context c parent hm _ hparent =>
    obtain ⟨parts, m', hrun, hmade⟩ := makeClass_made hm context c hparent
    rw [Leaves, final_of_ok hrun]
    exact hmade.follows

end Whole

/-! ### Whatever is evaluated -/

variable {p : Option ConstructionId}

/-- Everything may be evaluated for a construction. -/
theorem supports_working (p : Option ConstructionId) :
    Supports (.working p) (Whole (.working p)) :=
  supports_whole (fun _ _ => ⟨fun _ _ => trivial, fun _ => trivial, fun _ => trivial⟩)
    fun _ _ => trivial

theorem Built.follows {α : Type} {x : Evaluator → Eval α} {q : α → Machine → Prop}
    (h : Built (.working p) (Whole (.working p)) x m q) (hself : self.Follows) (hm : m.IsTidy) :
    Leaves (Machine.Follows p) (x self) m :=
  h.leaves (.refl p) .trans (fun hx hm => hx.follows hm) hself.keeps (hself.leaves p)
    (fun hx hm => hx.keeps hself.keeps hm) (fun hx _ => hx.follows hself) hm

/-- **Calls** keep to the protocol, if it is time for them. -/
theorem follows_invoke (hself : self.Follows) (hm : m.IsTidy) (held : List Node) (f : FunctionRef)
    {this : Value} {args : List Value} (htimely : m.world.IsTimely m.journal (.invoked f this))
    (hthis : m.world.Passes this) (hargs : ∀ v ∈ args, m.world.Passes v)
    (hp : ∀ id ∈ p, id.index < m.constructions.size) :
    Leaves (Machine.Follows p) (invoke self held f this args p) m := by
  -- refused, or entered, run and left
  obtain ⟨-, hrun⟩ | ⟨-, hrun⟩ := invoke_cases self held f this args p m
  · intro hm' _
    rw [final_of_error hrun]
    exact hm'.note trivial fun _ _ => rfl
  · obtain ⟨htidy, hext⟩ := tidy_enter hm f this
    have henter : Machine.Follows p m (enter f this m) := by
      intro hm' _
      refine hm'.alter htidy hext hm'.constructors rfl [_] rfl (fun e he k o => ?_) ?_
      · exact List.mem_singleton.mp he ▸ rfl
      · exact ⟨htimely, hm'.timely⟩
    have hbody := (built_called (supports_working p) hm held f hthis hargs (fun id hid =>
      ⟨hp id hid, hid⟩) (fun _ _ => ⟨fun _ _ => trivial, fun _ _ => trivial⟩)
      (Nat.zero_le _)).follows hself htidy
    -- leaving it is recorded, and is no step of an installation
    have hleave : ∀ m', Machine.Follows p m' (leave f m') := by
      intro m' hm' _
      obtain ⟨htidy', hext'⟩ := tidy_leave hm'.tidy f
      refine hm'.alter htidy' hext' hm'.constructors rfl [_] rfl (fun e he k o => ?_) ?_
      · exact List.mem_singleton.mp he ▸ rfl
      · exact ⟨trivial, hm'.timely⟩
    rw [Leaves, final, hrun, ← final, final_thenAlways]
    exact (henter.trans hbody).trans (hleave _)

/-- A call that gives a value ends last. -/
theorem endsCall_invoke (steps : ℕ) (hm : m.IsTidy) (held : List Node) (f : FunctionRef)
    {this v : Value} {args : List Value} {m' : Machine} (hthis : m.world.Passes this)
    (hargs : ∀ v ∈ args, m.world.Passes v) (hp : ∀ id ∈ p, id.index < m.constructions.size)
    (hok : invoke (evaluator steps) held f this args p m = .ok v m') :
    World.EndsCall m'.journal f this := by
  obtain ⟨-, hrun⟩ | ⟨-, hrun⟩ := invoke_cases (evaluator steps) held f this args p m
  · rw [hrun] at hok
    cases hok
  · have htidy := (tidy_enter hm f this).1
    have hbuilt := built_called_anything hm held f hthis hargs hp
    have hkeeps := (hbuilt.keeps_anything (keeps_evaluator steps) htidy).final
    have hbalances := hbuilt.leaves_anything isKept_balances (keeps_evaluator steps)
      (leaves_evaluator isKept_balances steps) htidy
    -- the journal is that of the body with the return put in front of it
    have hleft := final_of_ok hok
    rw [final, hrun, ← final, final_thenAlways] at hleft
    obtain ⟨body, hbody⟩ := hkeeps.2.journal
    refine ⟨body, m.journal, ?_, ?_⟩
    · rw [← hleft]
      exact congrArg (.returned f :: ·) hbody.symm
    · -- the body opens no call that it does not close
      calc unfinishedCalls (body ++ .invoked f this :: m.journal)
          = unfinishedCalls (enter f this m).journal := by
            rw [← hbalances.unfinished, ← hbody]
            rfl
        _ = f :: unfinishedCalls m.journal := rfl

end Enclave.Eval

namespace Enclave

/-- **The evaluator keeps to the protocol of constructions**, in however many steps. -/
theorem follows_evaluator (steps : ℕ) : (evaluator steps).Follows := by
  induction steps with
  -- with no steps nothing is run, and no call returns
  | zero =>
    exact
      { keeps := keeps_evaluator 0
        leaves := fun p =>
          { eval := fun _ _ _ => .refl p _
            exec := fun _ _ _ => .refl p _
            invoke := fun _ _ _ _ _ => .refl p _ }
        start := fun _ _ _ _ _ _ _ => .refl _ _
        ends := fun _ _ _ _ _ _ hok => nomatch hok }
  | succ steps ih =>
    -- each layer is built of parts that follow the protocol already
    have hcovers := fun p => (Eval.supports_working p).covers
    exact
      { keeps := keeps_evaluator (steps + 1)
        leaves := fun p =>
          { eval := fun hm hc he => (Eval.built_evalExpr (Eval.supports_working p) hm hc
              (hcovers p _ he) fun _ => trivial).follows ih hm
            exec := fun hm hc hs => (Eval.built_execStmt (Eval.supports_working p) hc
              (hcovers p _ hs)).follows ih hm
            invoke := fun held hm hf hthis hargs => Machine.Follows.of_none
              (Eval.follows_invoke ih hm held _ (World.isTimely_invoked hf _ _) hthis hargs
                fun _ hid => nomatch hid) }
        start := fun held f hm htimely hthis hargs hids =>
          Eval.follows_invoke ih hm held f htimely hthis hargs hids
        ends := fun held f hm hthis hargs hids hok =>
          Eval.endsCall_invoke steps hm held f hthis hargs hids hok }

end Enclave
