import Enclave.Proofs.Eval.Protocol
import Enclave.Proofs.Eval.Whole

/-!
# Setting up members

Code that runs for a derived constructor may, by `super(...)`, have members set up in the object
that is constructed, once, by the classes of the chain; nothing else that is evaluated sets up
anything in an object that was there before (`Machine.Follows`). The constructor's place says
whether it has called `super(...)`; before that, no class of its chain has started to set up its
members.

If the evaluator of the parts keeps to that, a class that sets up its members takes the steps of its
installation in order, with whatever the initializers do in between (`Eval.does_installPrivate`).
-/

namespace Enclave

/-- The terms on which code runs for a construction. -/
def Terms.working (p : Option ConstructionId) : Terms :=
  ⟨fun _ => True, fun _ => True, fun id => id ∈ p, True, True, 0, fun _ _ => True⟩

namespace Machine

variable {p : Option ConstructionId} {m m' m'' : Machine}

/-- The constructor that code runs for has called its parent's meanwhile, and the class belongs to
the chain that is initialized in the object. -/
def Opens (p : Option ConstructionId) (m m' : Machine) (k : ClassRef) (o : ObjectId) : Prop :=
  ∃ id ∈ p, (m.constructionAt id).inst = o ∧
    k ∈ m.world.classChain (m.constructionAt id).classRef ∧
    (m.constructionAt id).superCalled = false ∧ (m'.constructionAt id).superCalled = true

/-- Before the constructor has called its parent's, no class of the chain has set up anything. -/
def IsFresh (p : Option ConstructionId) (m : Machine) : Prop :=
  ∀ id ∈ p, id.index < m.constructions.size ∧
    ((m.constructionAt id).superCalled = false →
      ∀ k ∈ m.world.classChain (m.constructionAt id).classRef,
        stepsOf m.journal k (m.constructionAt id).inst = [])

/-- What runs for a construction has members set up for it alone. -/
def Follows (p : Option ConstructionId) (m m' : Machine) : Prop :=
  m.IsInOrder → m.IsFresh p → m.Within (Opens p m m') m'

/-- Outside of constructors nothing has been set up yet. -/
theorem isFresh_none (m : Machine) : m.IsFresh none := fun _ hid => nomatch hid

/-- Outside of constructors nothing is open to be set up. -/
theorem not_opens_none {k : ClassRef} {o : ObjectId} : ¬Opens none m m' k o := fun h => by
  obtain ⟨_, hid, -⟩ := h
  cases hid

/-- The class of a construction has its chain still. -/
theorem chain_of_within {S : ClassRef → ObjectId → Prop} (hm : m.IsInOrder) (h : m.Within S m')
    {id : ConstructionId} (hid : id.index < m.constructions.size) :
    m'.world.classChain (m'.constructionAt id).classRef =
      m.world.classChain (m.constructionAt id).classRef := by
  rw [(h.extends_.constructions id hid).1]
  exact World.classChain_extends hm.tidy.world h.extends_.world (hm.tidy.constructions id hid).1

/-- A fresh constructor stays so while only what it opens is set up. -/
theorem IsFresh.within (hf : m.IsFresh p) (hm : m.IsInOrder) (h : m.Within (Opens p m m') m') :
    m'.IsFresh p := by
  intro id hp
  obtain ⟨hid, hnone⟩ := hf id hp
  refine ⟨hid.trans_le h.extends_.constructionCount, fun huncalled k hk => ?_⟩
  -- what is not called now was not called before, so nothing was set up, then or since
  have hbefore : (m.constructionAt id).superCalled = false := by
    by_contra hcalled
    rw [h.superCalled id hid (by simpa using hcalled)] at huncalled
    cases huncalled
  have hinst := (h.extends_.constructions id hid).2
  rw [chain_of_within hm h hid] at hk
  rw [hinst, h.same k _ (hm.tidy.constructions id hid).2, hnone hbefore k hk]
  rintro ⟨id', hp', -, -, -, hcalled⟩
  obtain rfl := Option.mem_unique hp hp'
  rw [huncalled] at hcalled
  cases hcalled

/-- Nothing done sets up nothing. -/
theorem Follows.refl (p : Option ConstructionId) (m : Machine) : Follows p m m :=
  fun hm _ => .refl hm

/-- Following is transitive. -/
theorem Follows.trans (h : Follows p m m') (h' : Follows p m' m'') : Follows p m m'' := by
  intro hm hf
  have hfirst := h hm hf
  have hsecond := h' hfirst.inOrder (hf.within hm hfirst)
  -- what the first may set up stays open, and what the second may was open before
  refine (hfirst.mono fun k o _ hopens => ?_).trans hsecond fun k o _ hopens => ?_
  · obtain ⟨id, hp, hinst, hk, huncalled, hcalled⟩ := hopens
    have hid := (hf id hp).1.trans_le hfirst.extends_.constructionCount
    exact ⟨id, hp, hinst, hk, huncalled, hsecond.superCalled id hid hcalled⟩
  · obtain ⟨id, hp, hinst, hk, huncalled, hcalled⟩ := hopens
    have hid := (hf id hp).1
    rw [(hfirst.extends_.constructions id hid).2] at hinst
    rw [chain_of_within hm hfirst hid] at hk
    refine ⟨id, hp, hinst, hk, ?_, hcalled⟩
    by_contra hbefore
    rw [hfirst.superCalled id hid (by simpa using hbefore)] at huncalled
    cases huncalled

/-- What sets up nothing may be done for any construction. -/
theorem Follows.of_none (h : Follows none m m') : Follows p m m' := fun hm _ =>
  (h hm (isFresh_none m)).mono fun _ _ _ hopens => absurd hopens not_opens_none

end Machine

/-- An evaluator that keeps to the protocol. -/
structure Evaluator.Follows (parts : Evaluator) : Prop where
  keeps : parts.Keeps
  leaves : ∀ p, parts.Leaves (.working p) (Machine.Follows p)
  /-- Functions are called when it is time. -/
  start : ∀ {m : Machine} {this : Value} {args : List Value} {construction : Option ConstructionId}
    (held : List Node) (f : FunctionRef), m.IsTidy →
    m.world.IsTimely m.journal (.invoked f this) → m.world.Passes this →
    (∀ v ∈ args, m.world.Passes v) → (∀ id ∈ construction, id.index < m.constructions.size) →
    Eval.Leaves (Machine.Follows construction) (parts.invoke held f this args construction) m
  /-- What happens last in a call that gives a value is its end. -/
  ends : ∀ {m m' : Machine} {this v : Value} {args : List Value}
    {construction : Option ConstructionId} (held : List Node) (f : FunctionRef), m.IsTidy →
    m.world.Passes this → (∀ v ∈ args, m.world.Passes v) →
    (∀ id ∈ construction, id.index < m.constructions.size) →
    parts.invoke held f this args construction m = .ok v m' → World.EndsCall m'.journal f this

namespace Eval

variable {α β : Type} {S S' : ClassRef → ObjectId → Prop} {m : Machine} {x : Eval α}
  {f : α → Eval β} {self : Evaluator}

/-! ### Pieces that set up members -/

/-- A piece has members set up in some objects by some classes, and gives what is said. -/
def Does (S : ClassRef → ObjectId → Prop) (x : Eval α) (m : Machine) (q : α → Machine → Prop) :
    Prop :=
  Ends x m (fun a m' => m.Within S m' ∧ q a m') fun _ m' => m.Within S m'

/-- In sequence: the rest starts within what the first piece did. -/
theorem Does.bind {q : α → Machine → Prop} {r : β → Machine → Prop} (hx : Does S x m q)
    (hf : ∀ a m', m.Within S m' → q a m' → Does S (f a) m' r) : Does S (x >>= f) m r := by
  refine Ends.bind (Ends.imp hx (fun _ _ h => h) fun _ _ h => h) ?_
  rintro a m₁ ⟨hwithin, ha⟩
  refine Ends.imp (hf a m₁ hwithin ha) ?_ ?_
  · rintro b m₂ ⟨hwithin', hb⟩
    exact ⟨hwithin.trans hwithin' fun _ _ _ h => h, hb⟩
  · intro stop m₂ hwithin'
    exact hwithin.trans hwithin' fun _ _ _ h => h

/-- What is said of the value may be weakened. -/
theorem Does.imp {q r : α → Machine → Prop} (hx : Does S x m q)
    (h : ∀ a m', m.Within S m' → q a m' → r a m') : Does S x m r :=
  Ends.imp hx (fun a m' ⟨hwithin, ha⟩ => ⟨hwithin, h a m' hwithin ha⟩) fun _ _ h => h

/-- More may be allowed to be set up. -/
theorem Does.mono {q : α → Machine → Prop} (hx : Does S x m q)
    (hS : ∀ k o, o.index < m.world.objects.size → S k o → S' k o) : Does S' x m q :=
  Ends.imp hx (fun _ _ ⟨hwithin, ha⟩ => ⟨hwithin.mono hS, ha⟩) fun _ _ h => h.mono hS

/-- A look at the world. -/
theorem Does.world_bind {f : World → Eval β} {q : β → Machine → Prop}
    (h : Does S (f m.world) m q) : Does S (world >>= f) m q := h

/-- What runs for a construction. -/
theorem does_of_leaves {p : Option ConstructionId} (h : Leaves (Machine.Follows p) x m)
    (hm : m.IsInOrder) (hf : m.IsFresh p)
    (hS : ∀ m' k o, o.index < m.world.objects.size → m.Opens p m' k o → S k o) :
    Does S x m fun a m' => x m = .ok a m' := by
  have hwithin := (h hm hf).mono (hS _)
  unfold Does Ends
  cases hrun : x m with
  | ok a m' =>
    rw [final_of_ok hrun] at hwithin
    exact ⟨hwithin, rfl⟩
  | error stop m' =>
    rwa [final_of_error hrun] at hwithin

/-- Raising an error sets up nothing. -/
theorem does_raiseType {q : α → Machine → Prop} (hm : m.IsInOrder) (fault : TypeFault) :
    Does S (raiseType fault : Eval α) m q :=
  .refl hm

/-- A note that is no step sets up nothing. -/
theorem does_note (hm : m.IsInOrder) (e : Event) (he : m.world.IsTimely m.journal e)
    (hsteps : ∀ k o, e.isStepOf k o = false) :
    Does S (record e) m fun _ m' => m'.journal = e :: m.journal :=
  ⟨hm.note he hsteps, rfl⟩

/-- What else has been found out of the machine that is left. -/
theorem Does.recall {q : α → Machine → Prop} (hx : Does S x m q) :
    Does S x m fun a m' => q a m' ∧ m.Within S m' :=
  hx.imp fun _ _ hwithin ha => ⟨ha, hwithin⟩

/-- Whatever way a piece ends, it was within what it may set up. -/
theorem Does.final {q : α → Machine → Prop} (hx : Does S x m q) : m.Within S (final x m) := by
  unfold Does Ends at hx
  cases hrun : x m with
  | ok a m' =>
    rw [hrun] at hx
    rw [final_of_ok hrun]
    exact hx.1
  | error stop m' =>
    rw [hrun] at hx
    rwa [final_of_error hrun]

/-- What is evaluated for no construction sets up nothing in objects that are there. -/
theorem does_quietly {q : α → Machine → Prop} (h : Leaves (Machine.Follows none) x m)
    (hkeeps : Keeps x m q) (hm : m.IsInOrder) :
    Does S x m fun a m' => q a m' ∧ ∀ k o, o.index < m.world.objects.size →
      stepsOf m'.journal k o = stepsOf m.journal k o := by
  have hquiet := does_of_leaves (S := fun _ _ => False) h hm (Machine.isFresh_none m)
    fun _ _ _ _ hopens => Machine.not_opens_none hopens
  refine (hquiet.recall.imp ?_).mono fun _ _ _ hfalse => hfalse.elim
  rintro a m' - ⟨hrun, hwithin⟩
  obtain ⟨-, -, ha⟩ := Ends.of_ok hkeeps hrun
  exact ⟨ha, fun k o ho => hwithin.same k o ho id⟩

/-! ### Setting up members -/

section Install

variable {k : ClassRef} {o : ObjectId}

/-- One class sets up its members in one object. -/
def Only (k : ClassRef) (o : ObjectId) (k' : ClassRef) (o' : ObjectId) : Prop := k' = k ∧ o' = o

/-- What a class does to set up its members does not change. -/
theorem installation_within (h : m.Within S m') (hk : k.index < m.world.classes.size) :
    m'.world.installation k o = m.world.installation k o := by
  rw [World.installation, h.extends_.world.classAt hk, World.installation]

/-- Steps are told by their class and their object. -/
theorem decide_step {k k' : ClassRef} {o o' : ObjectId} :
    decide (k = k' ∧ o = o') = true ↔ k' = k ∧ o' = o := by
  rw [decide_eq_true_iff, @eq_comm _ k, @eq_comm _ o]

/-- The next step is noted. -/
theorem does_step (hm : m.IsInOrder) (hk : k.index < m.world.classes.size)
    (ho : o.index < m.world.objects.size) {e : Event} (he : m.world.IsTimely m.journal e)
    (hstep : ∀ k' o', e.isStepOf k' o' = true ↔ k' = k ∧ o' = o) {rest : List Event}
    (hnext : stepsOf m.journal k o ++ e :: rest = m.world.installation k o) :
    Does (Only k o) (record e) m fun _ m' => m'.journal = e :: m.journal ∧
      stepsOf m'.journal k o ++ rest = m'.world.installation k o := by
  have hall : stepsOf m.journal k o ++ [e] ++ rest = m.world.installation k o := by
    rw [← hnext, List.append_assoc]
    rfl
  obtain ⟨hwithin, hadded⟩ := hm.step hk ho he hstep ⟨rest, hall⟩
  refine ⟨hwithin, rfl, ?_⟩
  change stepsOf (e :: m.journal) k o ++ rest = m.world.installation k o
  rw [hadded, hall]

/-- A slot is set. -/
theorem does_setSlot (hm : m.IsInOrder) (table : TableId) (key : PropertyKey) {v : Value}
    (hv : m.world.Passes v) :
    Does S (changeWorld fun w => w.setSlot table key v) m fun _ m' => m'.journal = m.journal := by
  obtain ⟨htidy, hext⟩ := hm.tidy.alter (hm.tidy.world.setSlot table key hv) rfl rfl
  exact ⟨hm.beside htidy hext ⟨rfl, rfl, rfl, rfl, [], rfl, fun _ h => nomatch h⟩, rfl⟩

/-- Storing methods takes the steps of the methods. -/
theorem does_storeMethods (hm : m.IsInOrder) (hk : k.index < m.world.classes.size)
    (ho : o.index < m.world.objects.size) (table : TableId) {rest : List Event}
    (methods : List (String × FunctionRef))
    (hmethods : ∀ x ∈ methods, m.world.Passes (.function x.2))
    (hnext : stepsOf m.journal k o ++ (methods.map (fun p => .methodStored k o p.1) ++ rest) =
      m.world.installation k o) :
    Does (Only k o) (storeMethods k o table methods) m fun _ m' =>
      stepsOf m'.journal k o ++ rest = m'.world.installation k o := by
  -- what the journal has of the installation, and what is left of it, is all of it
  induction methods generalizing m with
  | nil => exact ⟨.refl hm, hnext⟩
  | cons x methods ih =>
    obtain ⟨name, f⟩ := x
    have hf := hmethods _ List.mem_cons_self
    rw [storeMethods_cons]
    refine (does_setSlot hm table (.string name) hf).bind ?_
    intro _ m₁ hw₁ hjournal₁
    have hk₁ := hk.trans_le hw₁.extends_.world.classCount
    have ho₁ := ho.trans_le hw₁.extends_.world.objects
    -- storing the method alone takes no step: recording it does
    have hnext₁ : stepsOf m₁.journal k o ++ .methodStored k o name ::
        (methods.map (fun p => .methodStored k o p.1) ++ rest) = m₁.world.installation k o := by
      rw [hjournal₁, installation_within hw₁ hk]
      exact hnext
    have htimely : m₁.world.IsTimely m₁.journal (.methodStored k o name) := trivial
    refine (does_step hw₁.inOrder hk₁ ho₁ htimely (fun _ _ => decide_step) hnext₁).bind ?_
    intro _ m₂ hw₂ hnext₂
    have hext := (hw₁.extends_.trans hw₂.extends_).world
    refine ih hw₂.inOrder (hk.trans_le hext.classCount) (ho.trans_le hext.objects) ?_ hnext₂.2
    intro x hx
    exact (hmethods x (List.mem_cons_of_mem _ hx)).extends hext

variable (hself : self.Follows)

include hself

/-- An initializer sets up nothing in objects that are there. -/
theorem does_initializer (hm : m.IsInOrder) {context : Context} (hc : m.Suits context.frame)
    (hconstruction : context.frame.construction = none) (e : Option Expr) :
    Does S (evalOptional self context e) m fun v m' => m'.world.Passes v ∧
      ∀ k o, o.index < m.world.objects.size →
        stepsOf m'.journal k o = stepsOf m.journal k o := by
  cases e with
  | none => exact ⟨.refl hm, trivial, fun _ _ _ => rfl⟩
  | some e =>
    have hsuits : (Terms.working none).Suits m context.frame :=
      ⟨hc, fun _ _ => trivial, fun _ hid => (nomatch hconstruction.symm.trans hid), Nat.zero_le _⟩
    exact does_quietly ((hself.leaves none).eval hm.tidy hsuits trivial)
      (hself.keeps.eval e hm.tidy hc) hm

/-- Storing fields takes the steps of the fields, whatever the initializers do in between. -/
theorem does_storeFields (hm : m.IsInOrder) {context : Context} (hc : m.Suits context.frame)
    (hconstruction : context.frame.construction = none) (hk : k.index < m.world.classes.size)
    (ho : o.index < m.world.objects.size) (hbegun : m.world.HasBegun m.journal k o)
    (table : TableId) {rest : List Event} (fields : List Field)
    (hnext : stepsOf m.journal k o ++
      (fields.flatMap (fun f => [.fieldStarted k o f.name, .fieldStored k o f.name]) ++ rest) =
        m.world.installation k o) :
    Does (Only k o) (storeFields self context k o table fields) m fun _ m' =>
      stepsOf m'.journal k o ++ rest = m'.world.installation k o := by
  induction fields generalizing m with
  | nil => exact ⟨.refl hm, hnext⟩
  | cons field fields ih =>
    rw [storeFields_cons]
    -- the field is started
    refine (does_step hm hk ho (e := .fieldStarted k o field.name) hbegun
      (fun _ _ => decide_step) hnext).bind ?_
    rintro _ m₁ hw₁ ⟨hjournal₁, hnext₁⟩
    have hc₁ := hc.extends hw₁.extends_
    have ho₁ := ho.trans_le hw₁.extends_.world.objects
    -- its initializer is evaluated, which leaves the steps as they are
    refine (does_initializer hself hw₁.inOrder hc₁ hconstruction field.initializer).bind ?_
    rintro v m₂ hw₂ ⟨hv, hsame⟩
    have hext₂ := hw₁.extends_.trans hw₂.extends_
    -- it is stored
    refine (does_setSlot hw₂.inOrder table (.string field.name) hv).bind ?_
    intro _ m₃ hw₃ hjournal₃
    have hext₃ := hext₂.trans hw₃.extends_
    have hk₃ := hk.trans_le hext₃.world.classCount
    have hnext₃ : stepsOf m₃.journal k o ++ .fieldStored k o field.name ::
        (fields.flatMap (fun f => [.fieldStarted k o f.name, .fieldStored k o f.name]) ++ rest) =
          m₃.world.installation k o := by
      rw [hjournal₃, hsame k o ho₁,
        installation_within hw₃ (hk.trans_le hext₂.world.classCount),
        installation_within hw₂ (hk.trans_le hw₁.extends_.world.classCount)]
      exact hnext₁
    have htimely : m₃.world.IsTimely m₃.journal (.fieldStored k o field.name) := trivial
    refine (does_step hw₃.inOrder hk₃ (ho.trans_le hext₃.world.objects) htimely
      (fun _ _ => decide_step) hnext₃).bind ?_
    rintro _ m₄ hw₄ ⟨-, hnext₄⟩
    have hext₄ := hext₃.trans hw₄.extends_
    exact ih hw₄.inOrder (hc.extends hext₄) (hk.trans_le hext₄.world.classCount)
      (ho.trans_le hext₄.world.objects)
      (hbegun.mono hm.tidy.world hext₄.world hext₄.journal.subset) hnext₄

omit hself in
/-- The object's table is found, or made. -/
theorem does_register (hm : m.IsInOrder) (hk : k.index < m.world.classes.size)
    (ho : o.index < m.world.objects.size) :
    Does (Only k o) (onWorld fun w => w.registerInstance (m.world.classAt k).token o) m
      fun _ m' => m'.journal = m.journal := by
  have htoken : (m.world.classAt k).token.index < m.world.tokens.size := by
    rw [(hm.tidy.world.classAt hk).token, ← hm.tidy.settled]
    exact hk
  obtain ⟨htidy, hext⟩ := hm.tidy.alter (hm.tidy.world.registerInstance htoken ho)
    (World.classes_registerInstance _ _ _) (World.tokenCount_registerInstance _ _ _)
  refine ⟨hm.beside htidy hext ⟨rfl, rfl, rfl, ?_, [], rfl, fun _ h => nomatch h⟩, rfl⟩
  exact World.classes_registerInstance _ _ _

section Members

variable (hm : m.IsInOrder) (held : List Node) (hk : k.index < m.world.classes.size)
  (ho : o.index < m.world.objects.size) (hbegun : m.world.HasBegun m.journal k o)
  (hparent : ∀ p ∈ (m.world.classAt k).parent, .initialized p o ∈ m.journal)
  (hnone : stepsOf m.journal k o = [])

include hm hk ho hbegun hparent hnone

/-- All steps of the installation but the last: it starts, stores the methods, then the fields. -/
theorem does_storePrivate :
    Does (Only k o) (storePrivate self held k o) m fun _ m' =>
      stepsOf m'.journal k o ++ [.installed k o] = m'.world.installation k o := by
  rw [storePrivate_stepwise]
  refine Does.world_bind ?_
  refine (does_register hm hk ho).bind fun table m₁ hw₁ hjournal₁ => ?_
  have hext₁ := hw₁.extends_
  have hk₁ := hk.trans_le hext₁.world.classCount
  have ho₁ := ho.trans_le hext₁.world.objects
  -- the parent has set up its own members by now
  have htimely : m₁.world.IsTimely m₁.journal (.installing k o) := by
    refine ⟨hk₁, hbegun.mono hm.tidy.world hext₁.world hext₁.journal.subset, ?_⟩
    rw [hext₁.world.classAt hk, hjournal₁]
    exact hparent
  have hnext₁ : stepsOf m₁.journal k o ++ .installing k o ::
      ((m.world.classAt k).privateMethods.map (fun p => .methodStored k o p.1) ++
        ((m.world.classAt k).fields.flatMap (fun f =>
          [.fieldStarted k o f.name, .fieldStored k o f.name]) ++ [.installed k o])) =
        m₁.world.installation k o := by
    rw [hjournal₁, hnone, installation_within hw₁ hk, World.installation]
    simp only [List.nil_append, List.cons_append, List.append_assoc]
  refine (does_step hw₁.inOrder hk₁ ho₁ htimely (fun _ _ => decide_step) hnext₁).bind ?_
  rintro _ m₂ hw₂ ⟨-, hnext₂⟩
  have hext₂ := hext₁.trans hw₂.extends_
  -- the methods
  refine (does_storeMethods hw₂.inOrder (hk.trans_le hext₂.world.classCount)
    (ho.trans_le hext₂.world.objects) table _ (fun x hx => ?_) hnext₂).bind ?_
  · exact ((hm.tidy.world.classAt hk).methods x hx).extends hext₂.world
  -- the fields
  intro _ m₃ hw₃ hnext₃
  have hext₃ := hext₂.trans hw₃.extends_
  have hsuits : Terms.anything.Suits m _ := suits_initializer hm.tidy
    (mayInstall_anything hk) (.table table :: held) o
  exact does_storeFields hself hw₃.inOrder (hsuits.toSuits.extends hext₃) rfl
    (hk.trans_le hext₃.world.classCount) (ho.trans_le hext₃.world.objects)
    (hbegun.mono hm.tidy.world hext₃.world hext₃.journal.subset) table _ hnext₃

/-- **Setting up members.** -/
theorem does_installPrivate :
    Does (Only k o) (installPrivate self held k o) m fun _ m' => .installed k o ∈ m'.journal := by
  refine (does_storePrivate hself hm held hk ho hbegun hparent hnone).bind fun _ m₁ hw₁ hnext => ?_
  have htimely : m₁.world.IsTimely m₁.journal (.installed k o) := trivial
  refine (does_step hw₁.inOrder (hk.trans_le hw₁.extends_.world.classCount)
    (ho.trans_le hw₁.extends_.world.objects) htimely (fun _ _ => decide_step) hnext).imp ?_
  rintro _ m₂ - ⟨hjournal, -⟩
  rw [hjournal]
  exact List.mem_cons_self

end Members

end Install

end Eval

end Enclave
