import Enclave.Proofs.Eval.CallDepth

/-!
# The protocol of constructions

What the journal of a run must look like for the constructions in it to have kept to their protocol
(`Machine.IsInOrder`):

* For every class and every object, what the class did to set up its members in the object is the
  beginning of its *installation* (`World.installation`): it starts, stores the private methods,
  then each field in order, each when its initializer has been evaluated, and ends. In particular it
  starts once.
* Events are *timely* (`World.IsTimely`). Members are set up, and constructors called, on objects
  that have been allocated for a class with the class in its chain and registered with the tokens of
  the whole chain (`World.HasBegun`); members are set up when the object has been initialized as one
  of the parent, and the constructor of a base class is called when its members have been. When an
  object has been initialized as one of a class with a constructor, the last thing that happened was
  the end of the call of that constructor.

While something is evaluated, only some classes may set up their members in some objects that were
already there. Which ones is said by `Machine.Within`.
-/

namespace Enclave

/-! ### Installations -/

/-- An event of a class that sets up its members in an object. -/
def Event.isStepOf (k : ClassRef) (o : ObjectId) : Event → Bool
  | .installing c i | .methodStored c i _ | .fieldStarted c i _ | .fieldStored c i _
  | .installed c i => c = k ∧ i = o
  | _ => false

/-- What a class does to set up its members in an object, in order. -/
def World.installation (w : World) (k : ClassRef) (o : ObjectId) : List Event :=
  .installing k o :: (w.classAt k).privateMethods.map (fun p => .methodStored k o p.1) ++
    (w.classAt k).fields.flatMap (fun f => [.fieldStarted k o f.name, .fieldStored k o f.name]) ++
    [.installed k o]

/-- What a class has done to set up its members in an object, the earliest first. -/
def stepsOf (journal : List Event) (k : ClassRef) (o : ObjectId) : List Event :=
  (journal.filter (·.isStepOf k o)).reverse

section Steps

variable {k : ClassRef} {o : ObjectId} {e : Event} {new journal : List Event}

theorem stepsOf_cons (h : e.isStepOf k o = true) :
    stepsOf (e :: journal) k o = stepsOf journal k o ++ [e] := by
  rw [stepsOf, List.filter_cons_of_pos h, List.reverse_cons]
  rfl

theorem stepsOf_cons_other (h : e.isStepOf k o = false) :
    stepsOf (e :: journal) k o = stepsOf journal k o := by
  rw [stepsOf, List.filter_cons_of_neg (by rw [h]; exact Bool.false_ne_true)]
  rfl

theorem stepsOf_append (h : ∀ e ∈ new, e.isStepOf k o = false) :
    stepsOf (new ++ journal) k o = stepsOf journal k o := by
  induction new with
  | nil => rfl
  | cons e new ih =>
    rw [List.cons_append, stepsOf_cons_other (h e List.mem_cons_self)]
    exact ih fun x hx => h x (List.mem_cons_of_mem e hx)

end Steps

/-! ### Timely events -/

namespace World

/-- The object has been allocated for a class that has another in its chain, and registered with the
tokens of the chain. -/
def HasBegun (w : World) (past : List Event) (k : ClassRef) (o : ObjectId) : Prop :=
  ∃ c, c.index < w.classes.size ∧ .constructing c o ∈ past ∧ k ∈ w.classChain c ∧
    ∀ d ∈ w.classChain c, .registered (w.classAt d).token o ∈ past

/-- The last thing that happened is that a call of a function with a receiver ended. -/
def EndsCall (past : List Event) (g : FunctionRef) (this : Value) : Prop :=
  ∃ body before, past = .returned g :: (body ++ .invoked g this :: before) ∧
    unfinishedCalls (body ++ .invoked g this :: before) = g :: unfinishedCalls before

/-- An event happens when it should, as far as the protocol of constructions goes. -/
def IsTimely (w : World) (past : List Event) : Event → Prop
  | .installing k o => k.index < w.classes.size ∧ w.HasBegun past k o ∧
    ∀ p ∈ (w.classAt k).parent, .initialized p o ∈ past
  | .fieldStarted k o _ => w.HasBegun past k o
  | .initialized k o => k.index < w.classes.size ∧
    ∀ g ∈ (w.classAt k).constructor, EndsCall past g (.object o)
  | .invoked f this => f.index < w.functions.size ∧
    ∀ k : ClassRef, ∀ g ∈ (w.classAt k).constructor, g.index = f.index →
      ∃ k' o, k'.index = k.index ∧ this = .object o ∧ w.HasBegun past k' o ∧
        ((w.classAt k).parent = none → .installed k' o ∈ past)
  | _ => True

/-- No two classes have the same constructor. -/
def HasOwnConstructors (w : World) : Prop :=
  ∀ c d : ClassRef, ∀ g ∈ (w.classAt c).constructor, ∀ h ∈ (w.classAt d).constructor,
    g.index = h.index → c.index = d.index

variable {w w' : World} {past past' : List Event} {k : ClassRef} {o : ObjectId}

theorem HasBegun.mono (hw : w.IsTidy) (hext : w.Extends w') (hpast : past ⊆ past')
    (h : w.HasBegun past k o) : w'.HasBegun past' k o := by
  obtain ⟨c, hc, hconstructing, hk, hregistered⟩ := h
  have hchain := classChain_extends hw hext hc
  refine ⟨c, hc.trans_le hext.classCount, hpast hconstructing, hchain ▸ hk, ?_⟩
  intro d hd
  rw [hchain] at hd
  rw [hext.classAt (hw.lt_of_mem_classChain hc hd)]
  exact hpast (hregistered d hd)

/-- With an object, the ancestors of a class have begun too. -/
theorem HasBegun.of_mem (hw : w.IsTidy) {d : ClassRef} (h : w.HasBegun past k o)
    (hd : d ∈ w.classChain k) : w.HasBegun past d o := by
  obtain ⟨c, hc, hconstructing, hk, hregistered⟩ := h
  exact ⟨c, hc, hconstructing, hw.classChain_subset hk hd, hregistered⟩

/-- What is timely stays so when something is added to the world. -/
theorem IsTimely.extends (hw : w.IsTidy) (hext : w.Extends w') {e : Event}
    (h : w.IsTimely past e) : w'.IsTimely past e := by
  cases e with
  -- an event that speaks of a class or a function speaks of an old one, which is as it was
  | installing k o =>
    obtain ⟨hk, hbegun, hparent⟩ := h
    refine ⟨hk.trans_le hext.classCount, hbegun.mono hw hext (List.Subset.refl _), ?_⟩
    rw [hext.classAt hk]
    exact hparent
  | fieldStarted k o name => exact HasBegun.mono hw hext (List.Subset.refl _) h
  | initialized k o =>
    obtain ⟨hk, hconstructor⟩ := h
    refine ⟨hk.trans_le hext.classCount, ?_⟩
    rw [hext.classAt hk]
    exact hconstructor
  -- a call has to be that of no constructor that there is now
  | invoked f this =>
    obtain ⟨hf, hconstructor⟩ := h
    refine ⟨hf.trans_le hext.functions, ?_⟩
    intro k g hg heq
    by_cases hk : k.index < w.classes.size
    · rw [hext.classAt hk] at hg ⊢
      obtain ⟨k', o, hk', hthis, hbegun, hbase⟩ := hconstructor k g hg heq
      exact ⟨k', o, hk', hthis, hbegun.mono hw hext (List.Subset.refl _), hbase⟩
    · -- a constructor that was added is younger than all that have been called
      have hnew := hext.constructors k.index (Nat.le_of_not_lt hk) g hg
      exact absurd heq (Nat.ne_of_gt (hf.trans_le hnew))
  | _ => trivial

/-- A function that is a value is no constructor, so it may be called at any time. -/
theorem isTimely_invoked {f : FunctionRef} (hf : w.Passes (.function f)) (past : List Event)
    (this : Value) : w.IsTimely past (.invoked f this) :=
  ⟨hf.1, fun k g hg heq => absurd heq (hf.2 k g hg)⟩

theorem isTimely_of_isAccess {e : Event} (he : e.isAccess = true) (w : World)
    (past : List Event) : w.IsTimely past e := by
  cases e with
  | resolved | rejected => trivial
  | _ => cases he

end World

/-! ### Machines in order -/

namespace Machine

/-- The constructions of a run have kept to the protocol. -/
structure IsInOrder (m : Machine) : Prop where
  tidy : m.IsTidy
  constructors : m.world.HasOwnConstructors
  begun : ∀ id : ConstructionId, id.index < m.constructions.size →
    m.world.HasBegun m.journal (m.constructionAt id).classRef (m.constructionAt id).inst
  setUp : ∀ k o, stepsOf m.journal k o = [] ∨ k.index < m.world.classes.size ∧
    o.index < m.world.objects.size ∧ stepsOf m.journal k o <+: m.world.installation k o
  timely : EachAfter m.world.IsTimely m.journal

variable {S S' : ClassRef → ObjectId → Prop} {m m' m'' : Machine}

/-- Nothing has been set up in what is not there. -/
theorem IsInOrder.steps_of_size_le (hm : m.IsInOrder) {o : ObjectId}
    (ho : m.world.objects.size ≤ o.index) (k : ClassRef) : stepsOf m.journal k o = [] := by
  obtain hnone | ⟨-, hlt, -⟩ := hm.setUp k o
  · exact hnone
  · exact absurd hlt (Nat.not_lt_of_le ho)

/-- A machine in order is left in order, and of the objects that were there only some have had
members set up, by some classes. -/
structure Within (S : ClassRef → ObjectId → Prop) (m m' : Machine) : Prop where
  inOrder : m'.IsInOrder
  extends_ : m.Extends m'
  superCalled : ∀ id : ConstructionId, id.index < m.constructions.size →
    (m.constructionAt id).superCalled = true → (m'.constructionAt id).superCalled = true
  same : ∀ k o, o.index < m.world.objects.size → ¬S k o →
    stepsOf m'.journal k o = stepsOf m.journal k o

theorem Within.refl (hm : m.IsInOrder) : m.Within S m :=
  ⟨hm, .refl m, fun _ _ h => h, fun _ _ _ _ => rfl⟩

/-- One thing after another: what the second may set up, the both of them may. -/
theorem Within.trans (h : m.Within S m') (h' : m'.Within S' m'')
    (hS : ∀ k o, o.index < m.world.objects.size → S' k o → S k o) : m.Within S m'' where
  inOrder := h'.inOrder
  extends_ := h.extends_.trans h'.extends_
  superCalled id hid hcalled :=
    h'.superCalled id (hid.trans_le h.extends_.constructionCount) (h.superCalled id hid hcalled)
  same k o ho hout := by
    -- What the second part may not touch, the whole may not touch either.
    have hout' : ¬S' k o := fun hin => hout (hS k o ho hin)
    calc stepsOf m''.journal k o = stepsOf m'.journal k o :=
          h'.same k o (ho.trans_le h.extends_.world.objects) hout'
      _ = stepsOf m.journal k o := h.same k o ho hout

theorem Within.mono (h : m.Within S m')
    (hS : ∀ k o, o.index < m.world.objects.size → S k o → S' k o) : m.Within S' m' :=
  ⟨h.inOrder, h.extends_, h.superCalled, fun k o ho hout =>
    h.same k o ho fun hin => hout (hS k o ho hin)⟩

/-! ### What keeps machines in order -/

namespace IsInOrder

variable (hm : m.IsInOrder)

include hm

/-- A change of the world, and notes of what has nothing to do with setting up members. -/
theorem alter (htidy : m'.IsTidy) (hext : m.Extends m')
    (hconstructors : m'.world.HasOwnConstructors)
    (hconstructions : m'.constructions = m.constructions)
    (new : List Event) (hjournal : m'.journal = new ++ m.journal)
    (hsteps : ∀ e ∈ new, ∀ k o, e.isStepOf k o = false)
    (htimely : EachAfter m'.world.IsTimely m'.journal) : m.Within S m' := by
  have hat : ∀ id, m'.constructionAt id = m.constructionAt id := fun id => by
    rw [constructionAt, hconstructions, constructionAt]
  -- nothing new is a step of an installation, so none has gone any further
  have hsame : ∀ k o, stepsOf m'.journal k o = stepsOf m.journal k o := fun k o => by
    rw [hjournal]
    exact stepsOf_append fun e he => hsteps e he k o
  -- constructions, installations and calls of `super` are as they were in `m`
  refine ⟨⟨htidy, hconstructors, ?_, ?_, htimely⟩, hext, ?_, fun k o _ _ => hsame k o⟩
  · intro id hid
    rw [hconstructions] at hid
    rw [hat]
    exact (hm.begun id hid).mono hm.tidy.world hext.world hext.journal.subset
  · intro k o
    rw [hsame]
    obtain hnone | ⟨hk, ho, hsofar⟩ := hm.setUp k o
    · exact Or.inl hnone
    · refine Or.inr ⟨hk.trans_le hext.world.classCount, ho.trans_le hext.world.objects, ?_⟩
      rw [World.installation, hext.world.classAt hk]
      exact hsofar
  · intro id _ hcalled
    rwa [hat]

/-- The events so far are still timely. -/
theorem timely_extends (hext : m.world.Extends m'.world) :
    EachAfter m'.world.IsTimely m.journal :=
  hm.timely.imp fun _ _ _ he => he.extends hm.tidy.world hext

/-- The constructors of the classes that were there are still their own. -/
theorem constructors_of_classes (h : m'.world.classes = m.world.classes) :
    m'.world.HasOwnConstructors := by
  intro c d g hg g' hg'
  have hat : ∀ k, m'.world.classAt k = m.world.classAt k := fun k => by
    rw [World.classAt, h, World.classAt]
  rw [hat] at hg hg'
  exact hm.constructors c d g hg g' hg'

/-- What is beside the run. -/
theorem beside (htidy : m'.IsTidy) (hext : m.Extends m') (h : m.Beside m') : m.Within S m' := by
  obtain ⟨new, hjournal, hnew⟩ := h.journal
  refine hm.alter htidy hext (hm.constructors_of_classes h.classes) h.constructions new hjournal
    ?_ ?_
  · intro e he k o
    have haccess := hnew e he
    -- an access is no step of an installation
    cases e with
    | resolved | rejected => rfl
    | _ => cases haccess
  · rw [hjournal]
    exact (hm.timely_extends hext.world).append fun e he past =>
      World.isTimely_of_isAccess (hnew e he) _ past

/-- A note of something timely that has nothing to do with setting up members. -/
theorem note {e : Event} (he : m.world.IsTimely m.journal e)
    (hsteps : ∀ k o, e.isStepOf k o = false) :
    m.Within S { m with journal := e :: m.journal } := by
  obtain ⟨htidy, hext⟩ := hm.tidy.note e
  refine hm.alter htidy hext hm.constructors rfl [e] rfl ?_ ⟨he, hm.timely⟩
  intro x hx k o
  exact List.mem_singleton.mp hx ▸ hsteps k o

/-- The next step of a class that sets up its members in an object. -/
theorem step {k : ClassRef} {o : ObjectId} {e : Event} (hk : k.index < m.world.classes.size)
    (ho : o.index < m.world.objects.size) (he : m.world.IsTimely m.journal e)
    (hstep : ∀ k' o', e.isStepOf k' o' = true ↔ k' = k ∧ o' = o)
    (hnext : stepsOf m.journal k o ++ [e] <+: m.world.installation k o) :
    m.Within (fun k' o' => k' = k ∧ o' = o) { m with journal := e :: m.journal } ∧
      stepsOf (e :: m.journal) k o = stepsOf m.journal k o ++ [e] := by
  obtain ⟨htidy, hext⟩ := hm.tidy.note e
  have hadded : stepsOf (e :: m.journal) k o = stepsOf m.journal k o ++ [e] :=
    stepsOf_cons ((hstep k o).mpr ⟨rfl, rfl⟩)
  -- the step belongs to one installation, so the others stay where they are
  have hother : ∀ k' o', ¬(k' = k ∧ o' = o) →
      stepsOf (e :: m.journal) k' o' = stepsOf m.journal k' o' := fun k' o' hne =>
    stepsOf_cons_other (Bool.eq_false_iff.mpr fun h => hne ((hstep k' o').mp h))
  refine ⟨⟨⟨htidy, hm.constructors, ?_, ?_, ⟨he, hm.timely⟩⟩, hext, fun _ _ h => h,
    fun k' o' _ hne => hother k' o' hne⟩, hadded⟩
  · intro id hid
    exact (hm.begun id hid).mono hm.tidy.world (.refl _) (List.subset_cons_self _ _)
  · intro k' o'
    -- that one installation goes on by one step, as it had to next
    by_cases heq : k' = k ∧ o' = o
    · obtain ⟨rfl, rfl⟩ := heq
      refine Or.inr ⟨hk, ho, ?_⟩
      change stepsOf (e :: m.journal) k' o' <+: m.world.installation k' o'
      rw [hadded]
      exact hnext
    · change stepsOf (e :: m.journal) k' o' = [] ∨ _ ∧ _ ∧ stepsOf (e :: m.journal) k' o' <+: _
      rw [hother k' o' heq]
      exact hm.setUp k' o'

/-- A derived constructor starts work on an object that construction has begun on. -/
theorem push {c : ClassRef} {o : ObjectId} (hc : c.index < m.world.classes.size)
    (ho : o.index < m.world.objects.size) (hbegun : m.world.HasBegun m.journal c o) :
    m.Within S { m with constructions := m.constructions.push ⟨c, o, false⟩ } := by
  obtain ⟨htidy, hext⟩ := hm.tidy.newConstruction hc ho
  have hat := constructionAt_push (m := m) ⟨c, o, false⟩
  refine ⟨⟨htidy, hm.constructors, ?_, hm.setUp, hm.timely⟩, hext, ?_, fun _ _ _ _ => rfl⟩
  · -- the construction pushed has begun, and the others had before
    intro id hid
    rw [hat]
    split
    · exact hbegun
    · next hne =>
      refine hm.begun id ?_
      change id.index < (m.constructions.push _).size at hid
      rw [Array.size_push] at hid
      omega
  · intro id hid hcalled
    rwa [hat, if_neg (Nat.ne_of_lt hid)]

/-- A derived constructor calls the parent's. -/
theorem callSuper (id : ConstructionId) : m.Within S (m.callSuper id) := by
  obtain ⟨htidy, hext⟩ := hm.tidy.callSuper id
  -- only the mark of one construction changes, and no step of an installation is taken
  have hat := constructionAt_callSuper (m := m) id
  have hsize : (m.callSuper id).constructions.size = m.constructions.size := Array.size_modify
  refine ⟨⟨htidy, hm.constructors, ?_, hm.setUp, ⟨trivial, hm.timely⟩⟩, hext, ?_,
    fun k o _ _ => stepsOf_cons_other rfl⟩
  · intro id' hid'
    rw [hsize] at hid'
    have hbegun := (hm.begun id' hid').mono hm.tidy.world (.refl _) (List.subset_cons_self
      (.superCalled (m.constructionAt id).classRef (m.constructionAt id).inst) _)
    rw [hat]
    split <;> exact hbegun
  · intro id' _ hcalled
    rw [hat]
    split
    · rfl
    · exact hcalled

end IsInOrder

end Machine

end Enclave
