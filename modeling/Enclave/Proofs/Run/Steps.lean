import Enclave.Proofs.Run.Machines

/-!
# Steps of a run

What a single step of a run can do to the machine (`Machine.Step`), said once: every invariant of
runs is derived from it. A coherent machine stays coherent, and grows (`Machine.Step.coherent`).

Some steps are more than one operation. Between the operations of such a step nothing of a script
runs: a class is added right after its token and its methods have been made, a new instance is
registered with all tokens of its chain, and when `super(...)` returns the members of the class have
just been installed.
-/

namespace Enclave

variable {gone : Node → Prop}

/-! ### What has happened -/

/-- A property of each event and of those before it. -/
def EachAfter (P : List Event → Event → Prop) : List Event → Prop
  | [] => True
  | e :: past => P past e ∧ EachAfter P past

theorem EachAfter.of_eq {P : List Event → Event → Prop} {later past : List Event} {e : Event}
    (h : EachAfter P (later ++ e :: past)) : P past e := by
  induction later with
  | nil => exact h.1
  | cons x later ih => exact ih h.2

/-- What holds of each event may be replaced by what follows from it. -/
theorem EachAfter.imp {P Q : List Event → Event → Prop} :
    ∀ {journal : List Event}, EachAfter P journal →
      (∀ e past, e :: past <:+ journal → P past e → Q past e) → EachAfter Q journal
  | [], _, _ => trivial
  | e :: past, h, hPQ => ⟨hPQ e past (List.suffix_refl _) h.1, h.2.imp fun e' past' hsuffix =>
      hPQ e' past' (hsuffix.trans (List.suffix_cons e past))⟩

theorem EachAfter.append {P : List Event → Event → Prop} {journal : List Event}
    (h : EachAfter P journal) : ∀ {new : List Event}, (∀ e ∈ new, ∀ past, P past e) →
      EachAfter P (new ++ journal)
  | [], _ => h
  | e :: _, hnew => ⟨hnew e List.mem_cons_self _,
      h.append fun e' he' => hnew e' (List.mem_cons_of_mem e he')⟩

namespace World

/-- All private members of a class have been stored in an instance. -/
def HasStored (w : World) (past : List Event) (c : ClassRef) (o : ObjectId) : Prop :=
  (∀ p ∈ (w.classAt c).privateMethods, .methodStored c o p.1 ∈ past) ∧
    ∀ f ∈ (w.classAt c).fields, .fieldStored c o f.name ∈ past

/-- What an instance has gone through when it has been initialized as one of a class. A derived
constructor has called the parent's. -/
def HasInitialized (w : World) (past : List Event) (c : ClassRef) (o : ObjectId) : Prop :=
  match (w.classAt c).parent, (w.classAt c).constructor with
  | none, _ => .installed c o ∈ past
  | some p, none => .initialized p o ∈ past ∧ .installed c o ∈ past
  | some _, some _ => .superCalled c o ∈ past

/-- Alterations, one after another. -/
def Alterations (gone : Node → Prop) (w w' : World) : Prop :=
  Relation.ReflTransGen (Alters gone) w w'

variable {w w' : World}

/-- **Alterations.** A sound world stays sound, and the registered objects and the classes are the
same. -/
theorem Alterations.keeps (h : w.Alterations gone w') (hs : w.Sound gone) :
    w'.Sound gone ∧ w.Grows w' ∧ w'.classes = w.classes ∧ w'.tokens = w.tokens ∧
      ∀ t o, w'.lookupInstance? t o = w.lookupInstance? t o := by
  induction h with
  | refl => exact ⟨hs, .refl w, rfl, rfl, fun _ _ => rfl⟩
  | tail _ h ih =>
    obtain ⟨hs', hg, hclasses, htokens, hlookups⟩ := ih
    refine ⟨hs'.change h.toChange, hg.trans h.grows, h.sameClasses.trans hclasses,
      h.registrations.tokens.trans htokens, fun t o => ?_⟩
    exact (h.registrations.lookupInstance? t o).trans (hlookups t o)

end World

namespace Machine

variable {m m' : Machine}

/-! ### Single operations -/

/-- The instance is registered with the token of a class. -/
def register (o : ObjectId) (m : Machine) (c : ClassRef) : Machine :=
  let token := (m.world.classAt c).token
  { m with
    world := (m.world.registerInstance token o).2
    journal := .registered token o :: m.journal }

/-- The object that is made next. -/
def nextObject (m : Machine) : ObjectId := ⟨m.world.objects.size⟩

/-- An instance of a class is allocated. -/
def begin (m : Machine) (c : ClassRef) : Machine :=
  { m with
    world := (m.world.newObject (some (m.world.classAt c).prototype)).2
    journal := .constructing c m.nextObject :: m.journal }

/-- An instance of a class is allocated and registered with the tokens of its chain. -/
def allocate (m : Machine) (c : ClassRef) : Machine :=
  ((m.begin c).world.classChain c).foldl (register m.nextObject) (m.begin c)

/-- A derived constructor calls the parent's. -/
def callSuper (m : Machine) (id : ConstructionId) : Machine :=
  { m with
    constructions := m.constructions.modify id.index ({ · with superCalled := true })
    journal :=
      .superCalled (m.constructionAt id).classRef (m.constructionAt id).inst :: m.journal }

/-! ### Steps -/

/-- When an event may be recorded. The events of steps that are more than one operation are recorded
by these steps alone. -/
def Warrants (gone : Node → Prop) (m : Machine) : Event → Prop
  | .minted .. | .constructing .. | .registered .. | .superCalled .. | .superReturned .. => False
  | .constructed c o => m.world.HasClass c ∧ .initialized c o ∈ m.journal
  | .initialized c o => m.world.HasClass c ∧ m.world.HasInitialized m.journal c o
  | .installed c o =>
    m.world.HasClass c ∧ ¬(m.world.classAt c).HandsOver ∧ m.world.HasStored m.journal c o
  | .resolved t v =>
    t.index < m.world.classes.size ∧ ∃ o, v = .object o ∧ (m.world.lookupInstance? t o).isSome
  | .rejected t v =>
    t.index < m.world.classes.size ∧ m.world.Admits gone v ∧
      ∀ o, v = .object o → m.world.lookupInstance? t o = none
  | _ => True

/-- What a step of a run can do to the machine. -/
inductive Step (gone : Node → Prop) : Machine → Machine → Prop
  | count (m : Machine) (depth : ℕ) (output : String) : Step gone m { m with depth, output }
  | alter {m : Machine} {world : World} (h : World.Alters gone m.world world) :
    Step gone m { m with world }
  | record {m : Machine} {e : Event} (h : m.Warrants gone e) :
    Step gone m { m with journal := e :: m.journal }
  /-- A class is defined. -/
  | define {m : Machine} {site : ClassSite} {name : String} {w : World} {d : Class}
    (h : World.Alterations gone (m.world.mintToken site name).2 w)
    (hfits : d.Fits w w.classes.size) (hholds : ∀ n ∈ d.holds, w.Knows gone n)
    (hprototype : ¬m.world.Has (.object d.prototype)) : Step gone m { m with
      world := w.addClass d
      journal := .minted ⟨m.world.tokens.size⟩ (m.world.nextClass name) :: m.journal }
  | allocate {m : Machine} {c : ClassRef} (hc : m.world.Admits gone (.class c)) :
    Step gone m (m.allocate c)
  /-- A derived constructor starts work. -/
  | construct {m : Machine} (c : ClassRef) (o : ObjectId) :
    Step gone m { m with constructions := m.constructions.push ⟨c, o, false⟩ }
  | callSuper {m : Machine} {id : ConstructionId} (h : m.KnowsConstruction gone id) :
    Step gone m (m.callSuper id)
  /-- The parent's constructor and the members of the class are done. -/
  | returnSuper {m : Machine} {c p : ClassRef} {o : ObjectId} (hc : m.world.HasClass c)
    (hform : (m.world.classAt c).HandsOver) (hp : (m.world.classAt c).parent = some p)
    (hparent : .initialized p o ∈ m.journal) (hstored : m.world.HasStored m.journal c o) :
    Step gone m { m with journal := .superReturned c o :: .installed c o :: m.journal }

/-- Steps, one after another. -/
def Steps (gone : Node → Prop) (m m' : Machine) : Prop :=
  Relation.ReflTransGen (Step gone) m m'

/-! ### Coherent machines stay coherent -/

/-- A machine stays coherent if its world stays sound and the rest is not touched. -/
theorem Coherent.keeps (hm : m.Coherent gone) (hw : m'.world.Sound gone)
    (hg : m.world.Grows m'.world)
    (hlookups : ∀ t o table, m.world.lookupInstance? t o = some table →
      m'.world.lookupInstance? t o = some table)
    (hsettled : m'.world.classes.size = m'.world.tokens.size)
    (hcall : m'.callFunction = m.callFunction) (hconstructions : m'.constructions = m.constructions)
    (hjournal : m.journal <:+ m'.journal) : m'.Coherent gone ∧ m.Grows m' := by
  -- no construction is new, and each one is where it was
  have hat : ∀ id, m'.constructionAt id = m.constructionAt id := fun id => by
    rw [constructionAt, hconstructions, constructionAt]
  refine ⟨⟨hw, hsettled, hm.root.grows hg, ?_, ?_, fun id hid hsuper => ?_⟩,
    hg, hlookups, fun id hid => ?_, hjournal⟩
  · rw [hcall]
    exact hm.callKnown.grows hg
  · rw [hcall]
    exact (hg.functions _ hm.callKnown.1).trans hm.callFunction
  · rw [hconstructions] at hid
    rw [hat] at hsuper ⊢
    exact hjournal.subset (hm.superCalls id hid hsuper)
  · rw [hat, hconstructions]
    exact ⟨hid, rfl, rfl⟩

theorem Coherent.keeps_journal (hm : m.Coherent gone) {journal : List Event}
    (h : m.journal <:+ journal) :
    Coherent gone { m with journal } ∧ m.Grows { m with journal } :=
  hm.keeps hm.world (.refl _) (fun _ _ _ h => h) hm.settled rfl rfl h

/-- Registering an instance with the tokens of some classes. -/
structure Enrolls (gone : Node → Prop) (o : ObjectId) (cs : List ClassRef) (m m' : Machine) :
    Prop where
  coherent : m'.Coherent gone
  grows : m.Grows m'
  sameClasses : m'.world.classes = m.world.classes
  lookups : ∀ t o', (m'.world.lookupInstance? t o').isSome ↔
    (m.world.lookupInstance? t o').isSome ∨ o' = o ∧ ∃ c ∈ cs, (m.world.classAt c).token = t
  objects : m'.world.objects.size = m.world.objects.size
  journal : ∃ tokens : List TokenId, m'.journal = tokens.map (.registered · o) ++ m.journal

theorem enrolls_register (hm : m.Coherent gone) {o : ObjectId} (ho : m.world.Has (.object o))
    {c : ClassRef} (hc : m.world.HasClass c) : Enrolls gone o [c] m (m.register o c) := by
  have htoken : (m.world.classAt c).token.index < m.world.tokens.size := by
    rw [(hm.world.classAt_fits hc).token, ← hm.settled]
    exact hc.1
  have hchange := World.change_registerInstance hm.world htoken ho
  have hsettled : (m.register o c).world.classes.size = (m.register o c).world.tokens.size := by
    change (m.world.registerInstance _ o).2.classes.size =
      (m.world.registerInstance _ o).2.tokens.size
    rw [World.classes_registerInstance, World.tokenCount_registerInstance]
    exact hm.settled
  -- registering changes no class, so the tokens are still settled
  obtain ⟨hcoherent, hgrows⟩ : (m.register o c).Coherent gone ∧ m.Grows (m.register o c) :=
    hm.keeps (hm.world.change hchange) hchange.grows hchange.lookups hsettled rfl rfl
      (List.suffix_cons _ _)
  refine ⟨hcoherent, hgrows, World.classes_registerInstance _ _ _, fun t o' => ?_, ?_,
    ⟨[_], rfl⟩⟩
  · have hlookup := World.lookupInstance?_registerInstance hm.world.registry htoken ho t o'
    change ((m.world.registerInstance _ o).2.lookupInstance? t o').isSome ↔ _
    rw [hlookup]
    -- the table found is the one registered, or one found before
    by_cases heq : t = (m.world.classAt c).token ∧ o' = o
    · rw [if_pos heq]
      exact iff_of_true rfl (Or.inr ⟨heq.2, c, List.mem_singleton_self c, heq.1.symm⟩)
    · rw [if_neg heq, or_iff_left]
      rintro ⟨ho', d, hd, ht⟩
      exact heq ⟨(List.mem_singleton.mp hd ▸ ht).symm, ho'⟩
  · change (m.world.registerInstance _ o).2.objects.size = _
    unfold World.registerInstance
    split
    · rfl
    · exact World.size_updateObject _ _ _

theorem enrolls_registerAll (hm : m.Coherent gone) {o : ObjectId} (ho : m.world.Has (.object o))
    {cs : List ClassRef} (hcs : ∀ c ∈ cs, m.world.HasClass c) :
    Enrolls gone o cs m (cs.foldl (register o) m) := by
  -- on the classes: what the first one enrolled stays so while the others are
  induction cs generalizing m with
  | nil => exact ⟨hm, .refl m, rfl, by simp, rfl, [], rfl⟩
  | cons c cs ih =>
    have hfirst := enrolls_register hm ho (hcs c List.mem_cons_self)
    have hrest := ih hfirst.coherent (hfirst.grows.world.has _ ho) fun d hd =>
      hm.hasClass_grows hfirst.grows (hcs d (List.mem_cons_of_mem c hd))
    have hat : ∀ d, (m.register o c).world.classAt d = m.world.classAt d := fun d => by
      rw [World.classAt, hfirst.sameClasses]
      rfl
    refine ⟨hrest.coherent, hfirst.grows.trans hrest.grows,
      hrest.sameClasses.trans hfirst.sameClasses, fun t o' => ?_,
      hrest.objects.trans hfirst.objects, ?_⟩
    · refine (hrest.lookups t o').trans ?_
      rw [hfirst.lookups, or_assoc]
      simp only [hat, List.mem_cons, List.not_mem_nil, or_false, exists_eq_left,
        exists_eq_or_imp, ← and_or_left]
    · obtain ⟨tokens, hjournal⟩ := hrest.journal
      obtain ⟨tokens', hjournal'⟩ := hfirst.journal
      refine ⟨tokens ++ tokens', hjournal.trans ?_⟩
      rw [hjournal', List.map_append, List.append_assoc]

section Keeps

variable (hm : m.Coherent gone)

include hm

theorem Coherent.alters_begin {c : ClassRef} (hc : m.world.Admits gone (.class c)) :
    World.Alters gone m.world (m.begin c).world :=
  World.alters_newObject hm.world fun p hp => by cases hp; exact hm.world.knows_prototype hc

theorem Coherent.begin {c : ClassRef} (hc : m.world.Admits gone (.class c)) :
    (m.begin c).Coherent gone ∧ m.Grows (m.begin c) := by
  have halters := hm.alters_begin hc
  refine hm.keeps (hm.world.change halters.toChange) halters.grows halters.lookups ?_ rfl rfl
    (List.suffix_cons _ _)
  exact hm.settled

/-- An instance that is allocated is registered with the tokens of its chain, and nothing else is
registered. -/
theorem Coherent.enrolls_allocate {c : ClassRef} (hc : m.world.Admits gone (.class c)) :
    Enrolls gone m.nextObject ((m.begin c).world.classChain c) (m.begin c) (m.allocate c) := by
  obtain ⟨hcoherent, hgrows⟩ := hm.begin hc
  refine enrolls_registerAll hcoherent ?_ fun d hd =>
    hcoherent.world.hasClass_of_mem (hm.hasClass_grows hgrows hc.fits) hd
  change m.world.objects.size < (m.world.objects.push _).size
  rw [Array.size_push]
  exact Nat.lt_succ_self _

theorem Coherent.define (event : Event) {site : ClassSite} {name : String} {w : World} {d : Class}
    (h : World.Alterations gone (m.world.mintToken site name).2 w)
    (hfits : d.Fits w w.classes.size) (hholds : ∀ n ∈ d.holds, w.Knows gone n) :
    Coherent gone { m with world := w.addClass d, journal := event :: m.journal } ∧
      m.Grows { m with world := w.addClass d, journal := event :: m.journal } := by
  have hmint := World.change_mintToken hm.world site name
  obtain ⟨hs, hg, hclasses, htokens, hlookups⟩ := h.keeps (hm.world.change hmint)
  have hcount : w.tokens.size = m.world.tokens.size + 1 := by
    rw [htokens]
    exact Array.size_push _
  -- the class is put at the place of the token that was minted for it
  have hplace : w.classes.size = m.world.tokens.size := by
    rw [hclasses]
    exact hm.settled
  have hadd := World.change_addClass hs (by omega) hfits hholds
  refine hm.keeps (hs.change hadd) ((hmint.grows.trans hg).trans hadd.grows)
    (fun t o table hl => ?_) ?_ rfl rfl (List.suffix_cons _ _)
  · exact hadd.lookups t o table ((hlookups t o).trans (hmint.lookups t o table hl))
  calc (w.addClass d).classes.size = w.classes.size + 1 := Array.size_push _
    _ = w.tokens.size := by omega

omit hm in
theorem constructionAt_push (k : Construction) (id : ConstructionId) :
    constructionAt { m with constructions := m.constructions.push k } id =
      if id.index = m.constructions.size then k else m.constructionAt id :=
  getD_push _ _ _ _

theorem Coherent.construct (c : ClassRef) (o : ObjectId) :
    Coherent gone { m with constructions := m.constructions.push ⟨c, o, false⟩ } ∧
      m.Grows { m with constructions := m.constructions.push ⟨c, o, false⟩ } := by
  refine ⟨{ hm with superCalls := fun id hid hsuper => ?_ }, .refl _, fun _ _ _ h => h,
    fun id hid => ?_,
    List.suffix_refl _⟩
  · rw [constructionAt_push] at hsuper ⊢
    -- the construction pushed has not called `super` yet
    split at hsuper
    · cases hsuper
    · next hne =>
      rw [if_neg hne]
      rw [Array.size_push] at hid
      exact hm.superCalls id (by omega) hsuper
  · rw [constructionAt_push, if_neg (by omega), Array.size_push]
    exact ⟨Nat.lt_succ_of_lt hid, rfl, rfl⟩

omit hm in
theorem constructionAt_callSuper (id id' : ConstructionId) :
    (m.callSuper id).constructionAt id' =
      if id.index = id'.index ∧ id'.index < m.constructions.size then
        { m.constructionAt id' with superCalled := true }
      else m.constructionAt id' :=
  getD_modify _ _ _ _ _

theorem Coherent.callSuper (id : ConstructionId) :
    (m.callSuper id).Coherent gone ∧ m.Grows (m.callSuper id) := by
  refine ⟨{ hm with superCalls := fun id' hid hsuper => ?_ }, .refl _, fun _ _ _ h => h,
    fun id' hid => ?_,
    List.suffix_cons _ _⟩
  · change id'.index < (m.constructions.modify id.index _).size at hid
    rw [Array.size_modify] at hid
    rw [constructionAt_callSuper] at hsuper ⊢
    split at hsuper
    · next heq =>
      -- the construction marked has its event in front; the others have theirs behind it
      obtain rfl : id = id' := by
        cases id
        cases id'
        exact congrArg _ heq.1
      rw [if_pos heq]
      exact List.mem_cons_self
    · next hne =>
      rw [if_neg hne]
      exact List.mem_cons_of_mem _ (hm.superCalls id' hid hsuper)
  · -- class and object of a construction are not touched by the mark
    rw [constructionAt_callSuper]
    change id'.index < (m.constructions.modify id.index _).size ∧ _
    rw [Array.size_modify]
    refine ⟨hid, ?_⟩
    split <;> exact ⟨rfl, rfl⟩

/-- **Steps.** A machine that is coherent stays so, and what was there stays there. -/
theorem Step.coherent (h : Step gone m m') : m'.Coherent gone ∧ m.Grows m' := by
  -- a step changes the world, or records something, or both
  cases h with
  | count depth output =>
    exact ⟨{ hm with }, .refl _, fun _ _ _ h => h, fun _ h => ⟨h, rfl, rfl⟩, List.suffix_refl _⟩
  | alter h =>
    refine hm.keeps (hm.world.change h.toChange) h.grows h.lookups ?_ rfl rfl (List.suffix_refl _)
    rw [h.sameClasses, h.registrations.tokens]
    exact hm.settled
  | record h => exact hm.keeps_journal (List.suffix_cons _ _)
  | define h hfits hholds _ => exact hm.define _ h hfits hholds
  | allocate hc =>
    have hbegin := hm.begin hc
    have henrolls := hm.enrolls_allocate hc
    exact ⟨henrolls.coherent, hbegin.2.trans henrolls.grows⟩
  | construct c o => exact hm.construct c o
  | callSuper h => exact hm.callSuper _
  | returnSuper => exact hm.keeps_journal ⟨[_, _], rfl⟩

end Keeps

end Machine

end Enclave
