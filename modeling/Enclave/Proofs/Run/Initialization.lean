import Enclave.Proofs.Run.Reached

/-!
# The order of initialization

On every machine that is reached, the events of the initialization of an instance come in order
(`Machine.Reached.isOrdered`): a class has installed its members after each of them was stored, an
instance has been initialized after what its class asks for, and it is handed out after that.

A derived constructor counts as done once it has called the parent's constructor, whether that call
has returned or not. So an instance that is handed out has all the members of its chain exactly if
every call of a parent's constructor has returned (`Machine.IsOrdered.installed_iff`).
-/

namespace Enclave

variable {gone : Node → Prop} {m m' : Machine}

/-- What satisfies a property of each event and of those before it does so where it happened. -/
theorem EachAfter.of_mem {P : List Event → Event → Prop} {journal : List Event} {e : Event}
    (h : EachAfter P journal) (he : e ∈ journal) : ∃ past, past ⊆ journal ∧ P past e := by
  obtain ⟨later, past, rfl⟩ := List.append_of_mem he
  refine ⟨past, fun x hx => ?_, h.of_eq⟩
  exact List.mem_append_right later (List.mem_cons_of_mem e hx)

theorem EachAfter.past_of_eq {P : List Event → Event → Prop} {later past : List Event} {e : Event}
    (h : EachAfter P (later ++ e :: past)) : EachAfter P past := by
  induction later with
  | nil => exact h.2
  | cons x later ih => exact ih h.2

namespace World

variable {w w' : World} {past past' : List Event} {c : ClassRef} {o : ObjectId}

theorem HasStored.mono (hpast : past ⊆ past') (h : w.HasStored past c o) :
    w.HasStored past' c o :=
  ⟨fun p hp => hpast (h.1 p hp), fun f hf => hpast (h.2 f hf)⟩

/-- Where a class that hands over to the parent has installed its members, the parent's constructor
has returned. -/
def ReturnsInstalled (w : World) (past : List Event) : Prop :=
  ∀ c o, .installed c o ∈ past → (w.classAt c).HandsOver → .superReturned c o ∈ past

/-- What has happened before an event of an initialization. -/
def IsOrderly (w : World) (past : List Event) : Event → Prop
  | .superCalled c _ => w.HasClass c ∧ (w.classAt c).HandsOver
  | .superReturned c o => w.HasClass c ∧ .installed c o ∈ past ∧
    ∃ p, (w.classAt c).parent = some p ∧ .initialized p o ∈ past
  | .installed c o => w.HasClass c ∧ w.HasStored past c o
  | .initialized c o => w.HasClass c ∧ w.HasInitialized past c o
  | .constructed c o => w.HasClass c ∧ .initialized c o ∈ past ∧ w.ReturnsInstalled past
  | _ => True

end World

/-- The events of initializations come in order. -/
structure Machine.IsOrdered (m : Machine) : Prop where
  events : EachAfter m.world.IsOrderly m.journal
  returned : m.world.ReturnsInstalled m.journal

namespace Machine.IsOrdered

/-! ### What has happened to an instance -/

section Instance

variable {w : World} {past : List Event} (hpast : EachAfter w.IsOrderly past)

include hpast

/-- All members of a class have been stored when they are installed. -/
theorem hasStored {c : ClassRef} {o : ObjectId} (h : .installed c o ∈ past) :
    w.HasStored past c o := by
  obtain ⟨before, hbefore, -, hstored⟩ := hpast.of_mem h
  exact hstored.mono hbefore

/-- Where every call of a parent's constructor has returned, an instance that is initialized as one
of a class has the members of the whole chain. -/
theorem installed_of_initialized (hw : w.Sound gone) {o : ObjectId} {c : ClassRef}
    (hc : w.HasClass c) (h : .initialized c o ∈ past)
    (hreturned : ∀ k ∈ w.classChain c, .superCalled k o ∈ past → .superReturned k o ∈ past) :
    ∀ k ∈ w.classChain c, .installed k o ∈ past := by
  -- the induction is from the base of the chain on, as the instance is initialized
  revert h hreturned
  refine hw.class_induction (motive := fun c => .initialized c o ∈ past →
    (∀ k ∈ w.classChain c, .superCalled k o ∈ past → .superReturned k o ∈ past) →
    ∀ k ∈ w.classChain c, .installed k o ∈ past) (fun c _ hparent h _ k hk => ?_)
    (fun c p _ hparent _ ih h hreturned k hk => ?_) hc
  · -- a base class installs its own members, and there is nothing above it
    obtain ⟨before, hbefore, -, hdone⟩ := hpast.of_mem h
    rw [World.HasInitialized, hparent] at hdone
    rw [World.classChain_of_none hparent, List.mem_singleton] at hk
    exact hk ▸ hbefore hdone
  · obtain ⟨before, hbefore, -, hdone⟩ := hpast.of_mem h
    rw [World.HasInitialized, hparent] at hdone
    rw [hw.classChain_of_some hparent] at hreturned hk
    -- otherwise its parent was initialized, and its own members are installed
    have hboth : .initialized p o ∈ past ∧ .installed c o ∈ past := by
      cases hconstructor : (w.classAt c).constructor with
      | none =>
        rw [hconstructor] at hdone
        exact ⟨hbefore hdone.1, hbefore hdone.2⟩
      | some f =>
        rw [hconstructor] at hdone
        -- with a constructor, `super` was called in it, and so it has returned
        have hsuper := hreturned c List.mem_cons_self (hbefore hdone)
        obtain ⟨before', hbefore', -, hinstalled, p', hp', hinitialized⟩ := hpast.of_mem hsuper
        rw [hparent, Option.some_inj] at hp'
        exact ⟨hbefore' (hp' ▸ hinitialized), hbefore' hinstalled⟩
    rcases List.mem_cons.mp hk with rfl | hk
    · exact hboth.2
    · exact ih hboth.1 (fun d hd => hreturned d (List.mem_cons_of_mem c hd)) k hk

end Instance

/-- **Initialization.** When an instance is handed out, every class of its chain has installed its
members if and only if every call of a parent's constructor for it has returned. -/
theorem installed_iff (h : m.IsOrdered) (hw : m.world.Sound gone) {later past : List Event}
    {c : ClassRef} {o : ObjectId} (hjournal : m.journal = later ++ .constructed c o :: past) :
    (∀ k ∈ m.world.classChain c, .installed k o ∈ past ∧ m.world.HasStored past k o) ↔
      ∀ k ∈ m.world.classChain c, .superCalled k o ∈ past → .superReturned k o ∈ past := by
  have hevents := h.events
  rw [hjournal] at hevents
  -- when the object had been constructed, its class had been initialized
  obtain ⟨hc, hinitialized, hreturned⟩ := hevents.of_eq
  have hpast := hevents.past_of_eq
  constructor
  · intro hall k hk hsuper
    obtain ⟨-, -, -, hhands⟩ := hpast.of_mem hsuper
    exact hreturned k o (hall k hk).1 hhands
  · intro hall k hk
    have hinstalled := installed_of_initialized hpast hw hc hinitialized hall k hk
    exact ⟨hinstalled, hasStored hpast hinstalled⟩

/-- A class whose parent's constructor is called has a parent. -/
theorem parent_of_superCalled (h : m.IsOrdered) {c : ClassRef} {o : ObjectId}
    (hcalled : .superCalled c o ∈ m.journal) : (m.world.classAt c).parent.isSome := by
  obtain ⟨-, -, -, hhands⟩ := h.events.of_mem hcalled
  exact hhands.1

/-! ### Steps -/

/-- What is orderly stays so when the world grows. -/
theorem grows (h : m.IsOrdered) (hw : m.world.Sound gone) {w : World} (hg : m.world.Grows w) :
    IsOrdered { m with world := w } := by
  -- a class named by an event is in the world, so it stays as it is while the world grows
  have hclass : ∀ {c}, m.world.HasClass c → w.HasClass c ∧ w.classAt c = m.world.classAt c :=
    fun hc => ⟨hc.grows hw.tokens hg, hg.classes _ hc.1⟩
  have hreturned : ∀ {past}, past ⊆ m.journal → m.world.ReturnsInstalled past →
      w.ReturnsInstalled past := by
    intro past hpast hreturned c o hmem hhands
    obtain ⟨-, -, hc, -⟩ := h.events.of_mem (hpast hmem)
    rw [(hclass hc).2] at hhands
    exact hreturned c o hmem hhands
  refine ⟨h.events.imp fun e past hsuffix he => ?_, hreturned (List.Subset.refl _) h.returned⟩
  have hpast : past ⊆ m.journal := fun x hx => hsuffix.subset (List.mem_cons_of_mem e hx)
  -- only an event about a class says anything of the world
  cases e with
  | superCalled c o =>
    obtain ⟨hc, hhands⟩ := he
    exact ⟨(hclass hc).1, by rwa [(hclass hc).2]⟩
  | superReturned c o =>
    obtain ⟨hc, hinstalled, hparent⟩ := he
    exact ⟨(hclass hc).1, hinstalled, by rwa [(hclass hc).2]⟩
  | installed c o =>
    obtain ⟨hc, hstored⟩ := he
    refine ⟨(hclass hc).1, ?_⟩
    rwa [World.HasStored, (hclass hc).2]
  | initialized c o =>
    obtain ⟨hc, hdone⟩ := he
    refine ⟨(hclass hc).1, ?_⟩
    rwa [World.HasInitialized, (hclass hc).2]
  | constructed c o =>
    obtain ⟨hc, hinitialized, hbefore⟩ := he
    exact ⟨(hclass hc).1, hinitialized, hreturned hpast hbefore⟩
  | _ => trivial

/-- An event that may come next. Members are installed here only by classes that do not hand
over. -/
theorem cons (h : m.IsOrdered) {e : Event} (he : m.world.IsOrderly m.journal e)
    (hplain : ∀ c o, e = .installed c o → ¬(m.world.classAt c).HandsOver) :
    IsOrdered { m with journal := e :: m.journal } := by
  refine ⟨⟨he, h.events⟩, fun c o hmem hhands => ?_⟩
  rcases List.mem_cons.mp hmem with heq | hmem
  · exact absurd hhands (hplain c o heq.symm)
  · exact List.mem_cons_of_mem e (h.returned c o hmem hhands)

theorem record (h : m.IsOrdered) {e : Event} (he : m.Warrants gone e) :
    IsOrdered { m with journal := e :: m.journal } := by
  cases e with
  | installed c o =>
    obtain ⟨hc, hplain, hstored⟩ := he
    exact h.cons ⟨hc, hstored⟩ fun _ _ heq => by cases heq; exact hplain
  | constructed c o => exact h.cons ⟨he.1, he.2, h.returned⟩ fun _ _ heq => nomatch heq
  | initialized c o => exact h.cons he fun _ _ heq => nomatch heq
  | superCalled | superReturned => exact he.elim
  | _ => exact h.cons trivial fun _ _ heq => nomatch heq

/-- Events that are about no initialization. -/
theorem append (h : m.IsOrdered) {new : List Event}
    (hnew : ∀ e ∈ new, ∀ past, m.world.IsOrderly past e ∧ ∀ c o, e ≠ .installed c o) :
    IsOrdered { m with journal := new ++ m.journal } := by
  induction new with
  | nil => exact h
  | cons e new ih =>
    have hrest := ih fun x hx => hnew x (List.mem_cons_of_mem e hx)
    have he := hnew e List.mem_cons_self (new ++ m.journal)
    exact hrest.cons he.1 fun c o heq => absurd heq (he.2 c o)

theorem allocate (h : m.IsOrdered) (hm : m.Sound gone) {c : ClassRef}
    (hc : m.world.Admits gone (.class c)) : (m.allocate c).IsOrdered := by
  have henrolls := hm.enrolls_allocate hc
  have hg := (hm.begin hc).2.trans henrolls.grows
  -- beginning is recorded first, and then each registration
  have hbegun : IsOrdered { m with
      world := (m.allocate c).world
      journal := .constructing c m.nextObject :: m.journal } :=
    (h.grows hm.world hg.world).cons trivial fun _ _ heq => nomatch heq
  obtain ⟨tokens, hjournal⟩ := henrolls.journal
  have hall := hbegun.append fun e (he : e ∈ tokens.map (.registered · m.nextObject)) _ => by
    obtain ⟨t, -, rfl⟩ := List.mem_map.mp he
    exact ⟨trivial, fun _ _ heq => nomatch heq⟩
  refine ⟨?_, ?_⟩
  · rw [hjournal]
    exact hall.events
  · rw [hjournal]
    exact hall.returned

/-- **Steps.** The events of initializations keep coming in order. -/
theorem step (h : m.IsOrdered) (hm : m.Sound gone) (hstep : m.Step gone m') : m'.IsOrdered := by
  have hg := (hstep.keeps hm).2
  cases hstep with
  -- most steps add no event, or one that promises nothing
  | count depth output => exact ⟨h.events, h.returned⟩
  | construct c o => exact ⟨h.events, h.returned⟩
  | alter halters => exact h.grows hm.world hg.world
  | record he => exact h.record he
  | define => exact (h.grows hm.world hg.world).cons trivial fun _ _ heq => nomatch heq
  | allocate hc => exact h.allocate hm hc
  -- the call is noted for a class that hands over to its parent
  | @callSuper id hknows =>
    have hevent : m.world.IsOrderly m.journal
        (.superCalled (m.constructionAt id).classRef (m.constructionAt id).inst) :=
      ⟨hknows.classKnown.fits, hknows.handsOver⟩
    have hall := h.cons hevent fun _ _ heq => nomatch heq
    exact ⟨hall.events, hall.returned⟩
  | @returnSuper c p o hc hform hp hparent hstored =>
    refine ⟨⟨⟨hc, List.mem_cons_self, p, hp, List.mem_cons_of_mem _ hparent⟩, ⟨hc, hstored⟩,
      h.events⟩, fun c' o' hmem hhands => ?_⟩
    -- two events at once: the installation just before the return it allows
    rcases List.mem_cons.mp hmem with heq | hmem
    · cases heq
    rcases List.mem_cons.mp hmem with heq | hmem
    · cases heq
      exact List.mem_cons_self
    · exact List.mem_cons_of_mem _ (List.mem_cons_of_mem _ (h.returned c' o' hmem hhands))

end Machine.IsOrdered

/-- **Order.** On every machine that is reached, the events of initializations come in order. -/
theorem Machine.Reached.isOrdered (h : m.Reached gone) : m.IsOrdered := by
  induction h with
  | start maxDepth => exact ⟨trivial, fun _ _ hmem => nomatch hmem⟩
  | step h hstep ih => exact ih.step h.sound hstep
  | reclaim h _ _ ih => exact ih.grows h.sound.world (World.sameContents_reclaim _ _).grows

end Enclave
