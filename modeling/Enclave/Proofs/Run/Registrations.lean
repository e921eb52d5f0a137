import Enclave.Proofs.Run.Reclaiming
import Enclave.Proofs.Run.Steps

/-!
# Who is registered with whom

At every point of a run a token keeps a table for an object only if the object was allocated as an
instance, by `new`, of a class that was evaluated with the token or descends from it; and for such
an object it does keep one, as long as the object is not gone (`Machine.IsRegistered`). So the
answer that an accessor got was right at that point (`Machine.IsRegistered.accesses`).

A machine is *sound* if it is coherent and its registrations agree with its journal
(`Machine.Sound`). Steps keep machines sound (`Machine.Steps.keeps`).
-/

namespace Enclave

variable {gone : Node → Prop} {m m' : Machine}

namespace World

variable {w w' : World}

/-- The class, or one of its ancestors, was evaluated with the token. -/
def Descends (w : World) (c : ClassRef) (t : TokenId) : Prop :=
  ∃ d ∈ w.classChain c, (w.classAt d).token = t

theorem classAt_of_eq (h : w'.classes = w.classes) (d : ClassRef) : w'.classAt d = w.classAt d := by
  rw [classAt, h, classAt]

theorem descends_of_sameClasses (h : w'.classes = w.classes) (c : ClassRef) (t : TokenId) :
    w'.Descends c t ↔ w.Descends c t := by
  have hat : w'.classAt = w.classAt := funext (classAt_of_eq h)
  rw [Descends, Descends, classChain, classChain, hat]

theorem Sound.descends_grows (hs : w.Sound gone) (hs' : w'.Sound gone) (hg : w.Grows w')
    {c : ClassRef} (hc : w.HasClass c) (t : TokenId) : w'.Descends c t ↔ w.Descends c t := by
  rw [Descends, hs.classChain_grows hs' hg hc]
  refine exists_congr fun d => and_congr_right fun hd => ?_
  have hat : w'.classAt d = w.classAt d := hg.classes d.index (hs.hasClass_of_mem hc hd).1
  rw [hat]

theorem Sound.has_prototype (hs : w.Sound gone) {d : ClassRef} (hd : w.HasClass d) :
    w.Has (.object (w.classAt d).prototype) := by
  refine hs.made d.node hd.1 _ (mem_links.mpr (Or.inl ?_))
  simp [ClassRef.node, fixed, classAt, Class.holds]

/-- A token belongs to one class. -/
theorem Sound.eq_of_token (hs : w.Sound gone) {c d : ClassRef} (hc : w.HasClass c)
    (hd : w.HasClass d) (h : (w.classAt c).token = (w.classAt d).token) : c = d := by
  rw [(hs.classAt_fits hc).token, (hs.classAt_fits hd).token] at h
  have hindex : c.index = d.index := congrArg TokenId.index h
  have hname : c.name = d.name := by rw [hc.2, hd.2, hindex]
  cases c
  cases d
  exact (ClassRef.mk.injEq ..).mpr ⟨hindex, hname⟩

/-- A class descends from the token of a class exactly if the class is in its chain. -/
theorem Sound.descends_iff (hs : w.Sound gone) {c d : ClassRef} (hc : w.HasClass c)
    (hd : w.HasClass d) : w.Descends c (w.classAt d).token ↔ d ∈ w.classChain c := by
  refine ⟨?_, fun h => ⟨d, h, rfl⟩⟩
  rintro ⟨e, he, htoken⟩
  exact hs.eq_of_token (hs.hasClass_of_mem hc he) hd htoken ▸ he

end World

namespace Machine

/-- Allocating an instance touches neither classes nor scopes. -/
theorem sameClasses_allocate (m : Machine) (c : ClassRef) :
    (m.allocate c).world.classes = m.world.classes ∧
      (m.allocate c).world.scopes = m.world.scopes := by
  -- Registering along a chain touches neither classes nor scopes.
  have hregister : ∀ (o : ObjectId) (cs : List ClassRef) (m : Machine),
      (cs.foldl (register o) m).world.classes = m.world.classes ∧
        (cs.foldl (register o) m).world.scopes = m.world.scopes := by
    intro o cs
    induction cs with
    | nil => exact fun m => ⟨rfl, rfl⟩
    | cons d cs ih =>
      intro m
      obtain ⟨hclasses, hscopes⟩ := ih (m.register o d)
      exact ⟨hclasses.trans (World.classes_registerInstance _ _ _),
        hscopes.trans (World.scopes_registerInstance _ _ _)⟩
  exact hregister _ _ (m.begin c)

/-- The objects that are registered are noted one class after another. -/
theorem journal_registerAll (o : ObjectId) (cs : List ClassRef) (m : Machine) :
    (cs.foldl (register o) m).journal =
      (cs.map fun c => .registered (m.world.classAt c).token o).reverse ++ m.journal := by
  induction cs generalizing m with
  | nil => rfl
  | cons c cs ih =>
    have hat : (m.register o c).world.classAt = m.world.classAt :=
      funext (World.classAt_of_eq (World.classes_registerInstance _ _ _))
    rw [List.foldl_cons, ih, hat, List.map_cons, List.reverse_cons, List.append_assoc]
    rfl

end Machine

/-! ### The invariant -/

/-- What the journal tells of an access: the token was minted before, and the target was found if
and only if it had been allocated for a class that descends from the token. -/
def World.IsRightAccess (w : World) (past : List Event) : Event → Prop
  | .resolved t v => (∃ d, .minted t d ∈ past) ∧
    ∃ c o, v = .object o ∧ .constructing c o ∈ past ∧ w.Descends c t
  | .rejected t v => (∃ d, .minted t d ∈ past) ∧
    ¬∃ c o, v = .object o ∧ .constructing c o ∈ past ∧ w.Descends c t
  | _ => True

/-- What is right stays right as long as classes descend from the same tokens. -/
theorem World.IsRightAccess.imp {w w' : World} {past : List Event} {e : Event}
    (hsame : ∀ c o t, .constructing c o ∈ past → (w'.Descends c t ↔ w.Descends c t))
    (h : w.IsRightAccess past e) : w'.IsRightAccess past e := by
  -- Only what is said of descent depends on the world.
  cases e with
  | resolved t v =>
    obtain ⟨hminted, c, o, rfl, hc, ht⟩ := h
    exact ⟨hminted, c, o, rfl, hc, (hsame c o t hc).mpr ht⟩
  | rejected t v =>
    obtain ⟨hminted, hnone⟩ := h
    refine ⟨hminted, ?_⟩
    rintro ⟨c, o, rfl, hc, ht⟩
    exact hnone ⟨c, o, rfl, hc, (hsame c o t hc).mp ht⟩
  | _ => trivial

/-- Registrations and the journal agree. -/
structure Machine.IsRegistered (gone : Node → Prop) (m : Machine) : Prop where
  /-- Instances are allocated for classes that are there. -/
  made : ∀ c o, .constructing c o ∈ m.journal → m.world.HasClass c ∧ m.world.Has (.object o)
  /-- An object is allocated for one class. -/
  unique : ∀ c c' o, .constructing c o ∈ m.journal → .constructing c' o ∈ m.journal → c = c'
  /-- Prototypes are no instances. -/
  prototypes : ∀ d, m.world.HasClass d → ∀ c,
    .constructing c (m.world.classAt d).prototype ∉ m.journal
  minted : ∀ t d, .minted t d ∈ m.journal ↔
    m.world.HasClass d ∧ (m.world.classAt d).token = t
  /-- Only instances are registered. -/
  justified : ∀ t o, (m.world.lookupInstance? t o).isSome →
    ∃ c, .constructing c o ∈ m.journal ∧ m.world.Descends c t
  /-- Instances are registered with their whole chain. -/
  complete : ∀ c o, .constructing c o ∈ m.journal → ¬gone (.object o) →
    ∀ t, m.world.Descends c t → (m.world.lookupInstance? t o).isSome
  accesses : EachAfter m.world.IsRightAccess m.journal

/-- An event that is about neither registrations nor accesses. -/
def Event.IsAside : Event → Prop
  | .minted .. | .constructing .. | .resolved .. | .rejected .. => False
  | _ => True

theorem Event.IsAside.isRightAccess {e : Event} (h : e.IsAside) (w : World) (past : List Event) :
    w.IsRightAccess past e := by
  cases e <;> trivial

/-- The value is an object that `new` allocated for a class whose chain has the class in it. -/
def World.IsAllocatedFor (w : World) (past : List Event) (d : ClassRef) (v : Value) : Prop :=
  ∃ c o, v = .object o ∧ .constructing c o ∈ past ∧ d ∈ w.classChain c

namespace Machine.IsRegistered

/-- An access is rejected if and only if the target was not allocated for the class of the token. -/
theorem rejected_iff (h : m.IsRegistered gone) (hm : m.Coherent gone) {later past : List Event}
    {e : Event} {t : TokenId} {v : Value} (hjournal : m.journal = later ++ e :: past)
    (haccess : e = .resolved t v ∨ e = .rejected t v) :
    ∃ d, .minted t d ∈ past ∧ (∀ d', .minted t d' ∈ past → d' = d) ∧
      (e = .rejected t v ↔ ¬m.world.IsAllocatedFor past d v) := by
  have hsuffix : past ⊆ m.journal := fun x hx => by
    rw [hjournal]
    exact List.mem_append_right later (List.mem_cons_of_mem e hx)
  have hright : m.world.IsRightAccess past e := EachAfter.of_eq (hjournal ▸ h.accesses)
  -- the class that the token was minted for is the one that has it still
  have hallocated : ∀ {d}, .minted t d ∈ past → ((∃ c o, v = .object o ∧
      .constructing c o ∈ past ∧ m.world.Descends c t) ↔ m.world.IsAllocatedFor past d v) := by
    intro d hminted
    obtain ⟨hd, rfl⟩ := (h.minted t d).mp (hsuffix hminted)
    refine exists_congr fun c => exists_congr fun o => and_congr_right fun _ =>
      and_congr_right fun hc => ?_
    exact hm.world.descends_iff (h.made c o (hsuffix hc)).1 hd
  have hunique : ∀ {d d'}, .minted t d ∈ past → .minted t d' ∈ past → d' = d := by
    intro d d' hd hd'
    obtain ⟨hclass, htoken⟩ := (h.minted t d).mp (hsuffix hd)
    obtain ⟨hclass', htoken'⟩ := (h.minted t d').mp (hsuffix hd')
    exact hm.world.eq_of_token hclass' hclass (htoken'.trans htoken.symm)
  -- resolved: an object of that class or an heir of it; rejected: anything else
  obtain rfl | rfl := haccess
  · obtain ⟨⟨d, hd⟩, hfound⟩ := hright
    refine ⟨d, hd, fun d' => hunique hd, iff_of_false (fun heq => nomatch heq) ?_⟩
    exact fun hnone => hnone ((hallocated hd).mp hfound)
  · obtain ⟨⟨d, hd⟩, hnone⟩ := hright
    refine ⟨d, hd, fun d' => hunique hd, iff_of_true rfl ?_⟩
    exact fun hfound => hnone ((hallocated hd).mpr hfound)

/-- The accesses of a journal stay right when the world grows. -/
theorem accesses_grows (h : m.IsRegistered gone) (hm : m.Coherent gone) (hm' : m'.Coherent gone)
    (hg : m.world.Grows m'.world) : EachAfter m'.world.IsRightAccess m.journal := by
  refine h.accesses.imp fun e past hsuffix hright => hright.imp fun c o t hc => ?_
  have hmem : .constructing c o ∈ m.journal := hsuffix.subset (List.mem_cons_of_mem e hc)
  exact hm.world.descends_grows hm'.world hg (h.made c o hmem).1 t

section Steps

variable (h : m.IsRegistered gone) (hm : m.Coherent gone)

include h hm

omit h in
theorem hasClass_of_sameClasses (hg : m.world.Grows m'.world)
    (hclasses : m'.world.classes = m.world.classes) (d : ClassRef) :
    m'.world.HasClass d ↔ m.world.HasClass d := by
  refine ⟨fun hd => ?_, fun hd => hd.grows hm.world.tokens hg⟩
  have hlt : d.index < m.world.classes.size := hclasses ▸ hd.1
  exact ⟨hlt, hd.2.trans (hg.name ⟨d.index⟩ (hm.settled ▸ hlt))⟩

/-- Where no class is made, nothing is minted. -/
theorem minted_of_sameClasses (hg : m.world.Grows m'.world)
    (hclasses : m'.world.classes = m.world.classes)
    (hminted : ∀ t d, .minted t d ∈ m'.journal ↔ .minted t d ∈ m.journal) (t : TokenId)
    (d : ClassRef) : .minted t d ∈ m'.journal ↔
      m'.world.HasClass d ∧ (m'.world.classAt d).token = t := by
  rw [hminted, h.minted, hasClass_of_sameClasses hm hg hclasses, World.classAt_of_eq hclasses]

/-- Where no class is made, prototypes are no instances, since they were there before. -/
theorem prototypes_of_sameClasses (hg : m.world.Grows m'.world)
    (hclasses : m'.world.classes = m.world.classes)
    (hconstructing : ∀ c o, .constructing c o ∈ m'.journal → .constructing c o ∈ m.journal ∨
      o = m.nextObject) (d : ClassRef) (hd : m'.world.HasClass d) (c : ClassRef) :
    .constructing c (m'.world.classAt d).prototype ∉ m'.journal := by
  rw [hasClass_of_sameClasses hm hg hclasses] at hd
  rw [World.classAt_of_eq hclasses]
  intro hmem
  rcases hconstructing _ _ hmem with hmem | heq
  · exact h.prototypes d hd c hmem
  · have hhas := hm.world.has_prototype hd
    rw [heq] at hhas
    exact Nat.lt_irrefl m.world.objects.size hhas

variable (hm' : m'.Coherent gone) (hg : m.Grows m')

include hg

/-- Where nobody is registered and no class is made, only accesses have to be looked at. -/
theorem frame (hlookups : ∀ t o, m'.world.lookupInstance? t o = m.world.lookupInstance? t o)
    (hclasses : m'.world.classes = m.world.classes)
    (hminted : ∀ t d, .minted t d ∈ m'.journal ↔ .minted t d ∈ m.journal)
    (hconstructing : ∀ c o, .constructing c o ∈ m'.journal ↔ .constructing c o ∈ m.journal)
    (haccesses : EachAfter m'.world.IsRightAccess m'.journal) : m'.IsRegistered gone := by
  -- with the same classes, the same ones descend from the class of a token
  have hdescends := World.descends_of_sameClasses hclasses
  refine
    { made := ?made
      unique := fun c c' o hc hc' =>
        h.unique c c' o ((hconstructing c o).mp hc) ((hconstructing c' o).mp hc')
      prototypes := h.prototypes_of_sameClasses hm hg.world hclasses fun c o hc =>
        Or.inl ((hconstructing c o).mp hc)
      minted := h.minted_of_sameClasses hm hg.world hclasses hminted
      justified := ?justified
      complete := ?complete
      accesses := haccesses }
  -- what is noted is what was noted, and nothing is taken away
  case made =>
    intro c o hc
    obtain ⟨hc, ho⟩ := h.made c o ((hconstructing c o).mp hc)
    exact ⟨hm.hasClass_grows hg hc, hg.world.has _ ho⟩
  case justified =>
    intro t o hlookup
    rw [hlookups] at hlookup
    obtain ⟨c, hc, ht⟩ := h.justified t o hlookup
    exact ⟨c, (hconstructing c o).mpr hc, (hdescends c t).mpr ht⟩
  case complete =>
    intro c o hc hnot t ht
    rw [hlookups]
    exact h.complete c o ((hconstructing c o).mp hc) hnot t ((hdescends c t).mp ht)

include hm' in
/-- A step that is about something else. -/
theorem aside (hlookups : ∀ t o, m'.world.lookupInstance? t o = m.world.lookupInstance? t o)
    (hclasses : m'.world.classes = m.world.classes) {new : List Event}
    (hjournal : m'.journal = new ++ m.journal) (hnew : ∀ e ∈ new, e.IsAside) :
    m'.IsRegistered gone := by
  -- What was noted meanwhile is aside, so nothing else has been noted.
  have hold : ∀ {e : Event}, ¬e.IsAside → (e ∈ m'.journal ↔ e ∈ m.journal) := by
    intro e he
    rw [hjournal, List.mem_append]
    exact or_iff_right fun hmem => he (hnew e hmem)
  refine h.frame hm hg hlookups hclasses (fun t d => hold (e := .minted t d) id)
    (fun c o => hold (e := .constructing c o) id) ?_
  rw [hjournal]
  exact (h.accesses_grows hm hm' hg.world).append fun e he past =>
    (hnew e he).isRightAccess _ past

omit hg in
/-- An access is recorded as what it is. -/
theorem access {e : Event} (he : m.Warrants gone e) (haccess : ∃ t v, e = .resolved t v ∨
    e = .rejected t v) : m.world.IsRightAccess m.journal e := by
  -- the class of a token that was minted is there
  have hminted : ∀ t : TokenId, t.index < m.world.classes.size → ∃ d, .minted t d ∈ m.journal := by
    intro t ht
    refine ⟨⟨t.index, (m.world.tokenAt t).name⟩, (h.minted _ _).mpr ⟨⟨ht, rfl⟩, ?_⟩⟩
    exact (hm.world.classes t.index ht).token
  obtain ⟨t, v, rfl | rfl⟩ := haccess
  · obtain ⟨ht, o, rfl, hlookup⟩ := he
    obtain ⟨c, hc, hdescends⟩ := h.justified t o hlookup
    exact ⟨hminted t ht, c, o, rfl, hc, hdescends⟩
  · obtain ⟨ht, hv, hnone⟩ := he
    refine ⟨hminted t ht, ?_⟩
    rintro ⟨c, o, rfl, hc, hdescends⟩
    have hlookup := h.complete c o hc (World.admits_object.mp hv).2 t hdescends
    rw [hnone o rfl] at hlookup
    cases hlookup

end Steps

section Composite

variable (h : m.IsRegistered gone) (hm : m.Coherent gone)

include h hm

theorem record {e : Event} (he : m.Warrants gone e) :
    IsRegistered gone { m with journal := e :: m.journal } := by
  obtain ⟨hm', hg⟩ := hm.keeps_journal (List.suffix_cons e m.journal)
  by_cases haside : e.IsAside
  · have hnew : ∀ x ∈ [e], x.IsAside := fun x hx => List.mem_singleton.mp hx ▸ haside
    exact h.aside hm hm' hg (fun _ _ => rfl) rfl rfl hnew
  · -- an event that is not aside is an access, minting and constructing not being recorded alone
    have haccess : ∃ t v, e = .resolved t v ∨ e = .rejected t v := by
      cases e with
      | resolved t v => exact ⟨t, v, Or.inl rfl⟩
      | rejected t v => exact ⟨t, v, Or.inr rfl⟩
      | minted => exact he.elim
      | constructing => exact he.elim
      | _ => exact absurd trivial haside
    -- an access is none of the events that the registrations are about
    have hne : ∀ {x : Event}, (∀ t v, x ≠ .resolved t v ∧ x ≠ .rejected t v) →
        (x ∈ e :: m.journal ↔ x ∈ m.journal) := by
      intro x hx
      rw [List.mem_cons, or_iff_right]
      obtain ⟨t, v, rfl | rfl⟩ := haccess
      · exact (hx t v).1
      · exact (hx t v).2
    exact h.frame hm hg (fun _ _ => rfl) rfl (fun _ _ => hne fun _ _ => ⟨nofun, nofun⟩)
      (fun _ _ => hne fun _ _ => ⟨nofun, nofun⟩) ⟨h.access hm he haccess, h.accesses⟩

omit h in
/-- The classes there are when a class has been defined. -/
theorem hasClass_define {site : ClassSite} {name : String} {w : World} {d : Class}
    (hclasses : w.classes = m.world.classes)
    (htokens : w.tokens = (m.world.mintToken site name).2.tokens) (e : ClassRef) :
    (w.addClass d).HasClass e ↔ m.world.HasClass e ∨ e = m.world.nextClass name := by
  have hsize : (w.addClass d).classes.size = m.world.classes.size + 1 := by
    rw [← hclasses]
    exact Array.size_push _
  have hat : (w.addClass d).tokenAt ⟨e.index⟩ =
      (m.world.mintToken site name).2.tokenAt ⟨e.index⟩ := by
    change w.tokens.getD _ _ = _
    rw [htokens]
    rfl
  obtain ⟨i, x⟩ := e
  rw [World.HasClass, World.HasClass, hsize, hat, World.tokenAt_mintToken, World.nextClass,
    ← hm.settled, ClassRef.mk.injEq]
  -- the class is the one added last, or one that was there before
  by_cases hi : i = m.world.classes.size
  · simp [hi]
  · rw [if_neg hi, or_iff_left fun heq => hi heq.1, Nat.lt_succ_iff_lt_or_eq, or_iff_left hi]

/-- When a class is defined, its token keeps tables for nobody. -/
theorem define {site : ClassSite} {name : String} {w : World} {d : Class}
    (halters : World.Alterations gone (m.world.mintToken site name).2 w)
    (hfits : d.Fits w w.classes.size) (hholds : ∀ n ∈ d.holds, w.Knows gone n)
    (hprototype : ¬m.world.Has (.object d.prototype)) : IsRegistered gone { m with
      world := w.addClass d
      journal := .minted ⟨m.world.tokens.size⟩ (m.world.nextClass name) :: m.journal } := by
  have hmint := World.change_mintToken hm.world site name
  obtain ⟨-, -, hclasses, htokens, hlookups⟩ := halters.keeps (hm.world.change hmint)
  -- a definition registers no instance
  have hlookup : ∀ t o, (w.addClass d).lookupInstance? t o = m.world.lookupInstance? t o :=
    fun t o => (hlookups t o).trans (World.lookupInstance?_mintToken _ _ _ _ _)
  have hclass := hasClass_define (d := d) hm hclasses htokens
  obtain ⟨hm', hg⟩ := hm.define (.minted ⟨m.world.tokens.size⟩ (m.world.nextClass name)) halters
    hfits hholds
  -- nothing was allocated, and the classes of what was allocated before have the chains they had
  have hold : ∀ {c o}, .constructing c o ∈
      .minted ⟨m.world.tokens.size⟩ (m.world.nextClass name) :: m.journal →
      .constructing c o ∈ m.journal := by
    intro c o hmem
    rcases List.mem_cons.mp hmem with heq | hmem
    · cases heq
    · exact hmem
  have hdescends : ∀ {c o} t, .constructing c o ∈ m.journal →
      ((w.addClass d).Descends c t ↔ m.world.Descends c t) := fun t hc =>
    hm.world.descends_grows hm'.world hg.world (h.made _ _ hc).1 t
  -- the class goes to the next place
  have hnew : (w.addClass d).classAt (m.world.nextClass name) = d := by
    refine (getD_push _ _ _ _).trans (if_pos ?_)
    rw [hclasses]
    rfl
  refine
    { made := ?made
      unique := fun c c' o hc hc' => h.unique c c' o (hold hc) (hold hc')
      prototypes := ?prototypes
      minted := ?minted
      justified := ?justified
      complete := ?complete
      accesses := ⟨trivial, h.accesses_grows hm hm' hg.world⟩ }
  case made =>
    intro c o hc
    obtain ⟨hc, ho⟩ := h.made c o (hold hc)
    exact ⟨hm.hasClass_grows hg hc, hg.world.has _ ho⟩
  case prototypes =>
    intro e he c hc
    replace hc := hold hc
    rcases (hclass e).mp he with he | rfl
    · rw [hg.classAt he] at hc
      exact h.prototypes e he c hc
    · -- the prototype of the new class was not there when instances were allocated
      refine hprototype (h.made c _ ?_).2
      rw [← hnew]
      exact hc
  case minted =>
    intro t e
    -- the token of the new class is the one that has been minted
    have htoken : ((w.addClass d).classAt (m.world.nextClass name)).token =
        ⟨m.world.tokens.size⟩ := by
      rw [hnew, hfits.token, hclasses]
      exact congrArg TokenId.mk hm.settled
    rw [hclass, List.mem_cons, h.minted, Event.minted.injEq]
    constructor
    · rintro (⟨rfl, rfl⟩ | ⟨he, rfl⟩)
      · exact ⟨Or.inr rfl, htoken⟩
      · exact ⟨Or.inl he, congrArg Class.token (hg.classAt he)⟩
    · rintro ⟨he | rfl, rfl⟩
      · exact Or.inr ⟨he, congrArg Class.token (hg.classAt he).symm⟩
      · exact Or.inl ⟨htoken, rfl⟩
  case justified =>
    intro t o hsome
    rw [hlookup] at hsome
    obtain ⟨c, hc, ht⟩ := h.justified t o hsome
    exact ⟨c, List.mem_cons_of_mem _ hc, (hdescends t hc).mpr ht⟩
  case complete =>
    intro c o hc hnot t ht
    rw [hlookup]
    exact h.complete c o (hold hc) hnot t ((hdescends t (hold hc)).mp ht)

/-- An instance that is allocated is registered with the tokens of its chain. -/
theorem allocate {c : ClassRef} (hc : m.world.Admits gone (.class c)) :
    IsRegistered gone (m.allocate c) := by
  obtain ⟨hbegin, hgbegin⟩ := hm.begin hc
  have henrolls := hm.enrolls_allocate hc
  have hm' := henrolls.coherent
  have hg := hgbegin.trans henrolls.grows
  have hclasses : (m.allocate c).world.classes = m.world.classes := henrolls.sameClasses
  have hdescends := World.descends_of_sameClasses hclasses
  have hlookup : ∀ t o, ((m.allocate c).world.lookupInstance? t o).isSome ↔
      (m.world.lookupInstance? t o).isSome ∨ o = m.nextObject ∧ m.world.Descends c t := by
    intro t o
    rw [henrolls.lookups, (hm.alters_begin hc).registrations.lookupInstance?]
    rfl
  obtain ⟨tokens, hjournal⟩ := henrolls.journal
  replace hjournal : (m.allocate c).journal =
      tokens.map (.registered · m.nextObject) ++ .constructing c m.nextObject :: m.journal :=
    hjournal
  -- the journal grows by the allocation and a note for each registration
  have hconstructing : ∀ d o, .constructing d o ∈ (m.allocate c).journal ↔
      (d = c ∧ o = m.nextObject) ∨ .constructing d o ∈ m.journal := by
    intro d o
    rw [hjournal]
    simp
  -- nothing was registered or allocated under the place that the object got
  have hfresh : ∀ d, .constructing d m.nextObject ∉ m.journal := fun d hd =>
    Nat.lt_irrefl m.world.objects.size (h.made d _ hd).2
  refine
    { made := ?made
      unique := ?unique
      prototypes := h.prototypes_of_sameClasses hm hg.world hclasses fun d o hd =>
        ((hconstructing d o).mp hd).symm.imp_right And.right
      minted := h.minted_of_sameClasses hm hg.world hclasses fun t d => by rw [hjournal]; simp
      justified := ?justified
      complete := ?complete
      accesses := ?accesses }
  case made =>
    intro d o hd
    rcases (hconstructing d o).mp hd with ⟨rfl, rfl⟩ | hd
    · refine ⟨hm.hasClass_grows hg hc.fits, henrolls.grows.world.has _ ?_⟩
      exact Nat.lt_of_lt_of_eq (Nat.lt_succ_self _) (Array.size_push _).symm
    · obtain ⟨hd, ho⟩ := h.made d o hd
      exact ⟨hm.hasClass_grows hg hd, hg.world.has _ ho⟩
  -- the new object has one class, and an old one has the class it had
  case unique =>
    intro d d' o hd hd'
    rw [hconstructing] at hd hd'
    rcases hd with ⟨rfl, rfl⟩ | hd
    · rcases hd' with ⟨rfl, -⟩ | hd'
      · rfl
      · exact absurd hd' (hfresh d')
    · rcases hd' with ⟨rfl, rfl⟩ | hd'
      · exact absurd hd (hfresh d)
      · exact h.unique d d' o hd hd'
  -- a lookup that succeeds is of a class of the chain, or succeeded before
  case justified =>
    intro t o hsome
    rcases (hlookup t o).mp hsome with hsome | ⟨rfl, ht⟩
    · obtain ⟨d, hd, ht⟩ := h.justified t o hsome
      exact ⟨d, (hconstructing d o).mpr (Or.inr hd), (hdescends d t).mpr ht⟩
    · exact ⟨c, (hconstructing c _).mpr (Or.inl ⟨rfl, rfl⟩), (hdescends c t).mpr ht⟩
  case complete =>
    intro d o hd hnot t ht
    rw [hlookup]
    rw [hdescends] at ht
    rcases (hconstructing d o).mp hd with ⟨rfl, rfl⟩ | hd
    · exact Or.inr ⟨rfl, ht⟩
    · exact Or.inl (h.complete d o hd hnot t ht)
  case accesses =>
    -- the allocation and its registrations are no accesses
    rw [hjournal]
    have haccesses : EachAfter (m.allocate c).world.IsRightAccess
        (.constructing c m.nextObject :: m.journal) :=
      ⟨trivial, h.accesses_grows hm hm' hg.world⟩
    refine haccesses.append fun e he past => ?_
    obtain ⟨t, -, rfl⟩ := List.mem_map.mp he
    trivial

/-- **Steps.** Registrations and the journal keep agreeing. -/
theorem step (hstep : m.Step gone m') : m'.IsRegistered gone := by
  obtain ⟨hm', hg⟩ := hstep.coherent hm
  -- only an access, a definition and an allocation are not aside
  cases hstep with
  | count depth output =>
    exact h.aside hm hm' hg (fun _ _ => rfl) rfl (List.nil_append _).symm fun _ he => nomatch he
  | alter halters =>
    exact h.aside hm hm' hg halters.registrations.lookupInstance? halters.sameClasses
      (List.nil_append _).symm fun _ he => nomatch he
  | record he => exact h.record hm he
  | define halters hfits hholds hprototype => exact h.define hm halters hfits hholds hprototype
  | allocate hc => exact h.allocate hm hc
  | construct c o =>
    exact h.aside hm hm' hg (fun _ _ => rfl) rfl (List.nil_append _).symm fun _ he => nomatch he
  | callSuper =>
    refine h.aside hm hm' hg (fun _ _ => rfl) rfl (List.singleton_append).symm fun e he => ?_
    exact List.mem_singleton.mp he ▸ trivial
  | @returnSuper c _ o =>
    have hnew : ∀ e ∈ [Event.superReturned c o, .installed c o], e.IsAside := by
      intro e he
      rcases List.mem_pair.mp he with rfl | rfl <;> trivial
    exact h.aside hm hm' hg (fun _ _ => rfl) rfl rfl hnew

/-- What is reclaimed is not registered any longer, and counts as gone. -/
theorem reclaim {roots : List Node} (hroots : ∀ n ∈ roots, m.world.Knows gone n) :
    IsRegistered (m.world.IsLost roots m.callFunction)
      { m with world := m.world.reclaim roots } := by
  have hsame := World.sameContents_reclaim m.world roots
  have hg := hsame.grows
  have hdescends := World.descends_of_sameClasses hsame.classes
  have hlookup := World.lookupInstance?_reclaim hm.world.registry.toIsMatched roots
  refine
    { made := ?made
      unique := h.unique
      prototypes := h.prototypes_of_sameClasses hm hg hsame.classes fun _ _ => Or.inl
      minted := h.minted_of_sameClasses hm hg hsame.classes fun _ _ => Iff.rfl
      justified := ?justified
      complete := ?complete
      accesses := ?accesses }
  -- nothing that was made is unmade
  case made =>
    intro c o hc
    obtain ⟨hc, ho⟩ := h.made c o hc
    exact ⟨hc.grows hm.world.tokens hg, hg.has _ ho⟩
  -- who is still registered was registered before
  case justified =>
    intro t o hsome
    rw [hlookup] at hsome
    split at hsome
    · obtain ⟨c, hc, ht⟩ := h.justified t o hsome
      exact ⟨c, hc, (hdescends c t).mpr ht⟩
    · cases hsome
  case complete =>
    intro c o hc hnot t ht
    -- an object that is not gone was alive, and such objects keep their tables
    have ho := (h.made c o hc).2
    have halive := ((World.not_isLost ho hnot).resolve_left fun heq => nomatch heq).2
    rw [hlookup, if_pos halive]
    refine h.complete c o hc ?_ t ((hdescends c t).mp ht)
    exact hm.world.not_gone_of_isAlive hroots ho halive
  case accesses =>
    exact h.accesses.imp fun e past _ hright => hright.imp fun c o t _ => hdescends c t

end Composite

end Machine.IsRegistered

/-! ### Sound machines -/

/-- What holds of the machine throughout. -/
structure Machine.Sound (gone : Node → Prop) (m : Machine) : Prop extends m.Coherent gone where
  registered : m.IsRegistered gone

namespace Machine

section Sound

variable (hm : m.Sound gone)

include hm

/-- A token keeps a table for an object that is not gone if and only if the object was allocated
for a class that has the class of the token in its chain. -/
theorem Sound.isSome_lookupInstance?_iff {d : ClassRef} (hd : m.world.HasClass d) {o : ObjectId}
    (ho : ¬gone (.object o)) :
    (m.world.lookupInstance? (m.world.classAt d).token o).isSome = true ↔
      m.world.IsAllocatedFor m.journal d (.object o) := by
  constructor
  · intro hsome
    obtain ⟨c, hc, hdescends⟩ := hm.registered.justified _ o hsome
    have hclass := (hm.registered.made c o hc).1
    exact ⟨c, o, rfl, hc, (hm.world.descends_iff hclass hd).mp hdescends⟩
  · rintro ⟨c, _, ⟨⟩, hc, hmem⟩
    have hclass := (hm.registered.made c o hc).1
    exact hm.registered.complete c o hc ho _ ((hm.world.descends_iff hclass hd).mpr hmem)

/-- **Steps.** A machine that is sound stays sound, and what was there stays there. -/
theorem Step.keeps (h : m.Step gone m') : m'.Sound gone ∧ m.Grows m' := by
  obtain ⟨hm', hg⟩ := h.coherent hm.toCoherent
  exact ⟨⟨hm', hm.registered.step hm.toCoherent h⟩, hg⟩

theorem Steps.keeps (h : m.Steps gone m') : m'.Sound gone ∧ m.Grows m' := by
  induction h with
  | refl => exact ⟨hm, .refl m⟩
  | tail _ h ih =>
    obtain ⟨hm', hg⟩ := ih
    obtain ⟨hm'', hg'⟩ := h.keeps hm'
    exact ⟨hm'', hg.trans hg'⟩

/-- What is allocated was not there before. -/
theorem Step.constructing_of_has (h : m.Step gone m') {c : ClassRef} {o : ObjectId}
    (ho : m.world.Has (.object o)) (hc : .constructing c o ∈ m'.journal) :
    .constructing c o ∈ m.journal := by
  -- Only an allocation notes that an object is constructed; all other steps note other things.
  cases h with
  | count | alter | construct => exact hc
  | record h =>
    rcases List.mem_cons.mp hc with rfl | hc
    · exact h.elim
    · exact hc
  | define | callSuper =>
    rcases List.mem_cons.mp hc with heq | hc
    · cases heq
    · exact hc
  | returnSuper =>
    rcases List.mem_cons.mp hc with heq | hc
    · cases heq
    · rcases List.mem_cons.mp hc with heq | hc
      · cases heq
      · exact hc
  | @allocate d hd =>
    obtain ⟨tokens, hjournal⟩ := (hm.enrolls_allocate hd).journal
    rw [hjournal] at hc
    rcases List.mem_append.mp hc with hc | hc
    · obtain ⟨t, -, heq⟩ := List.mem_map.mp hc
      cases heq
    · rcases List.mem_cons.mp hc with heq | hc
      · -- the object that is allocated is the next one
        cases heq
        exact absurd ho (Nat.lt_irrefl _)
      · exact hc

theorem Steps.constructing_of_has (h : m.Steps gone m') {c : ClassRef} {o : ObjectId}
    (ho : m.world.Has (.object o)) (hc : .constructing c o ∈ m'.journal) :
    .constructing c o ∈ m.journal := by
  induction h with
  | refl => exact hc
  | tail hsteps hstep ih =>
    obtain ⟨hm', hg⟩ := Steps.keeps hm hsteps
    exact ih (hstep.constructing_of_has hm' (hg.world.has _ ho) hc)

end Sound

end Machine

end Enclave
