import Enclave.Eval.Machine
import Enclave.Proofs.Run.Changes

/-!
# Coherent machines

What holds of the parts of the machine at every point of every run (`Machine.Coherent`), and what
has to be kept of it while something is evaluated (`Machine.Grows`).

An instance that a class may work on is registered with the tokens of the class and of all its
ancestors (`World.IsInstance`). It is what `super(...)` and the constructors of a chain are given.
-/

namespace Enclave

variable {gone : Node → Prop}

namespace World

variable {w w' : World}

/-! ### Names and properties -/

section Reading

variable (hs : w.Sound gone)

include hs

/-- The scopes around a scope are known with it. -/
theorem Sound.knows_of_mem_path {s s' : ScopeId} (hscope : w.Knows gone (.scope s))
    (h : s' ∈ w.scopes.path s) : w.Knows gone (.scope s') := by
  refine of_mem_lineage (p := fun s => w.Knows gone (.scope s)) (fun a b ha hparent => ?_) hscope h
  refine hs.knows_of_link ha (mem_links.mpr (Or.inl ?_))
  simp [fixed, hparent]

/-- What a known scope sees under a name may turn up. -/
theorem Sound.admits_of_lookup {s : ScopeId} (hscope : w.Knows gone (.scope s)) {name : String}
    {v : Value} (h : w.scopes.lookup s name = some v) : w.Admits gone v := by
  obtain ⟨x, hx, rfl⟩ := Option.map_eq_some_iff.mp h
  obtain ⟨s', hs', hfind⟩ := List.exists_of_findSome?_eq_some hx
  exact hs.admits_of_stored (hs.knows_of_mem_path hscope hs') (Scope.mem_values_of_find? hfind)

/-- A property may be found in a prototype, which is known with the object. -/
theorem Sound.admits_of_getProperty? {o : ObjectId} (ho : w.Knows gone (.object o))
    {key : PropertyKey} {v : Value} (h : w.getProperty? o key = some v) : w.Admits gone v := by
  obtain ⟨o', hmem, hown⟩ := List.exists_of_findSome?_eq_some h
  have ho' : w.Knows gone (.object o') := by
    refine of_mem_lineage (p := fun o => w.Knows gone (.object o)) (fun a b ha hproto => ?_) ho hmem
    refine hs.knows_of_link ha (mem_links.mpr (Or.inl ?_))
    simp [fixed, hproto]
  exact hs.admits_of_stored ho' (SlotTable.mem_values_of_get? hown)

end Reading

/-! ### Chains of classes -/

section Chain

variable (hs : w.Sound gone)

include hs

/-- A class that is there fits its place. -/
theorem Sound.classAt_fits {c : ClassRef} (hc : w.HasClass c) : (w.classAt c).Fits w c.index :=
  hs.classes c.index hc.1

/-- The parent of a class is older. -/
theorem Sound.parent_lt (c p : ClassRef) (h : (w.classAt c).parent = some p) :
    p.index < c.index := by
  by_cases hc : c.index < w.classes.size
  · exact ((hs.classes c.index hc).parent p h).1
  · rw [classAt, getD_of_size_le (Nat.le_of_not_lt hc)] at h
    cases h

omit hs in
/-- The chain of a class without parent is the class alone. -/
theorem classChain_of_none {c : ClassRef} (h : (w.classAt c).parent = none) :
    w.classChain c = [c] :=
  lineage_of_none h _

/-- The chain of a class with a parent is the class and then the parent's chain. -/
theorem Sound.classChain_of_some {c p : ClassRef} (h : (w.classAt c).parent = some p) :
    w.classChain c = c :: w.classChain p := by
  have hlt := hs.parent_lt c p h
  refine (lineage_of_some h _).trans (congrArg (c :: ·) ?_)
  exact lineage_eq_of_rank (·.index) hs.parent_lt p _ _ hlt (Nat.lt_succ_self _)

/-- The parent of a class is a class. -/
theorem Sound.hasClass_parent {c p : ClassRef} (hc : w.HasClass c)
    (h : (w.classAt c).parent = some p) : w.HasClass p :=
  ((hs.classAt_fits hc).parent p h).2

/-- What holds of a class without a parent, and passes from the parent to the class, holds of every
class. -/
theorem Sound.class_induction {motive : ClassRef → Prop}
    (base : ∀ c, w.HasClass c → (w.classAt c).parent = none → motive c)
    (derived : ∀ c p, w.HasClass c → (w.classAt c).parent = some p → w.HasClass p → motive p →
      motive c) {c : ClassRef} (hc : w.HasClass c) : motive c := by
  induction h : c.index using Nat.strong_induction_on generalizing c with
  | _ n ih =>
    subst h
    cases hparent : (w.classAt c).parent with
    | none => exact base c hc hparent
    | some p =>
      have hp := hs.hasClass_parent hc hparent
      exact derived c p hc hparent hp (ih p.index (hs.parent_lt c p hparent) hp rfl)

omit hs in
/-- A class is in its own chain. -/
theorem mem_classChain_self (c : ClassRef) : c ∈ w.classChain c := by
  unfold classChain
  rw [lineage]
  exact List.mem_cons_self

/-- All in the chain of a class are classes. -/
theorem Sound.hasClass_of_mem {c d : ClassRef} (hc : w.HasClass c) (hd : d ∈ w.classChain c) :
    w.HasClass d :=
  of_mem_lineage (fun _ _ ha h => hs.hasClass_parent ha h) hc hd

/-- What a class holds is known with it. -/
theorem Sound.knows_of_mem_classHolds {c : ClassRef} (hc : w.Admits gone (.class c)) {n : Node}
    (hn : n ∈ (w.classAt c).holds) : w.Knows gone n :=
  hs.knows_of_link (hc.known _ rfl) (mem_links.mpr (Or.inl hn))

/-- The token of a class that may turn up is known. -/
theorem Sound.knows_classToken {c : ClassRef} (hc : w.Admits gone (.class c)) :
    w.Knows gone (.token (w.classAt c).token) :=
  hs.knows_of_mem_classHolds hc (by simp [Class.holds])

/-- The prototype of a class that may turn up is known. -/
theorem Sound.knows_prototype {c : ClassRef} (hc : w.Admits gone (.class c)) :
    w.Knows gone (.object (w.classAt c).prototype) :=
  hs.knows_of_mem_classHolds hc (by simp [Class.holds])

/-- The parent of a class that may turn up may turn up. -/
theorem Sound.admits_parent {c p : ClassRef} (hc : w.Admits gone (.class c))
    (h : (w.classAt c).parent = some p) : w.Admits gone (.class p) := by
  refine ⟨hs.hasClass_parent hc.fits h, fun n hn => ?_⟩
  cases hn
  exact hs.knows_of_mem_classHolds hc (by simp [Class.holds, h])

/-- A chain stays as it is. -/
theorem Sound.classChain_grows (hs' : w'.Sound gone) (hg : w.Grows w') {c : ClassRef}
    (hc : w.HasClass c) : w'.classChain c = w.classChain c := by
  refine hs.class_induction (motive := fun c => w'.classChain c = w.classChain c)
    (fun c hc h => ?_) (fun c p hc h hp ih => ?_) hc
  · have hsame : w'.classAt c = w.classAt c := hg.classes c.index hc.1
    rw [classChain_of_none h, classChain_of_none (hsame ▸ h)]
  · have hsame : w'.classAt c = w.classAt c := hg.classes c.index hc.1
    rw [hs.classChain_of_some h, hs'.classChain_of_some (hsame ▸ h), ih]

end Chain

/-- An object that is registered with the tokens of a class and of all its ancestors. -/
structure IsInstance (gone : Node → Prop) (w : World) (c : ClassRef) (o : ObjectId) : Prop where
  known : w.Knows gone (.object o)
  registered : ∀ d ∈ w.classChain c, (w.lookupInstance? (w.classAt d).token o).isSome

/-- An instance of a class stays one as long as nothing is unregistered. -/
theorem IsInstance.grows {c : ClassRef} {o : ObjectId} (hs : w.Sound gone) (hs' : w'.Sound gone)
    (hg : w.Grows w') (hlookups : ∀ t o table, w.lookupInstance? t o = some table →
      w'.lookupInstance? t o = some table) (hc : w.HasClass c) (h : w.IsInstance gone c o) :
    w'.IsInstance gone c o := by
  refine ⟨h.known.grows hg, fun d hd => ?_⟩
  rw [hs.classChain_grows hs' hg hc] at hd
  obtain ⟨table, htable⟩ := Option.isSome_iff_exists.mp (h.registered d hd)
  have hsame : w'.classAt d = w.classAt d := hg.classes d.index (hs.hasClass_of_mem hc hd).1
  rw [hsame, hlookups _ _ _ htable]
  rfl

/-- An instance of a class is an instance of its parent. -/
theorem IsInstance.parent {c p : ClassRef} {o : ObjectId} (hs : w.Sound gone)
    (hp : (w.classAt c).parent = some p) (h : w.IsInstance gone c o) : w.IsInstance gone p o :=
  ⟨h.known, fun d hd => h.registered d (by
    rw [hs.classChain_of_some hp]
    exact List.mem_cons_of_mem _ hd)⟩

end World

/-- A class whose instances are initialized by a constructor of its own that hands over to the
parent. -/
def Class.HandsOver (d : Class) : Prop := d.parent.isSome ∧ d.constructor.isSome

namespace Machine

variable {m m' m'' : Machine}

/-- The record of a construction. -/
def constructionAt (m : Machine) (id : ConstructionId) : Construction :=
  m.constructions.getD id.index default

/-- What holds throughout of the world, the classes and the constructions of the machine. That its
journal tells the truth about instances comes on top of it. -/
structure Coherent (gone : Node → Prop) (m : Machine) : Prop where
  world : m.world.Sound gone
  /-- No class definition is half evaluated. -/
  settled : m.world.classes.size = m.world.tokens.size
  root : m.world.Knows gone (.scope Scopes.rootId)
  callKnown : m.world.Knows gone m.callFunction.node
  callFunction : m.world.functionAt m.callFunction = .native .call
  /-- Every call of the parent's constructor was noted. -/
  superCalls : ∀ id : ConstructionId, id.index < m.constructions.size →
    (m.constructionAt id).superCalled = true →
    .superCalled (m.constructionAt id).classRef (m.constructionAt id).inst ∈ m.journal

/-- What was there stays there, and what happened has happened. -/
structure Grows (m m' : Machine) : Prop where
  world : m.world.Grows m'.world
  lookups : ∀ t o table, m.world.lookupInstance? t o = some table →
    m'.world.lookupInstance? t o = some table
  constructions : ∀ id : ConstructionId, id.index < m.constructions.size →
    id.index < m'.constructions.size ∧
    (m'.constructionAt id).classRef = (m.constructionAt id).classRef ∧
    (m'.constructionAt id).inst = (m.constructionAt id).inst
  journal : m.journal <:+ m'.journal

/-- Every machine grows to itself. -/
theorem Grows.refl (m : Machine) : m.Grows m :=
  ⟨.refl _, fun _ _ _ h => h, fun _ h => ⟨h, rfl, rfl⟩, List.suffix_refl _⟩

/-- Growing is transitive. -/
theorem Grows.trans (h : m.Grows m') (h' : m'.Grows m'') : m.Grows m'' := by
  refine ⟨h.world.trans h'.world, fun t o table hl => h'.lookups t o table (h.lookups t o table hl),
    fun i hi => ?_, h.journal.trans h'.journal⟩
  obtain ⟨hi', hclass, hinst⟩ := h.constructions i hi
  obtain ⟨hi'', hclass', hinst'⟩ := h'.constructions i hi'
  exact ⟨hi'', hclass'.trans hclass, hinst'.trans hinst⟩

/-- What was noted stays noted. -/
theorem Grows.mem (h : m.Grows m') {e : Event} (he : e ∈ m.journal) : e ∈ m'.journal :=
  h.journal.subset he

/-- Classes do not change while a machine grows. -/
theorem Grows.classAt (h : m.Grows m') {c : ClassRef} (hc : m.world.HasClass c) :
    m'.world.classAt c = m.world.classAt c :=
  h.world.classes c.index hc.1

/-- A constructor at work on an instance of its class, which hands over to the parent. -/
structure KnowsConstruction (gone : Node → Prop) (m : Machine) (id : ConstructionId) : Prop where
  made : id.index < m.constructions.size
  classKnown : m.world.Admits gone (.class (m.constructionAt id).classRef)
  handsOver : (m.world.classAt (m.constructionAt id).classRef).HandsOver
  inst : m.world.IsInstance gone (m.constructionAt id).classRef (m.constructionAt id).inst

section Grows

variable (hm : m.Coherent gone) (hm' : m'.Coherent gone) (hg : m.Grows m')

include hm hg

/-- A class stays a class while a machine grows. -/
theorem Coherent.hasClass_grows {c : ClassRef} (h : m.world.HasClass c) : m'.world.HasClass c :=
  h.grows hm.world.tokens hg.world

/-- A value that may turn up still may. -/
theorem Coherent.admits_grows {v : Value} (h : m.world.Admits gone v) : m'.world.Admits gone v :=
  h.grows hm.world.tokens hg.world

include hm'

/-- An instance of a class stays one. -/
theorem Coherent.isInstance_grows {c : ClassRef} {o : ObjectId} (hc : m.world.HasClass c)
    (h : m.world.IsInstance gone c o) : m'.world.IsInstance gone c o :=
  h.grows hm.world hm'.world hg.world hg.lookups hc

/-- A construction that is known stays known, with its class and its instance. -/
theorem KnowsConstruction.grows {id : ConstructionId} (h : m.KnowsConstruction gone id) :
    m'.KnowsConstruction gone id := by
  obtain ⟨hmade, hclass, hinst⟩ := hg.constructions id h.made
  have hfits := h.classKnown.fits
  refine ⟨hmade, ?_, ?_, ?_⟩
  · rw [hclass]
    exact hm.admits_grows hg h.classKnown
  · rw [hclass, hg.classAt hfits]
    exact h.handsOver
  · rw [hclass, hinst]
    exact hm.isInstance_grows hm' hg hfits h.inst

end Grows

end Machine

end Enclave
