import Enclave.Proofs.Binding
import Enclave.Proofs.Store.Alive

/-!
# Sound worlds

What holds of the world at every point of every run (`World.Sound`), and what a change has to be
like to keep it (`World.Change`, `World.Sound.change`).

While something runs, the things that were reclaimed before are `gone`. Nothing that runs knows any
of them: whatever is not gone leads only to things that are not gone. Nor can they keep each other
up, so what is found to be alive is not gone (`World.Sound.not_gone_of_isAlive`).

The other part is about scripts. Each function keeps the syntax it was made of together with the
class it was written in, and both fit: the class is the one that binding saw around the syntax
(`Closure.IsBound`). Only the constructor of a derived class calls `super(...)`, and constructors
are never values.
-/

namespace Enclave

variable {gone : Node → Prop}

namespace World

/-! ### What fits -/

/-- A class that has been defined, under its own name. -/
def HasClass (w : World) (c : ClassRef) : Prop :=
  c.index < w.classes.size ∧ c.name = (w.tokenAt ⟨c.index⟩).name

end World

/-- The home of a function: the class of a token, defined or about to be. -/
structure Home.Fits (w : World) (h : Home) : Prop where
  made : h.token.index < w.tokens.size
  classRef : h.classRef = ⟨h.token.index, (w.tokenAt h.token).name⟩
  parent : ∀ p ∈ h.parent, w.HasClass p

/-- A context of syntax fits a home: it is inside the class of the home, and where `super` may be
used the class has a parent. -/
structure World.Surrounds (w : World) (context : ScopeContext) (home : Option Home) : Prop where
  fits : ∀ h ∈ home, h.Fits w
  enclosing : context.enclosing = home.map fun h => (w.tokenAt h.token).site
  parent : context.superUse ≠ .nothing → ∃ h ∈ home, ∃ p, h.parent = some p

/-- A function whose syntax binding met in this context. -/
structure Closure.IsBound (w : World) (c : Closure) (context : ScopeContext) : Prop where
  unit : c.unit.IsBound
  covers : c.unit.CoversFunction context c.definition
  surrounds : w.Surrounds context c.home

/-- A function that was made by a script was bound. -/
def Function.Fits (w : World) (f : Function) : Prop :=
  ∀ c, f = .script c → ∃ context, c.IsBound w context

namespace World

/-- A function that can be called like any other, without a construction. -/
def IsCallable (w : World) (place : ℕ) : Prop :=
  place < w.functions.size ∧ ∀ c, w.functions.getD place default = .script c →
    ∃ context : ScopeContext, context.superUse ≠ .construction ∧ c.IsBound w context

end World

/-- A value of a script. -/
def Value.Fits (w : World) : Value → Prop
  | .function f => w.IsCallable f.index
  | .class c => w.HasClass c
  | _ => True

/-- The class at a place. -/
structure Class.Fits (w : World) (place : ℕ) (d : Class) : Prop where
  token : d.token = ⟨place⟩
  parent : ∀ p ∈ d.parent, p.index < place ∧ w.HasClass p
  unit : d.unit.IsBound
  fields : ∀ f ∈ d.fields,
    d.unit.CoversOptional (.inClass (w.tokenAt ⟨place⟩).site) f.initializer
  methods : ∀ m ∈ d.privateMethods, w.IsCallable m.2.index
  constructor : ∀ f ∈ d.constructor, f.index < w.functions.size ∧
    ∀ c, w.functions.getD f.index default = .script c →
      c.IsBound w (.inConstructor (w.tokenAt ⟨place⟩).site d.parent.isSome)

namespace World

/-! ### What is known -/

/-- A thing that is there and has not been reclaimed. -/
def Knows (gone : Node → Prop) (w : World) (n : Node) : Prop := w.Has n ∧ ¬gone n

/-- A value that may turn up in a run. -/
structure Admits (gone : Node → Prop) (w : World) (v : Value) : Prop where
  fits : v.Fits w
  known : ∀ n ∈ v.node?, w.Knows gone n

/-- One thing holds another. -/
def Holds (w : World) (m n : Node) : Prop :=
  n ∈ w.links m ∨
    ∃ owner table, n = .table table ∧ w.ownedTable? owner = some table ∧ m ∈ owner.nodes

/-- What holds of the world throughout. -/
structure Sound (gone : Node → Prop) (w : World) : Prop where
  registry : w.IsRegistry
  made : w.IsMade
  goneMade : ∀ n, gone n → w.Has n
  closed : ∀ n, w.Has n → ¬gone n → ∀ m ∈ w.links n, ¬gone m
  tables : ∀ owner table, w.ownedTable? owner = some table → (∀ m ∈ owner.nodes, ¬gone m) →
    ¬gone (.table table)
  /-- Things that are gone do not hold each other in a circle. -/
  grounded : ∀ S : Node → Prop, (∀ n, S n → gone n ∧ ∃ m, S m ∧ w.Holds m n) → ∀ n, ¬S n
  stored : ∀ n, w.Has n → ∀ v ∈ w.stored n, v.Fits w
  functions : ∀ i < w.functions.size, (w.functions.getD i default).Fits w
  classes : ∀ i < w.classes.size, (w.classes.getD i default).Fits w i
  tokens : w.classes.size ≤ w.tokens.size

/-! ### Growing -/

/-- What was there stays there, and what a thing was made with it keeps. -/
structure Grows (w w' : World) : Prop where
  has : ∀ n, w.Has n → w'.Has n
  functions : ∀ i < w.functions.size, w'.functions.getD i default = w.functions.getD i default
  classes : ∀ i < w.classes.size, w'.classes.getD i default = w.classes.getD i default
  site : ∀ t : TokenId, t.index < w.tokens.size → (w'.tokenAt t).site = (w.tokenAt t).site
  name : ∀ t : TokenId, t.index < w.tokens.size → (w'.tokenAt t).name = (w.tokenAt t).name
  statics : ∀ t : TokenId, t.index < w.tokens.size →
    (w'.tokenAt t).statics = (w.tokenAt t).statics
  fixed : ∀ n, w.Has n → w'.fixed n = w.fixed n

/-- Every world grows to itself. -/
theorem Grows.refl (w : World) : w.Grows w :=
  ⟨fun _ h => h, fun _ _ => rfl, fun _ _ => rfl, fun _ _ => rfl, fun _ _ => rfl, fun _ _ => rfl,
    fun _ _ => rfl⟩

variable {w w' w'' : World}

/-- A function that was made stays made. -/
theorem Grows.functionCount (h : w.Grows w') {i : ℕ} (hi : i < w.functions.size) :
    i < w'.functions.size :=
  h.has (.function i) hi

/-- A class that was made stays made. -/
theorem Grows.classCount (h : w.Grows w') {i : ℕ} (hi : i < w.classes.size) :
    i < w'.classes.size :=
  h.has (.class i) hi

/-- A token that was minted stays minted. -/
theorem Grows.tokenCount (h : w.Grows w') {t : TokenId} (ht : t.index < w.tokens.size) :
    t.index < w'.tokens.size :=
  h.has (.token t) ht

/-- Growing is transitive. -/
theorem Grows.trans (h : w.Grows w') (h' : w'.Grows w'') : w.Grows w'' where
  has n hn := h'.has n (h.has n hn)
  functions i hi := (h'.functions i (h.functionCount hi)).trans (h.functions i hi)
  classes i hi := (h'.classes i (h.classCount hi)).trans (h.classes i hi)
  site t ht := (h'.site t (h.tokenCount ht)).trans (h.site t ht)
  name t ht := (h'.name t (h.tokenCount ht)).trans (h.name t ht)
  statics t ht := (h'.statics t (h.tokenCount ht)).trans (h.statics t ht)
  fixed n hn := (h'.fixed n (h.has n hn)).trans (h.fixed n hn)

/-- What is known stays known. -/
theorem Knows.grows {n : Node} (h : w.Knows gone n) (hg : w.Grows w') : w'.Knows gone n :=
  ⟨hg.has n h.1, h.2⟩

end World

variable {w w' : World}

/-- A class that is defined has its token among those minted. -/
theorem World.HasClass.grows {c : ClassRef} (h : w.HasClass c)
    (htokens : w.classes.size ≤ w.tokens.size) (hg : w.Grows w') : w'.HasClass c := by
  refine ⟨hg.classCount h.1, h.2.trans (hg.name ⟨c.index⟩ ?_).symm⟩
  exact Nat.lt_of_lt_of_le h.1 htokens

section Growing

variable (htokens : w.classes.size ≤ w.tokens.size) (hg : w.Grows w')

include htokens hg

/-- A home that fits goes on fitting. -/
theorem Home.Fits.grows {h : Home} (hf : h.Fits w) : h.Fits w' where
  made := hg.tokenCount hf.made
  classRef := by rw [hg.name _ hf.made]; exact hf.classRef
  parent p hp := (hf.parent p hp).grows htokens hg

/-- A context goes on fitting its home. -/
theorem World.Surrounds.grows {context : ScopeContext} {home : Option Home}
    (h : w.Surrounds context home) : w'.Surrounds context home where
  fits x hx := (h.fits x hx).grows htokens hg
  enclosing := by
    rw [h.enclosing]
    refine Option.map_congr fun x hx => ?_
    exact (hg.site _ (h.fits x hx).made).symm
  parent := h.parent

/-- A function that is bound stays bound. -/
theorem Closure.IsBound.grows {c : Closure} {context : ScopeContext} (h : c.IsBound w context) :
    c.IsBound w' context :=
  ⟨h.unit, h.covers, h.surrounds.grows htokens hg⟩

/-- A function that fits goes on fitting. -/
theorem Function.Fits.grows {f : Function} (h : f.Fits w) : f.Fits w' := fun c hc => by
  obtain ⟨context, hbound⟩ := h c hc
  exact ⟨context, hbound.grows htokens hg⟩

/-- A function that can be called still can be. -/
theorem World.IsCallable.grows {place : ℕ} (h : w.IsCallable place) : w'.IsCallable place := by
  refine ⟨hg.functionCount h.1, fun c hc => ?_⟩
  rw [hg.functions place h.1] at hc
  obtain ⟨context, hsuper, hbound⟩ := h.2 c hc
  exact ⟨context, hsuper, hbound.grows htokens hg⟩

/-- A value that fits goes on fitting. -/
theorem Value.Fits.grows {v : Value} (h : v.Fits w) : v.Fits w' := by
  cases v with
  | function f => exact World.IsCallable.grows htokens hg h
  | «class» c => exact World.HasClass.grows h htokens hg
  | _ => trivial

/-- A class that fits its place goes on fitting it. -/
theorem Class.Fits.grows {place : ℕ} {d : Class} (hplace : place < w.tokens.size)
    (h : d.Fits w place) : d.Fits w' place := by
  -- the token of the class keeps its site, which says what its code is covered by
  have hsite := hg.site ⟨place⟩ hplace
  refine
    { token := h.token
      parent := ?parent
      unit := h.unit
      fields := ?fields
      methods := ?methods
      constructor := ?constructor }
  case parent =>
    intro p hp
    exact ⟨(h.parent p hp).1, (h.parent p hp).2.grows htokens hg⟩
  case fields =>
    intro f hf
    rw [hsite]
    exact h.fields f hf
  case methods =>
    intro m hm
    exact (h.methods m hm).grows htokens hg
  -- the constructor is a function from before, and is still made for the same code
  case constructor =>
    intro f hf
    obtain ⟨hlt, hbound⟩ := h.constructor f hf
    refine ⟨hg.functionCount hlt, fun c hc => ?_⟩
    rw [hg.functions f.index hlt] at hc
    rw [hsite]
    exact (hbound c hc).grows htokens hg

/-- A value that may turn up still may. -/
theorem World.Admits.grows {v : Value} (h : w.Admits gone v) : w'.Admits gone v :=
  ⟨h.fits.grows htokens hg, fun n hn => (h.known n hn).grows hg⟩

end Growing

namespace World

/-! ### Changes -/

/-- What a single change of the world may do: make new things out of what is known, store admitted
values in things that are not gone, and give new tables to owners. -/
structure Change (gone : Node → Prop) (w w' : World) : Prop where
  grows : w.Grows w'
  lookups : ∀ t o table, w.lookupInstance? t o = some table → w'.lookupInstance? t o = some table
  registry : w'.IsRegistry
  owned : ∀ owner table, w'.ownedTable? owner = some table →
    w.ownedTable? owner = some table ∨ ¬w.Has (.table table)
  fixed : ∀ n, w'.Has n → ¬w.Has n → ∀ m ∈ w'.fixed n, w.Knows gone m
  stored : ∀ n, w'.Has n → ∀ v ∈ w'.stored n,
    (w.Has n ∧ v ∈ w.stored n) ∨ (¬gone n ∧ w'.Admits gone v)
  functions : ∀ i, w.functions.size ≤ i → i < w'.functions.size →
    (w'.functions.getD i default).Fits w'
  classes : ∀ i, w.classes.size ≤ i → i < w'.classes.size → (w'.classes.getD i default).Fits w' i
  tokens : w'.classes.size ≤ w'.tokens.size

section Change

variable (hs : w.Sound gone) (hc : Change gone w w')

include hc

/-- A link in the changed world is an old one, or one to something known. -/
theorem Change.links {n m : Node} (hn : w'.Has n) (hm : m ∈ w'.links n) :
    (w.Has n ∧ m ∈ w.links n) ∨ w'.Knows gone m := by
  obtain hfixed | ⟨v, hv, hnode⟩ := mem_links.mp hm
  · by_cases hold : w.Has n
    · rw [hc.grows.fixed n hold] at hfixed
      exact Or.inl ⟨hold, mem_links.mpr (Or.inl hfixed)⟩
    · exact Or.inr ((hc.fixed n hn hold m hfixed).grows hc.grows)
  · obtain ⟨hold, hv⟩ | ⟨-, hadmits⟩ := hc.stored n hn v hv
    · exact Or.inl ⟨hold, mem_links.mpr (Or.inr ⟨v, hv, hnode⟩)⟩
    · exact Or.inr (hadmits.known m hnode)

include hs

/-- A thing that is gone holds no more than it did. -/
theorem Change.holds_of_gone {n m : Node} (hm : gone m) (hn : gone n) (h : w'.Holds m n) :
    w.Holds m n := by
  -- what is gone was made before the change, and nothing new is stored in it
  have hhas := hs.goneMade m hm
  obtain hlink | ⟨owner, table, rfl, howned, hmem⟩ := h
  · refine Or.inl ?_
    obtain hfixed | ⟨v, hv, hnode⟩ := mem_links.mp hlink
    · rw [hc.grows.fixed m hhas] at hfixed
      exact mem_links.mpr (Or.inl hfixed)
    · obtain ⟨-, hv⟩ | ⟨hnot, -⟩ := hc.stored m (hc.grows.has m hhas) v hv
      · exact mem_links.mpr (Or.inr ⟨v, hv, hnode⟩)
      · exact absurd hm hnot
  · refine Or.inr ⟨owner, table, rfl, ?_, hmem⟩
    -- a table with a new owner would have an owner that did not exist
    obtain hold | hnew := hc.owned owner table howned
    · exact hold
    · exact absurd (hs.goneMade _ hn) hnew

/-- **Changes.** A change keeps the world sound. -/
theorem Sound.change : w'.Sound gone where
  registry := hc.registry
  -- a link is one there was before, or leads to what is known
  made n hn m hm := by
    obtain ⟨hold, hlink⟩ | hknown := hc.links hn hm
    · exact hc.grows.has m (hs.made n hold m hlink)
    · exact hknown.1
  goneMade n hn := hc.grows.has n (hs.goneMade n hn)
  closed n hn hnot m hm := by
    obtain ⟨hold, hlink⟩ | hknown := hc.links hn hm
    · exact hs.closed n hold hnot m hlink
    · exact hknown.2
  tables owner table howned hnodes := by
    obtain hold | hnew := hc.owned owner table howned
    · exact hs.tables owner table hold hnodes
    · exact fun hgone => hnew (hs.goneMade _ hgone)
  -- nothing that is gone was given anything to hold, so a ground of it was one before
  grounded S hS := hs.grounded S fun n hn => by
    obtain ⟨hgone, m, hm, hholds⟩ := hS n hn
    exact ⟨hgone, m, hm, hc.holds_of_gone hs (hS m hm).1 hgone hholds⟩
  stored n hn v hv := by
    obtain ⟨hold, hv⟩ | ⟨-, hadmits⟩ := hc.stored n hn v hv
    · exact (hs.stored n hold v hv).grows hs.tokens hc.grows
    · exact hadmits.fits
  -- a function or a class is an old one, which has not changed, or is made to fit
  functions i hi := by
    by_cases hold : i < w.functions.size
    · rw [hc.grows.functions i hold]
      exact (hs.functions i hold).grows hs.tokens hc.grows
    · exact hc.functions i (Nat.le_of_not_lt hold) hi
  classes i hi := by
    by_cases hold : i < w.classes.size
    · rw [hc.grows.classes i hold]
      exact (hs.classes i hold).grows hs.tokens hc.grows (Nat.lt_of_lt_of_le hold hs.tokens)
    · exact hc.classes i (Nat.le_of_not_lt hold) hi
  tokens := hc.tokens

end Change

/-! ### What is known leads to what is known -/

section Known

variable (hs : w.Sound gone)

include hs

/-- What a known thing links to is known. -/
theorem Sound.knows_of_link {n m : Node} (hn : w.Knows gone n) (hm : m ∈ w.links n) :
    w.Knows gone m :=
  ⟨hs.made n hn.1 m hm, hs.closed n hn.1 hn.2 m hm⟩

/-- What is stored in a thing that is known may turn up. -/
theorem Sound.admits_of_stored {n : Node} (hn : w.Knows gone n) {v : Value}
    (hv : v ∈ w.stored n) : w.Admits gone v :=
  ⟨hs.stored n hn.1 v hv, fun _ hm =>
    hs.knows_of_link hn (mem_links.mpr (Or.inr ⟨v, hv, hm⟩))⟩

/-- The table of an owner that is known is known. -/
theorem Sound.knows_table {owner : TableOwner} {table : TableId}
    (howned : w.ownedTable? owner = some table) (hnodes : ∀ m ∈ owner.nodes, ¬gone m) :
    w.Knows gone (.table table) :=
  ⟨hs.registry.made owner table howned, hs.tables owner table howned hnodes⟩

/-- The statics of a known token are known. -/
theorem Sound.knows_statics {t : TokenId} (ht : w.Knows gone (.token t)) :
    w.Knows gone (.table (w.tokenAt t).statics) := by
  have howned : w.ownedTable? (.token t) = some (w.tokenAt t).statics := if_pos ht.1
  refine hs.knows_table howned fun n hn => ?_
  obtain rfl : n = .token t := by simpa [TableOwner.nodes] using hn
  exact ht.2

/-- The table of a known token and a known object is known. -/
theorem Sound.knows_instanceTable {t : TokenId} {o : ObjectId} {table : TableId}
    (ht : w.Knows gone (.token t)) (ho : w.Knows gone (.object o))
    (h : w.lookupInstance? t o = some table) : w.Knows gone (.table table) := by
  have howned : w.ownedTable? (.pair t o) = some table := h
  refine hs.knows_table howned fun n hn => ?_
  obtain rfl | rfl : n = .token t ∨ n = .object o := by simpa [TableOwner.nodes] using hn
  · exact ht.2
  · exact ho.2

/-- **Aliveness.** What is alive, as seen from things that are known, is not gone: the things that
are gone would have to keep each other up. -/
theorem Sound.not_gone_of_isAlive {roots : List Node} (hroots : ∀ n ∈ roots, w.Knows gone n)
    {n : Node} (hn : w.Has n) (halive : w.isAlive roots n = true) : ¬gone n := by
  obtain ⟨S, hkept, hSn⟩ :=
    (isAlive_iff hs.registry hs.made (fun r hr => (hroots r hr).1) hn).mp halive
  intro hgone
  refine hs.grounded (fun n => S n ∧ gone n) (fun n ⟨hSn, hgone⟩ => ⟨hgone, ?_⟩) n ⟨hSn, hgone⟩
  obtain ⟨-, hroot | ⟨m, hSm, hlink⟩ | ⟨owner, table, rfl, howned, hnodes⟩⟩ := hkept n hSn
  · exact absurd hgone (hroots n hroot).2
  · refine ⟨m, ⟨hSm, ?_⟩, Or.inl hlink⟩
    by_contra hnot
    exact hs.closed m (hkept m hSm).1 hnot n hlink hgone
  · -- one of the owner's things is gone, else the table would not be
    by_contra hnone
    push Not at hnone
    refine hs.tables owner table howned (fun m hm hgone' => ?_) hgone
    exact hnone m ⟨hnodes m hm, hgone'⟩ (Or.inr ⟨owner, table, rfl, howned, hm⟩)

end Known

/-! ### Values and what they refer to -/

/-- A value that refers to nothing may turn up when it fits. -/
theorem admits_of_node?_eq_none {v : Value} (hv : v.node? = none) (hfits : v.Fits w) :
    w.Admits gone v :=
  ⟨hfits, fun n hn => by rw [hv] at hn; cases hn⟩

@[simp] theorem admits_undefined : w.Admits gone .undefined :=
  admits_of_node?_eq_none rfl trivial

@[simp] theorem admits_null : w.Admits gone .null := admits_of_node?_eq_none rfl trivial

@[simp] theorem admits_bool (b : Bool) : w.Admits gone (.bool b) :=
  admits_of_node?_eq_none rfl trivial

@[simp] theorem admits_number (n : Number) : w.Admits gone (.number n) :=
  admits_of_node?_eq_none rfl trivial

@[simp] theorem admits_string (s : String) : w.Admits gone (.string s) :=
  admits_of_node?_eq_none rfl trivial

@[simp] theorem admits_symbol (s : Symbol) : w.Admits gone (.symbol s) :=
  admits_of_node?_eq_none rfl trivial

/-- An object may turn up exactly when it is known. -/
theorem admits_object {o : ObjectId} : w.Admits gone (.object o) ↔ w.Knows gone (.object o) :=
  ⟨fun h => h.known _ rfl, fun h => ⟨trivial, fun n hn => by cases hn; exact h⟩⟩

/-- A value that may be missing may turn up, with `undefined` in its place. -/
theorem admits_getD {v? : Option Value} (h : ∀ v ∈ v?, w.Admits gone v) :
    w.Admits gone (v?.getD .undefined) := by
  cases v? with
  | none => exact admits_undefined
  | some v => exact h v rfl

/-- The first of values that may turn up may turn up, with `undefined` if there is none. -/
theorem admits_headD {values : List Value} (h : ∀ v ∈ values, w.Admits gone v) :
    w.Admits gone (values.headD .undefined) := by
  cases values with
  | nil => exact admits_undefined
  | cons v values => exact h v List.mem_cons_self

/-- What values that may turn up refer to is known. -/
theorem knows_of_mem_nodesOf {values : List Value} (h : ∀ v ∈ values, w.Admits gone v) :
    ∀ n ∈ nodesOf values, w.Knows gone n := by
  intro n hn
  obtain ⟨v, hv, hnode⟩ := List.mem_filterMap.mp hn
  exact (h v hv).known n hnode

end World

end Enclave
