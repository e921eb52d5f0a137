import Enclave.Proofs.Eval.Relations
import Enclave.Proofs.Store.Refill

/-!
# Operations on refilled machines

A piece is *blind* to the tables of a token on a machine if it spares them and does on a machine
with other contents in some of them what it does on the machine itself (`Eval.Blind`). Operations
are blind that reach no table of the token: those that leave nothing to the evaluator
(`Atom.blind`), and those of constructions and class definitions.
-/

namespace Enclave

variable {t : TokenId} {contents : Contents}

/-! ### Tables that are spared -/

namespace World

variable {w w' w'' : World} {table : TableId}

/-- The tables of a token stay what they are. -/
structure Spares (t : TokenId) (w w' : World) : Prop where
  owned : ∀ a : TableOwner, a.tokenId = t → w'.ownedTable? a = w.ownedTable? a
  kept : ∀ (a : TableOwner) (table : TableId), a.tokenId = t → w.ownedTable? a = some table →
    w'.tableAt table = w.tableAt table

/-- Nothing changed spares all tables. -/
theorem Spares.refl (t : TokenId) (w : World) : w.Spares t w := ⟨fun _ _ => rfl, fun _ _ _ _ => rfl⟩

/-- Sparing is transitive. -/
theorem Spares.trans (h : w.Spares t w') (h' : w'.Spares t w'') : w.Spares t w'' where
  owned a ha := (h'.owned a ha).trans (h.owned a ha)
  kept a table ha howned := by
    rw [h'.kept a table ha ((h.owned a ha).trans howned), h.kept a table ha howned]

/-- Refilling leaves every table with its owner. -/
theorem ownedTable?_refill (w : World) (contents : Contents) (a : TableOwner) :
    (w.refill contents).ownedTable? a = w.ownedTable? a := by
  cases a <;> rfl

/-- Tables that are spared are spared as well if they have other contents. -/
theorem Spares.refill (h : w.Spares t w') (hw : w.IsRegistry) (hw' : w'.IsRegistry) :
    (w.refill contents).Spares t (w'.refill contents) := by
  refine ⟨fun a ha => ?_, fun a table ha howned => ?_⟩
  · rw [ownedTable?_refill, ownedTable?_refill, h.owned a ha]
  · rw [ownedTable?_refill] at howned
    have howned' := (h.owned a ha).trans howned
    rw [tableAt_refill, tableAt_refill, if_pos (hw.made a table howned),
      if_pos (hw'.made a table howned'), h.kept a table ha howned]

/-- Where nobody is registered, tables are spared that are not changed. -/
theorem SameRegistrations.spares (h : SameRegistrations w w')
    (hkept : ∀ (a : TableOwner) (table : TableId), a.tokenId = t → w.ownedTable? a = some table →
      w'.tableAt table = w.tableAt table) : w.Spares t w' :=
  ⟨fun a _ => h.ownedTable? a, hkept⟩

/-- A change that leaves registrations and tables spares them. -/
theorem SameRegistrations.spares_of_eq (h : SameRegistrations w w')
    (htables : w'.tables = w.tables) : w.Spares t w' :=
  h.spares fun _ table _ _ => congrArg (·.getD table.index default) htables

/-- A change of properties leaves the registrations. -/
theorem sameRegistrations_properties (w : World) (o : ObjectId) (g : SlotTable → SlotTable) :
    SameRegistrations w
      (w.updateObject o fun object => { object with properties := g object.properties }) :=
  sameRegistrations_updateObject w o
    (f := fun object => { object with properties := g object.properties }) fun _ => rfl

/-- The table belongs to another token. -/
def IsElsewhere (t : TokenId) (w : World) (table : TableId) : Prop :=
  ∃ a : TableOwner, a.tokenId ≠ t ∧ w.ownedTable? a = some table

/-- A table elsewhere is none of the token's. -/
theorem IsElsewhere.ne (h : w.IsElsewhere t table) (hw : w.IsRegistry) {a : TableOwner}
    {table' : TableId} (ha : a.tokenId = t) (howned : w.ownedTable? a = some table') :
    table ≠ table' := by
  obtain ⟨b, hb, hother⟩ := h
  rintro rfl
  exact hb (hw.apart b a table hother howned ▸ ha)

/-- Contents for tables of a token are for no other tables. -/
theorem IsElsewhere.none (h : w.IsElsewhere t table) (hw : w.IsRegistry)
    (hcontents : contents.IsOf t w) : contents table = none := by
  by_contra hsome
  obtain ⟨a, ha, howned⟩ := hcontents table hsome
  exact h.ne hw ha howned rfl

/-- A table stays elsewhere while registrations stay. -/
theorem IsElsewhere.of_same (h : w.IsElsewhere t table) (hsame : SameRegistrations w w') :
    w'.IsElsewhere t table := by
  obtain ⟨a, ha, howned⟩ := h
  exact ⟨a, ha, (hsame.ownedTable? a).trans howned⟩

/-- A change of a table elsewhere spares the token's. -/
theorem spares_modify (hw : w.IsRegistry) (h : w.IsElsewhere t table)
    (f : SlotTable → SlotTable) :
    w.Spares t { w with tables := w.tables.modify table.index f } := by
  refine (sameRegistrations_tables w table f).spares fun a table' ha howned => ?_
  rw [tableAt_modify, if_neg fun heq => h.ne hw ha howned heq.1]

/-- Nothing waits for a table that is yet to be made. -/
theorem contents_next (hw : w.IsRegistry) (hcontents : contents.IsOf t w) :
    contents ⟨w.tables.size⟩ = none := by
  by_contra hsome
  obtain ⟨a, -, howned⟩ := hcontents _ hsome
  exact absurd (hw.made a _ howned) (Nat.lt_irrefl _)

/-- Minting a token spares the tables of the others. -/
theorem spares_mintToken (hw : w.IsRegistry) (ht : t.index < w.tokens.size) (site : ClassSite)
    (name : String) : w.Spares t (w.mintToken site name).2 := by
  refine ⟨fun a ha => ?_, fun a table ha howned => ?_⟩
  · -- The new statics belong to the new token, and their table is added behind all others.
    rw [ownedTable?_mintToken, if_neg]
    rintro rfl
    obtain rfl : (⟨w.tokens.size⟩ : TokenId) = t := ha
    exact Nat.lt_irrefl _ ht
  · have hmade := hw.made a table howned
    change (w.tables.push .empty).getD table.index default = _
    rw [getD_push, if_neg (Nat.ne_of_lt hmade)]
    rfl

/-- Registering with another token spares the token's tables. -/
theorem spares_registerInstance (hw : w.IsRegistry) {t' : TokenId} {o : ObjectId} (hne : t' ≠ t)
    (ht : t'.index < w.tokens.size) (ho : o.index < w.objects.size) :
    w.Spares t (w.registerInstance t' o).2 := by
  cases hlookup : w.lookupInstance? t' o with
  | some table =>
    rw [registerInstance_of_some hlookup]
    exact .refl t w
  | none =>
    refine ⟨fun a ha => ?_, fun a table ha howned => ?_⟩
    · rw [ownedTable?_registerInstance hw ht ho hlookup, if_neg]
      rintro rfl
      exact hne ha
    · -- the new table is the last one, so it is none of those owned already
      have hmade := hw.made a table howned
      rw [registerInstance_of_none hlookup]
      change (w.tables.push .empty).getD table.index default = _
      rw [getD_push, if_neg (Nat.ne_of_lt hmade)]
      rfl

end World

/-- Contents for tables of a token are that in every extension. -/
theorem Contents.IsOf.extends {w w' : World} (h : contents.IsOf t w) (hext : w.Extends w') :
    contents.IsOf t w' := fun table hsome => by
  obtain ⟨a, ha, howned⟩ := h table hsome
  exact ⟨a, ha, hext.owners a table howned⟩

/-! ### Refilled machines -/

/-- The machine with other contents in some tables. -/
def Machine.refill (m : Machine) (contents : Contents) : Machine :=
  { m with world := m.world.refill contents }

namespace Eval

variable {α β : Type} {m : Machine} {x : Eval α} {f : α → Eval β}

/-- The same end, on a refilled machine. -/
def refilled (contents : Contents) : EStateM.Result Stop Machine α → EStateM.Result Stop Machine α
  | .ok a m => .ok a (m.refill contents)
  | .error stop m => .error stop (m.refill contents)

/-- A piece spares the tables of a token, and does the same whatever is in them. -/
structure Blind (t : TokenId) (contents : Contents) (x : Eval α) (m : Machine) : Prop where
  same : x (m.refill contents) = refilled contents (x m)
  spares : m.world.Spares t (final x m).world

/-- A value at hand reaches no table. -/
theorem Blind.pure (a : α) : Blind t contents (Pure.pure a) m := ⟨rfl, .refl t m.world⟩

/-- In sequence: the rest has to be blind where the first piece left off. -/
theorem Blind.bind (hx : Blind t contents x m)
    (hf : ∀ a m', x m = .ok a m' → Blind t contents (f a) m') : Blind t contents (x >>= f) m := by
  have hsame := hx.same
  have hspares := hx.spares
  -- the refilled run takes the same turn as the plain one, with the same result
  cases hrun : x m with
  | ok a m' =>
    rw [hrun] at hsame
    rw [final_of_ok hrun] at hspares
    obtain ⟨hsame', hspares'⟩ := hf a m' hrun
    have hbind : (x >>= f) m = f a m' := by
      change EStateM.bind x f m = _
      rw [EStateM.bind, hrun]
    refine ⟨?_, ?_⟩
    · change EStateM.bind x f (m.refill contents) = _
      rw [EStateM.bind, hsame, hbind]
      exact hsame'
    · rw [final, hbind]
      exact hspares.trans hspares'
  -- an error is passed on by both, with the spares that were there
  | error stop m' =>
    rw [hrun] at hsame
    rw [final_of_error hrun] at hspares
    have hbind : (x >>= f) m = .error stop m' := by
      change EStateM.bind x f m = _
      rw [EStateM.bind, hrun]
    refine ⟨?_, ?_⟩
    · change EStateM.bind x f (m.refill contents) = _
      rw [EStateM.bind, hsame, hbind]
      rfl
    · rw [final_of_error hbind]
      exact hspares

/-- A look at the world, apart from its tables. -/
theorem Blind.world {k : World → Eval α} (hk : k (m.world.refill contents) = k m.world)
    (h : Blind t contents (k m.world) m) : Blind t contents (Eval.world >>= k) m := by
  refine ⟨?_, h.spares⟩
  change k (m.world.refill contents) (m.refill contents) = _
  rw [hk]
  exact h.same

/-- A change that commutes with refilling and spares the tables is blind. -/
theorem blind_changeWorld {g : World → World}
    (hsame : g (m.world.refill contents) = (g m.world).refill contents)
    (hspares : m.world.Spares t (g m.world)) : Blind t contents (changeWorld g) m := by
  refine ⟨?_, hspares⟩
  change EStateM.Result.ok () { m with world := g (m.world.refill contents) } = _
  rw [hsame]
  rfl

/-- A change with a value that commutes with refilling and spares the tables is blind. -/
theorem blind_onWorld {g : World → α × World}
    (hsame : g (m.world.refill contents) = ((g m.world).1, (g m.world).2.refill contents))
    (hspares : m.world.Spares t (g m.world).2) : Blind t contents (onWorld g) m := by
  refine ⟨?_, hspares⟩
  change EStateM.Result.ok (g (m.world.refill contents)).1
    { m with world := (g (m.world.refill contents)).2 } = _
  rw [hsame]
  rfl

end Eval

/-! ### Single operations -/

/-- The class of a home is there, to be the receiver of a static method. -/
def Eval.isThere (w : World) (context : Context) (home : Home) : Bool :=
  holdsItself w home.classRef || w.isAlive context.nodes home.classRef.node

/-- Whether the class of the running function is there does not depend on what is refilled. -/
def Eval.sameClass (contents : Contents) (m : Machine) (context : Context) : Bool :=
  context.frame.home.all fun home =>
    isThere (m.world.refill contents) context home = isThere m.world context home

/-- Everything may run but the code of one token; and a function takes its class only where this is
the same on the refilled machine. -/
def Terms.outside (t : TokenId) (contents : Contents) : Terms where
  may := (· ≠ t)
  code _ := True
  works _ := True
  loops := True
  constructs := True
  minted := t.index + 1
  takes m context := Eval.sameClass contents m context = true

/-- A table that may be reached outside of a token is elsewhere. -/
theorem Terms.isElsewhere {w : World} {table : TableId}
    (h : (Terms.outside t contents).Reaches w table) : w.IsElsewhere t table := h

namespace Eval

variable {α : Type} {m : Machine} {x : Eval α} {q : α → Machine → Prop}

/-- What a token is asked for does not depend on what is in its tables. -/
theorem blind_instanceTable (t' : TokenId) (target : Value) :
    Blind t contents (instanceTable t' target) m := by
  cases target with
  | object o =>
    -- refilling changes what tables hold, and not who they are registered for
    have hsame : (m.refill contents).world.lookupInstance? t' o = m.world.lookupInstance? t' o :=
      rfl
    cases hlookup : m.world.lookupInstance? t' o with
    | some table =>
      have hrun := instanceTable_of_some hlookup
      refine ⟨?_, by rw [final_of_ok hrun]; exact .refl t m.world⟩
      rw [hrun, instanceTable_of_some (hsame.trans hlookup)]
      rfl
    | none =>
      have hrun := instanceTable_of_none hlookup
      refine ⟨?_, by rw [final_of_error hrun]; exact .refl t m.world⟩
      rw [hrun, instanceTable_of_none (hsame.trans hlookup)]
      rfl
  | _ => exact ⟨rfl, .refl t m.world⟩

/-- Whether a class is there decides what it is taken for. -/
theorem blind_classValue {context : Context} {home : Home} (hhome : home ∈ context.frame.home)
    (h : sameClass contents m context = true) : Blind t contents (classValue context home) m := by
  -- Whether the class is still there is asked of the whole heap, so it has to be the same in both.
  have hsame : isThere (m.world.refill contents) context home = isThere m.world context home := by
    rw [sameClass, Option.mem_def.mp hhome] at h
    exact of_decide_eq_true h
  refine ⟨?_, ?_⟩
  · rw [classValue_eq, classValue_eq]
    change EStateM.Result.ok (if isThere (m.world.refill contents) context home then _ else _) _ = _
    rw [hsame]
    rfl
  · rw [final_of_ok (classValue_eq context home m)]
    exact .refl t m.world

/-- An operation that reaches no table of the token is blind. -/
theorem Atom.blind (h : Atom (.outside t contents) m x q) (hm : m.IsTidy)
    (hcontents : contents.IsOf t m.world) : Blind t contents x m := by
  have hregistry := hm.world.registry
  -- what leaves tables, tokens and objects alone spares the refilled table
  have hother : ∀ {w : World}, w.tables = m.world.tables → w.tokens = m.world.tokens →
      w.objects = m.world.objects → m.world.Spares t w := by
    intro w htables htokens hobjects
    refine World.SameRegistrations.spares_of_eq ⟨htokens, fun o => ?_, by rw [htables]⟩ htables
    rw [World.objectAt, hobjects]
    rfl
  have hobject : ∀ (o : ObjectId) (g : SlotTable → SlotTable),
      m.world.Spares t (m.world.updateObject o fun object =>
        { object with properties := g object.properties }) := fun o g =>
    (World.sameRegistrations_properties m.world o g).spares_of_eq rfl
  -- a slot is only ever set or deleted in a table elsewhere, which is not refilled
  cases h with
  | declare s name isMutable hv => exact blind_changeWorld rfl (hother rfl rfl rfl)
  | @setProperty o key v hv => exact blind_changeWorld rfl (hobject o (·.set key v))
  | deleteProperty o key => exact blind_changeWorld rfl (hobject o (·.delete key))
  | setSlot ht key hv =>
    have helsewhere := Terms.isElsewhere ht
    exact blind_changeWorld (World.setSlot_refill (helsewhere.none hregistry hcontents) key _)
      (World.spares_modify hregistry helsewhere _)
  | deleteSlot ht key =>
    have helsewhere := Terms.isElsewhere ht
    exact blind_changeWorld (World.deleteSlot_refill (helsewhere.none hregistry hcontents) key)
      (World.spares_modify hregistry helsewhere _)
  | newObject proto =>
    exact blind_onWorld rfl ((World.sameRegistrations_newObject _ _).spares_of_eq rfl)
  | childScope parent => exact blind_onWorld rfl (hother rfl rfl rfl)
  | newSymbol description => exact blind_onWorld rfl (hother rfl rfl rfl)
  | makeFunction unit scope hcode hhome => exact blind_onWorld rfl (hother rfl rfl rfl)
  | callFunction => exact ⟨rfl, .refl t m.world⟩
  | instanceTable hmay target => exact blind_instanceTable _ target
  | classValue hc hhome htakes => exact blind_classValue hhome htakes
  | print args => exact ⟨rfl, .refl t m.world⟩

/-! ### Class definitions -/

section ClassDefinition

variable {parts : ClassParts}

/-- Making a function is blind. -/
theorem blind_makeFunction (unit : CompiledUnit) (definition : FunctionDef) (scope : ScopeId)
    (home : Option Home) : Blind t contents (makeFunction unit definition scope home) m :=
  blind_onWorld rfl (World.SameRegistrations.spares_of_eq ⟨rfl, fun _ => rfl, Nat.le_refl _⟩ rfl)

/-- The methods of a class whose static table is not one that is refilled. -/
theorem blind_makeMethods (hregistry : m.world.IsRegistry)
    (hstatics : m.world.IsElsewhere t parts.statics) (hnone : contents parts.statics = none)
    (members : List Member) : Blind t contents (makeMethods parts members) m := by
  induction members generalizing m with
  | nil => exact .pure _
  | cons x rest ih =>
    obtain ⟨name, form, span⟩ := x
    -- a method is made, is put somewhere, and then the others are made
    have hmade : ∀ {β : Type} (definition : FunctionDef) {k : FunctionRef → Eval β},
        (∀ f m', World.SameRegistrations m.world m'.world → Blind t contents (k f) m') →
        Blind t contents (makeMethod parts definition >>= k) m := by
      intro β definition k hk
      refine .bind (blind_makeFunction _ _ _ _) fun f m' hrun => hk f m' ?_
      cases hrun
      exact ⟨rfl, fun _ => rfl, Nat.le_refl _⟩
    -- where it is put is no table of the token, so that both worlds are changed alike
    have hput : ∀ {g : World → World} {m' : Machine}, World.SameRegistrations m.world m'.world →
        World.SameRegistrations m'.world (g m'.world) → Blind t contents (changeWorld g) m' →
        Blind t contents (do
          changeWorld g
          makeMethods parts rest) m' := by
      intro g m' hsame hsame' hblind
      have hregistry' := hsame'.isRegistry (hsame.isRegistry hregistry)
      refine hblind.bind fun _ m'' hrun => ?_
      cases hrun
      exact ih hregistry' ((hstatics.of_same hsame).of_same hsame')
    cases form with
    | method definition =>
      refine hmade definition fun f m' hsame => ?_
      have hobject := World.sameRegistrations_properties m'.world parts.prototype
        (·.set (.string name) (.function f))
      exact hput hsame hobject (blind_changeWorld rfl (hobject.spares_of_eq rfl))
    -- the static table is that of another token, and is not refilled
    | staticMethod definition =>
      refine hmade definition fun f m' hsame => ?_
      refine hput hsame (World.sameRegistrations_tables _ _ _) ?_
      exact blind_changeWorld (World.setSlot_refill hnone _ _)
        (World.spares_modify (hsame.isRegistry hregistry) (hstatics.of_same hsame) _)
    | privateMethod definition =>
      refine hmade definition fun f m' hsame => ?_
      exact .bind (ih (hsame.isRegistry hregistry) (hstatics.of_same hsame)) fun _ _ _ => .pure _
    | privateField initializer => exact ih hregistry hstatics
    | staticField initializer => exact ih hregistry hstatics

/-- Making a constructor is blind. -/
theorem blind_makeConstructor (definition? : Option FunctionDef) :
    Blind t contents (makeConstructor parts definition?) m := by
  cases definition? with
  | none => exact .pure none
  | some definition => exact .bind (blind_makeFunction _ _ _ _) fun _ _ _ => .pure _

/-- **Class definitions** make what they make whatever is in the tables of another token. -/
theorem blind_makeClass (hregistry : m.world.IsRegistry) (ht : t.index < m.world.tokens.size)
    (hcontents : contents.IsOf t m.world) (context : Context) (c : ClassDef)
    (parent : Option ClassRef) : Blind t contents (makeClass context c parent) m := by
  have hnone := World.contents_next hregistry hcontents
  rw [makeClass_stepwise]
  refine .bind (blind_onWorld (World.mintToken_refill hnone _ _)
    (World.spares_mintToken hregistry ht _ _)) fun token m₁ hrun => ?_
  cases hrun
  let w₁ := (m.world.mintToken c.site c.displayName).2
  -- the static table is the one that came with the token
  have hstatics : (w₁.tokenAt ⟨m.world.tokens.size⟩).statics = ⟨m.world.tables.size⟩ := by
    rw [World.tokenAt_mintToken, if_pos rfl]
  have hunfilled : contents (w₁.tokenAt ⟨m.world.tokens.size⟩).statics = none := by
    rw [hstatics]
    exact hnone
  have helsewhere : w₁.IsElsewhere t (w₁.tokenAt ⟨m.world.tokens.size⟩).statics := by
    refine ⟨.token ⟨m.world.tokens.size⟩, ?_, ?_⟩
    · rintro rfl
      exact Nat.lt_irrefl _ ht
    · rw [hstatics, World.ownedTable?_mintToken, if_pos rfl]
  have hregistry₁ : w₁.IsRegistry := hregistry.mintToken c.site c.displayName
  have hscope : World.SameRegistrations w₁ (w₁.childScope context.scope).2 :=
    ⟨rfl, fun _ => rfl, Nat.le_refl _⟩
  -- the parts of the class follow: a scope, a prototype, the methods and the constructor
  refine .bind (.bind (blind_onWorld rfl (hscope.spares_of_eq rfl)) fun scope m₂ hrun => ?_)
    fun made m₃ _ => ?_
  · cases hrun
    have hobject := World.sameRegistrations_newObject (w₁.childScope context.scope).2
      (parent.map fun p => (w₁.classAt p).prototype)
    refine .world rfl (.bind (blind_onWorld rfl (hobject.spares_of_eq rfl))
      fun prototype m₃ hrun => ?_)
    cases hrun
    refine .bind (blind_makeMethods (hobject.isRegistry (hscope.isRegistry hregistry₁))
      ((helsewhere.of_same hscope).of_same hobject) hunfilled c.members) fun _ _ _ => ?_
    exact .bind (blind_makeConstructor _) fun _ _ _ => .pure _
  · -- adding the class and noting it change no registration
    refine .bind (blind_changeWorld rfl (World.SameRegistrations.spares_of_eq
      ⟨rfl, fun _ => rfl, Nat.le_refl _⟩ rfl)) fun _ m₄ _ => ?_
    exact .bind ⟨rfl, .refl t _⟩ fun _ _ _ => .pure _

end ClassDefinition

/-! ### Constructions -/

/-- Registering with another token is blind. -/
theorem blind_registerInstance (hregistry : m.world.IsRegistry)
    (hcontents : contents.IsOf t m.world) {t' : TokenId} {o : ObjectId} (hne : t' ≠ t)
    (ht : t'.index < m.world.tokens.size) (ho : o.index < m.world.objects.size) :
    Blind t contents (onWorld fun w => w.registerInstance t' o) m :=
  blind_onWorld (World.registerInstance_refill (World.contents_next hregistry hcontents) t' o)
    (World.spares_registerInstance hregistry hne ht ho)

end Eval

end Enclave
