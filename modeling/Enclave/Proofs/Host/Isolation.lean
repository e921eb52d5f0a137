import Enclave.Proofs.Host.Reference
import Enclave.Proofs.Store.Alive
import Enclave.Proofs.Store.Release
import Mathlib.Data.List.Forall2

/-!
# Isolation of private state

A host answers every sequence of actions as the map does (`answers_eq`): brands, arenas whose
places are used again, and the reclamation of what nobody holds cannot be told from a map in which
every pair has a table of its own for good.

The two are related through a `locate` that says where the store keeps the table of an owner
(`Agrees`). It only ever grows, so a table that is kept by name stays where it is even after its
pair is gone from the store; and for an object that is held, the pairs that the store knows are
those that have a table in the map.
-/

namespace Enclave

/-! ### Related names -/

namespace Named

variable {α β : Type} {R R' : α → β → Prop} {x : Named α} {y : Named β}

/-- The same names in the same order, for things that are related. -/
def Related (R : α → β → Prop) (x : Named α) (y : Named β) : Prop :=
  List.Forall₂ (fun a b => a.1 = b.1 ∧ R a.2 b.2) x.entries y.entries

/-- Under one name both sides have related things, or both have none. -/
theorem Related.get? (h : Related R x y) (name : String) :
    Option.Rel R (x.get? name) (y.get? name) := by
  obtain ⟨xs⟩ := x
  obtain ⟨ys⟩ := y
  change Option.Rel R (Association.get? name xs) (Association.get? name ys)
  replace h : List.Forall₂ _ xs ys := h
  -- Along both lists at once: the first entry of the name is at the same place in both.
  induction h with
  | nil => exact .none
  | cons hab _ ih =>
    obtain ⟨hname, hR⟩ := hab
    rw [Association.get?_cons, Association.get?_cons, hname]
    split
    · exact .some hR
    · exact ih

/-- Putting related things under one name keeps the names related. -/
theorem Related.put (h : Related R x y) (name : String) {a : α} {b : β} (hR : R a b) :
    Related R (x.put name a) (y.put name b) := by
  obtain ⟨xs⟩ := x
  obtain ⟨ys⟩ := y
  change List.Forall₂ _ (Association.put name a xs) (Association.put name b ys)
  replace h : List.Forall₂ _ xs ys := h
  -- Along both lists at once: the name is replaced at the same place, or added at both ends.
  induction h with
  | nil => exact .cons ⟨rfl, hR⟩ .nil
  | cons hab hrest ih =>
    obtain ⟨hname, hR'⟩ := hab
    rw [Association.put_cons, Association.put_cons, hname]
    split
    · exact .cons ⟨rfl, hR⟩ hrest
    · exact .cons ⟨rfl, hR'⟩ ih

/-- Erasing one name keeps the names related. -/
theorem Related.erase (h : Related R x y) (name : String) :
    Related R (x.erase name) (y.erase name) := by
  refine List.rel_filter (fun a b hab => ?_) h
  change decide (a.1 ≠ name) = true ↔ decide (b.1 ≠ name) = true
  rw [hab.1]

/-- A name that one side does not have the other does not have either. -/
theorem Related.get?_eq_none (h : Related R x y) {name : String} (hy : y.get? name = none) :
    x.get? name = none := by
  have hrel := h.get? name
  cases hx : x.get? name with
  | none => rfl
  | some a =>
    rw [hx, hy] at hrel
    cases hrel

/-- For what one side has under a name, the other has something related under it. -/
theorem Related.get?_eq_some (h : Related R x y) {name : String} {b : β}
    (hy : y.get? name = some b) : ∃ a, x.get? name = some a ∧ R a b := by
  have hrel := h.get? name
  rw [hy] at hrel
  obtain ⟨a, hx⟩ : ∃ a, x.get? name = some a := by
    cases hx : x.get? name with
    | none => rw [hx] at hrel; cases hrel
    | some a => exact ⟨a, rfl⟩
  rw [hx, Option.rel_some_some] at hrel
  exact ⟨a, hx, hrel⟩

/-- Names may be related more loosely. -/
theorem Related.mono (h : Related R x y) (hR : ∀ a b, R a b → R' a b) : Related R' x y :=
  h.imp fun _ _ hab => ⟨hab.1, hR _ _ hab.2⟩

/-- What is found under a name is among the values. -/
theorem mem_values_of_get? {x : Named α} {name : String} {a : α} (h : x.get? name = some a) :
    a ∈ x.values := by
  obtain ⟨xs⟩ := x
  replace h : Association.get? name xs = some a := h
  change a ∈ xs.map (·.2)
  -- Along the list, up to the first entry of the name.
  induction xs with
  | nil => cases h
  | cons e xs ih =>
    obtain ⟨k, v⟩ := e
    rw [Association.get?_cons] at h
    rw [List.map_cons, List.mem_cons]
    split at h
    · exact Or.inl (Option.some.inj h).symm
    · exact Or.inr (ih h)

/-- Things that determine each other have the same names on both sides. -/
theorem Related.namesOf [DecidableEq α] [DecidableEq β] (h : Related R x y) {a : α} {b : β}
    (hiff : ∀ a' b', R a' b' → (a' = a ↔ b' = b)) : x.namesOf a = y.namesOf b := by
  obtain ⟨xs⟩ := x
  obtain ⟨ys⟩ := y
  unfold Named.namesOf
  congr 1
  replace h : List.Forall₂ _ xs ys := h
  -- Along both lists at once: an entry is kept on one side exactly when it is on the other.
  induction h with
  | nil => rfl
  | cons hab _ ih =>
    obtain ⟨hname, hR⟩ := hab
    rw [List.filter_cons, List.filter_cons]
    simp only [decide_eq_true_eq, hiff _ _ hR]
    split
    · rw [List.map_cons, List.map_cons, hname, ih]
    · exact ih

end Named

/-! ### The relation -/

namespace World

/-- What the store keeps for owners, where each owner's table is, and what the tables of the map
hold. -/
structure Locates (w : World) (r : Reference) (locate : TableOwner → Option TableId) : Prop where
  /-- The store has forgotten some pairs, but it has misplaced none. -/
  known : ∀ a table, w.ownedTable? a = some table → locate a = some table
  statics : ∀ t, locate (.token t) = w.ownedTable? (.token t)
  held : ∀ name o, r.objects.get? name = some o → ∀ t, w.lookupInstance? t o = locate (.pair t o)
  contents : ∀ a, r.contents (.table a) = (locate a).map w.tableAt
  made : ∀ a table, locate a = some table → table.index < w.tables.size
  apart : ∀ a b table, locate a = some table → locate b = some table → a = b
  objects : ∀ t o table, locate (.pair t o) = some table → o.index < w.objects.size

end World

/-- A host and a map that hold the same. -/
structure Agrees (h : Host) (r : Reference) (locate : TableOwner → Option TableId) : Prop where
  registry : h.world.IsRegistry
  objectCount : h.world.objects.size = r.objectCount
  tokenCount : h.world.tokens.size = r.tokenCount
  objects : h.objects = r.objects
  tokens : h.tokens = r.tokens
  tables : Named.Related (fun table a => locate a = some table) h.tables r.tables
  objectMade : ∀ name o, r.objects.get? name = some o → o.index < h.world.objects.size
  tokenMade : ∀ name t, r.tokens.get? name = some t → t.index < h.world.tokens.size
  properties : ∀ o, o.index < h.world.objects.size →
    r.contents (.properties o) = some (h.world.objectAt o).properties
  locates : h.world.Locates r locate

variable {h : Host} {r : Reference} {locate : TableOwner → Option TableId}

/-- In the beginning both sides know nothing. -/
theorem agrees_empty : Agrees .empty .empty fun _ => none where
  registry := World.isRegistry_of_none rfl rfl
  objectCount := rfl
  tokenCount := rfl
  objects := rfl
  tokens := rfl
  tables := .nil
  objectMade := nofun
  tokenMade := nofun
  properties := nofun
  locates :=
    -- no table is owned yet, of statics or of instances
    { known := by
        rintro (t | ⟨t, o⟩) table hknown
        · cases hknown
        · cases hknown
      statics := fun t => rfl
      held := nofun
      contents := fun a => rfl
      made := nofun
      apart := nofun
      objects := nofun }

/-! ### Settling -/

/-- Reclaiming takes nothing from an object that is held by name. -/
theorem Agrees.held_reclaim (ha : Agrees h r locate) {name : String} {o : ObjectId}
    (hname : r.objects.get? name = some o) (t : TokenId) :
    (h.world.reclaim h.roots).lookupInstance? t o = locate (.pair t o) := by
  have hroot : Node.object o ∈ h.roots := by
    rw [← ha.objects] at hname
    have hmem := List.mem_map_of_mem (f := Node.object) (Named.mem_values_of_get? hname)
    simp only [Host.roots, List.mem_append]
    exact Or.inl (Or.inl hmem)
  have halive := World.isAlive_of_mem (n := .object o) (ha.objectMade name o hname) hroot
  rw [World.lookupInstance?_reclaim ha.registry.toIsMatched h.roots, if_pos halive]
  exact ha.locates.held name o hname t

/-- Reclaiming what nobody holds changes nothing that the map could tell. -/
theorem Agrees.settle (ha : Agrees h r locate) : Agrees h.settle r locate := by
  have hsame := World.sameContents_reclaim h.world h.roots
  have hlookup := World.lookupInstance?_reclaim ha.registry.toIsMatched h.roots
  have htables : h.settle.world.tableAt = h.world.tableAt := by
    funext table
    exact congrArg (·.getD table.index default) hsame.tables
  -- Statics belong to tokens, and tokens are never let go.
  have hstatics : ∀ t, h.settle.world.ownedTable? (.token t) = h.world.ownedTable? (.token t) :=
    fun t => by
      change World.ownedTable? (h.world.reclaim h.roots) (.token t) = _
      rw [World.ownedTable?, World.ownedTable?, hsame.tokenCount, hsame.statics]
  refine
    { registry := ha.registry.reclaim h.roots
      objectCount := hsame.objectCount.trans ha.objectCount
      tokenCount := hsame.tokenCount.trans ha.tokenCount
      objects := ha.objects
      tokens := ha.tokens
      tables := ha.tables
      objectMade := fun name o hname => hsame.objectCount ▸ ha.objectMade name o hname
      tokenMade := fun name t hname => hsame.tokenCount ▸ ha.tokenMade name t hname
      properties := ?properties
      locates :=
        { known := ?known
          statics := fun t => (ha.locates.statics t).trans (hstatics t).symm
          held := fun name o hname t => ha.held_reclaim hname t
          contents := fun a => htables ▸ ha.locates.contents a
          made := fun a table hlocate => hsame.tables ▸ ha.locates.made a table hlocate
          apart := ha.locates.apart
          objects := fun t o table hlocate =>
            hsame.objectCount ▸ ha.locates.objects t o table hlocate } }
  case properties =>
    intro o ho
    rw [ha.properties o (hsame.objectCount ▸ ho)]
    exact congrArg some (hsame.properties o).symm
  case known =>
    -- what the store still knows it knew before
    rintro (t | ⟨t, o⟩) table hknown
    · rw [hstatics] at hknown
      exact ha.locates.known _ _ hknown
    · -- a pair may have been forgotten, but none has been added
      replace hknown := (hlookup t o).symm.trans hknown
      split at hknown
      · exact ha.locates.known (.pair t o) table hknown
      · cases hknown

/-- Where no registration changes, every owner's table stays where it is. -/
theorem World.Locates.same {w w' : World} (hl : w.Locates r locate)
    (hsame : w.SameRegistrations w') (hobjects : w.objects.size ≤ w'.objects.size)
    {r' : Reference} (hheld : ∀ name o, r'.objects.get? name = some o →
      ∀ t, w.lookupInstance? t o = locate (.pair t o))
    (hcontents : ∀ a, r'.contents (.table a) = (locate a).map w'.tableAt) :
    w'.Locates r' locate where
  known a table hknown := hl.known a table ((hsame.ownedTable? a).symm.trans hknown)
  statics t := (hl.statics t).trans (hsame.ownedTable? (.token t)).symm
  held name o hname t := (hsame.lookupInstance? t o).trans (hheld name o hname t)
  contents := hcontents
  made a table hlocate := Nat.lt_of_lt_of_le (hl.made a table hlocate) hsame.tables
  apart := hl.apart
  objects t o table hlocate := Nat.lt_of_lt_of_le (hl.objects t o table hlocate) hobjects

/-! ### Making things -/

/-- Nobody has registered an object that has not been made. -/
theorem Agrees.unregistered (ha : Agrees h r locate) (t : TokenId) :
    h.world.lookupInstance? t ⟨h.world.objects.size⟩ = none ∧
      locate (.pair t ⟨h.world.objects.size⟩) = none := by
  refine ⟨Option.eq_none_iff_forall_ne_some.mpr fun table hlookup => ?_,
    Option.eq_none_iff_forall_ne_some.mpr fun table hlocate => ?_⟩
  · exact Nat.lt_irrefl _ (ha.registry.lt_of_lookup hlookup).2
  · exact Nat.lt_irrefl _ (ha.locates.objects t _ table hlocate)

/-- A new object is known to both sides under the same name. -/
theorem Agrees.create (ha : Agrees h r locate) (name : String) (proto : Option String) :
    Agrees (h.addObject name proto).2 (r.create name) locate := by
  refine Agrees.settle ?_
  have hsame := World.sameRegistrations_newObject h.world (proto.bind h.objects.get?)
  have hsize : (h.world.newObject (proto.bind h.objects.get?)).2.objects.size =
      h.world.objects.size + 1 := Array.size_push _
  refine
    { registry := hsame.isRegistry ha.registry
      objectCount := hsize.trans (congrArg (· + 1) ha.objectCount)
      tokenCount := ha.tokenCount
      objects := ?objects
      tokens := ha.tokens
      tables := ha.tables
      objectMade := ?objectMade
      tokenMade := ha.tokenMade
      properties := ?properties
      locates := ha.locates.same hsame (hsize ▸ Nat.le_succ _) ?held ?contents }
  case objects =>
    change h.objects.put name ⟨h.world.objects.size⟩ = _
    rw [ha.objects, ha.objectCount]
    rfl
  -- the name is that of the new object, or of one that was there
  case objectMade =>
    intro other o hname
    rw [Reference.create, Named.get?_put] at hname
    change o.index < (h.world.newObject _).2.objects.size
    rw [hsize]
    split at hname
    · cases hname
      exact ha.objectCount ▸ Nat.lt_succ_self _
    · exact Nat.lt_succ_of_lt (ha.objectMade other o hname)
  -- the newest object starts empty, and the older ones keep what they have
  case properties =>
    intro o ho
    change _ = some ((h.world.newObject _).2.objectAt o).properties
    rw [World.objectAt_newObject]
    by_cases hnewest : o.index = h.world.objects.size
    · obtain rfl : o = ⟨r.objectCount⟩ := by rw [← ha.objectCount, ← hnewest]
      rw [if_pos hnewest, Reference.contents_create, if_pos rfl]
    · have hold : o.index < h.world.objects.size := by
        change o.index < (h.world.newObject _).2.objects.size at ho
        omega
      rw [if_neg hnewest, ← ha.properties o hold, Reference.contents_create, if_neg]
      intro heq
      exact hnewest (by rw [Place.properties.inj heq, ha.objectCount])
  -- nothing can have been registered for an object that did not exist
  case held =>
    intro other o hname t
    rw [Reference.create, Named.get?_put] at hname
    split at hname
    · cases hname
      rw [← ha.objectCount, (ha.unregistered t).1, (ha.unregistered t).2]
    · exact ha.locates.held other o hname t
  -- tables of owners are not touched by a new object
  case contents =>
    intro a
    rw [Reference.contents_create, if_neg (by simp)]
    exact ha.locates.contents a

section Extend

variable {w w' : World} {owner : TableOwner}

/-- The next table is nobody's yet, so it is the new owner's alone. -/
theorem World.Locates.apart_update (hl : w.Locates r locate) {a b : TableOwner} {table : TableId}
    (ha : Function.update locate owner (some ⟨w.tables.size⟩) a = some table)
    (hb : Function.update locate owner (some ⟨w.tables.size⟩) b = some table) : a = b := by
  have hold : ∀ c, locate c ≠ some ⟨w.tables.size⟩ := fun c hc =>
    absurd (hl.made c _ hc) (Nat.lt_irrefl _)
  rw [Function.update_apply] at ha hb
  split at ha <;> split at hb
  · next hea heb => exact hea.trans heb.symm
  · next => cases ha; exact absurd hb (hold b)
  · next => cases hb; exact absurd ha (hold a)
  · exact hl.apart a b table ha hb

/-- The table of the new owner is empty, and all others are what they were. -/
theorem World.Locates.contents_update (hl : w.Locates r locate)
    (htables : w'.tables = w.tables.push .empty) (a : TableOwner) :
    Function.update r.contents (.table owner) (some .empty) (.table a) =
      (Function.update locate owner (some ⟨w.tables.size⟩) a).map w'.tableAt := by
  have htableAt : ∀ table, w'.tableAt table =
      if table.index = w.tables.size then .empty else w.tableAt table := fun table => by
    rw [World.tableAt, htables]
    exact getD_push _ _ _ _
  -- the owner has the new table, which is empty; the others have theirs, which are older
  by_cases ha : a = owner
  · subst ha
    rw [Function.update_self, Function.update_self, Option.map_some, htableAt, if_pos rfl]
  · have hne : Place.table a ≠ .table owner := fun heq => ha (Place.table.inj heq)
    rw [Function.update_of_ne hne, Function.update_of_ne ha, hl.contents]
    refine Option.map_congr fun table hlocate => ?_
    have := hl.made a table hlocate
    rw [htableAt, if_neg (by omega)]

/-- A new owner comes with an empty table that nobody else has. -/
theorem World.Locates.extend (hl : w.Locates r locate)
    (howned : ∀ a, w'.ownedTable? a = if a = owner then some ⟨w.tables.size⟩ else w.ownedTable? a)
    (hmade : ∀ t o, owner = .pair t o → o.index < w.objects.size)
    (htables : w'.tables = w.tables.push .empty) (hobjects : w'.objects.size = w.objects.size)
    {r' : Reference} (hnames : r'.objects = r.objects)
    (hcontents : ∀ a, r'.contents (.table a) =
      Function.update r.contents (.table owner) (some .empty) (.table a)) :
    w'.Locates r' (Function.update locate owner (some ⟨w.tables.size⟩)) := by
  refine
    { known := ?known
      statics := ?statics
      held := ?held
      contents := ?contents
      made := ?made
      apart := fun a b table => hl.apart_update
      objects := ?objects }
  case known =>
    intro a table hknown
    rw [howned] at hknown
    rw [Function.update_apply]
    split at hknown
    · next heq => rw [if_pos heq, hknown]
    · next hne => rw [if_neg hne, hl.known a table hknown]
  case statics =>
    intro t
    rw [howned, Function.update_apply, hl.statics]
  case held =>
    intro name o hname t
    have hpair := howned (.pair t o)
    rw [World.ownedTable?, World.ownedTable?] at hpair
    rw [hpair, Function.update_apply, hl.held name o (hnames ▸ hname) t]
  -- the new table is empty, and is located for nothing but `owner`
  case contents =>
    intro a
    rw [hcontents, hl.contents_update htables]
  -- the place of the new table is the first free one
  case made =>
    intro a table hlocate
    rw [Function.update_apply] at hlocate
    rw [htables, Array.size_push]
    split at hlocate
    · cases hlocate
      exact Nat.lt_succ_self _
    · exact Nat.lt_succ_of_lt (hl.made a table hlocate)
  case objects =>
    intro t o table hlocate
    rw [Function.update_apply] at hlocate
    rw [hobjects]
    split at hlocate
    · next heq => exact hmade t o heq.symm
    · exact hl.objects t o table hlocate

end Extend

/-- Tables that are kept by name stay where they are when there is a new owner. -/
theorem related_extend {x : Named TableId} {y : Named TableOwner}
    (h : Named.Related (fun table a => locate a = some table) x y) {owner : TableOwner}
    (hfree : locate owner = none) (new : TableId) :
    Named.Related (fun table a => Function.update locate owner (some new) a = some table) x y :=
  h.mono fun table a hlocate => by
    have hne : a ≠ owner := fun heq => by
      rw [heq, hfree] at hlocate
      cases hlocate
    rw [Function.update_of_ne hne, hlocate]

/-- A new brand is known to both sides, and its statics have a place of their own. -/
theorem Agrees.mint (ha : Agrees h r locate) (name : String) (site : ClassSite)
    (className : String) :
    ∃ locate', Agrees (h.addToken name site className) (r.mint name) locate' := by
  -- the token minted next has no table so far
  have hfree : locate (.token ⟨h.world.tokens.size⟩) = none := by
    rw [ha.locates.statics, World.ownedTable?, if_neg (Nat.lt_irrefl _)]
  have hsize : (h.world.mintToken site className).2.tokens.size = h.world.tokens.size + 1 :=
    Array.size_push _
  -- the map gets an empty table for the token, located at the next place
  refine ⟨Function.update locate (.token ⟨h.world.tokens.size⟩) (some ⟨h.world.tables.size⟩),
    Agrees.settle ⟨ha.registry.mintToken site className, ha.objectCount,
      hsize.trans (congrArg (· + 1) ha.tokenCount), ha.objects, ?_,
      related_extend ha.tables hfree _, ha.objectMade, fun other t hname => ?_, fun o ho => ?_, ?_⟩⟩
  · change h.tokens.put name ⟨h.world.tokens.size⟩ = _
    rw [ha.tokens, ha.tokenCount]
    rfl
  · rw [Reference.mint, Named.get?_put] at hname
    change t.index < (h.world.mintToken _ _).2.tokens.size
    rw [hsize]
    split at hname
    · cases hname
      exact ha.tokenCount ▸ Nat.lt_succ_self _
    · exact Nat.lt_succ_of_lt (ha.tokenMade other t hname)
  · rw [Reference.contents_mint, if_neg (by simp)]
    exact ha.properties o ho
  · -- a token is a single owner, and so no object has to be there
    refine ha.locates.extend (World.ownedTable?_mintToken h.world site className) ?_ rfl rfl
      rfl fun a => ?_
    · intro t o heq
      cases heq
    · rw [ha.tokenCount]
      rfl

/-! ### Registering -/

/-- A pair without a table gets a new one on both sides. -/
theorem Agrees.registerNew (ha : Agrees h r locate) {t : TokenId} {o : ObjectId}
    (ht : t.index < h.world.tokens.size) (ho : o.index < h.world.objects.size)
    (hlookup : h.world.lookupInstance? t o = none) (hfree : locate (.pair t o) = none) :
    Agrees { h with world := (h.world.registerInstance t o).2 }
      { r with contents := Function.update r.contents (.table (.pair t o)) (some .empty) }
      (Function.update locate (.pair t o) (some ⟨h.world.tables.size⟩)) := by
  have hsame := World.registerInstance_of_none hlookup
  have hobjects := World.objectCount_registerInstance h.world t o
  have htokens := World.tokenCount_registerInstance h.world t o
  refine
    { registry := ha.registry.registerInstance ht ho
      objectCount := hobjects.trans ha.objectCount
      tokenCount := htokens.trans ha.tokenCount
      objects := ha.objects
      tokens := ha.tokens
      tables := related_extend ha.tables hfree _
      objectMade := fun name o' hname => hobjects.symm ▸ ha.objectMade name o' hname
      tokenMade := fun name t' hname => htokens.symm ▸ ha.tokenMade name t' hname
      properties := ?properties
      locates := ?locates }
  -- registering adds a table, and gives no object another property
  case properties =>
    intro o' ho'
    have hne : Place.properties o' ≠ .table (.pair t o) := by simp
    refine (Function.update_of_ne hne (some .empty) r.contents).trans
      ((ha.properties o' (hobjects ▸ ho')).trans ?_)
    rw [hsame, World.objectAt_updateObject]
    split <;> rfl
  -- the pair is located at the new place, and its object is there
  case locates =>
    refine ha.locates.extend (World.ownedTable?_registerInstance ha.registry ht ho hlookup) ?_
      (World.tables_registerInstance hlookup) hobjects rfl fun a => rfl
    intro t' o' heq
    cases heq
    exact ho

/-- Registering a pair finds or makes its table on both sides. -/
theorem Agrees.register (ha : Agrees h r locate) {t : TokenId} {o : ObjectId}
    {tokenName objectName : String} (ht : r.tokens.get? tokenName = some t)
    (ho : r.objects.get? objectName = some o) :
    ∃ locate',
      Agrees { h with world := (h.world.registerInstance t o).2 } (r.register t o) locate' ∧
        locate' (.pair t o) = some (h.world.registerInstance t o).1 := by
  have hheld := ha.locates.held objectName o ho t
  have hcontents := ha.locates.contents (.pair t o)
  rw [← hheld] at hcontents
  cases hlookup : h.world.lookupInstance? t o with
  | some table =>
    -- the map has a table for the pair, too
    rw [hlookup] at hheld hcontents
    rw [World.registerInstance_of_some hlookup, Reference.register, hcontents]
    exact ⟨locate, ha, hheld.symm⟩
  | none =>
    rw [hlookup] at hheld hcontents
    rw [Reference.register, hcontents]
    refine ⟨_, ha.registerNew (ha.tokenMade tokenName t ht) (ha.objectMade objectName o ho) hlookup
      hheld.symm, ?_⟩
    rw [Function.update_self, World.registerInstance_of_none hlookup]

/-! ### Keeping and giving up names -/

/-- A table kept by name stays related to its owner. -/
theorem Agrees.keep (ha : Agrees h r locate) (name : String) {table : TableId}
    {owner : TableOwner} (hlocate : locate owner = some table) :
    Agrees (h.keepTable name table) (r.keep name owner) locate :=
  Agrees.settle
    { ha with
      tables := ha.tables.put name hlocate
      locates := { ha.locates with } }

/-- A name given up is given up on both sides. -/
theorem Agrees.drop (ha : Agrees h r locate) (name : String) :
    Agrees (h.drop name) (r.drop name) locate := by
  -- what is still named was named before, so it is where it was
  have hobject : ∀ other o, (r.drop name).objects.get? other = some o →
      r.objects.get? other = some o := fun other o hname => by
    rw [Reference.drop, Named.get?_erase] at hname
    split at hname
    · cases hname
    · exact hname
  have htoken : ∀ other t, (r.drop name).tokens.get? other = some t →
      r.tokens.get? other = some t := fun other t hname => by
    rw [Reference.drop, Named.get?_erase] at hname
    split at hname
    · cases hname
    · exact hname
  -- contents and places are untouched
  exact Agrees.settle
    { ha with
      objects := congrArg (·.erase name) ha.objects
      tokens := congrArg (·.erase name) ha.tokens
      tables := ha.tables.erase name
      objectMade := fun other o hname => ha.objectMade other o (hobject other o hname)
      tokenMade := fun other t hname => ha.tokenMade other t (htoken other t hname)
      locates :=
        { ha.locates with
          held := fun other o hname => ha.locates.held other o (hobject other o hname) } }

/-- A table that is given has the same contents and the same other names on both sides. -/
theorem Agrees.give (ha : Agrees h r locate) {table : TableId} {owner : TableOwner}
    (hlocate : locate owner = some table) (keepAs : Option String) :
    (h.give table keepAs).1 = (r.give owner keepAs).1 ∧
      Agrees (h.give table keepAs).2 (r.give owner keepAs).2 locate := by
  refine ⟨?_, ?_⟩
  · have hcontents : h.contents (.table table) = (r.contents (.table owner)).getD .empty := by
      rw [ha.locates.contents, hlocate]
      rfl
    -- the table has the same names on both sides, since no other owner has it
    have hnames : h.tables.namesOf table = r.tables.namesOf owner :=
      ha.tables.namesOf fun table' owner' hlocate' => by
        refine ⟨fun heq => ?_, fun heq => ?_⟩
        · exact ha.locates.apart _ _ table (heq ▸ hlocate') hlocate
        · rw [heq, hlocate] at hlocate'
          exact (Option.some.inj hlocate').symm
    change Answer.table _ _ = Answer.table _ _
    rw [hcontents, hnames]
  · cases keepAs with
    | none => exact ha
    | some name => exact ha.keep name hlocate

/-! ### Properties and slots -/

/-- Where the store keeps what is at a place of the map. -/
def Finds (locate : TableOwner → Option TableId) : Holder → Place → Prop
  | .object o, .properties o' => o = o'
  | .table table, .table owner => locate owner = some table
  | _, _ => False

/-- A name that holds properties or slots holds corresponding ones on both sides. -/
theorem Agrees.holder? (ha : Agrees h r locate) (name : String) :
    (h.holder? name = none ∧ r.holder? name = none) ∨
      ∃ holder place, h.holder? name = some holder ∧ r.holder? name = some place ∧
        Finds locate holder place ∧ ∀ o, holder = .object o → o.index < h.world.objects.size := by
  -- a name is that of an object first, and only then that of a table
  cases hobject : r.objects.get? name with
  | some o =>
    refine Or.inr ⟨.object o, .properties o, ?_, ?_, rfl, ?_⟩
    · rw [Host.holder?, ha.objects, hobject]
    · rw [Reference.holder?, hobject]
    · intro o' heq
      cases heq
      exact ha.objectMade name o hobject
  | none =>
    have hhost : h.holder? name = (h.tables.get? name).map .table := by
      rw [Host.holder?, ha.objects, hobject]
    have hmap : r.holder? name = (r.tables.get? name).map .table := by
      rw [Reference.holder?, hobject]
    -- the tables named on both sides are the same ones, one by place and one by owner
    cases htable : r.tables.get? name with
    | none =>
      rw [hhost, hmap, htable, ha.tables.get?_eq_none htable]
      exact Or.inl ⟨rfl, rfl⟩
    | some owner =>
      obtain ⟨table, hname, hlocate⟩ := ha.tables.get?_eq_some htable
      rw [hhost, hmap, htable, hname]
      refine Or.inr ⟨.table table, .table owner, rfl, rfl, hlocate, ?_⟩
      intro o heq
      cases heq

/-- Corresponding holders have the same contents. -/
theorem Agrees.contents (ha : Agrees h r locate) {holder : Holder} {place : Place}
    (hfinds : Finds locate holder place)
    (hmade : ∀ o, holder = .object o → o.index < h.world.objects.size) :
    h.contents holder = (r.contents place).getD .empty := by
  match holder, place, hfinds with
  | .object o, .properties _, rfl =>
    rw [ha.properties o (hmade o rfl)]
    rfl
  | .table table, .table owner, hlocate =>
    rw [ha.locates.contents, show locate owner = some table from hlocate]
    rfl

/-- Changing what an object or a table holds. -/
def Holder.edit (f : SlotTable → SlotTable) (w : World) : Holder → World
  | .object o => w.updateObject o fun object => { object with properties := f object.properties }
  | .table t => { w with tables := w.tables.modify t.index f }

/-- The properties of an object change alike on both sides. -/
theorem Agrees.editProperties (ha : Agrees h r locate) (f : SlotTable → SlotTable) (o : ObjectId) :
    Agrees { h with world := (Holder.object o).edit f h.world } (r.edit (.properties o) f)
      locate := by
  have hsame := World.sameRegistrations_updateObject h.world o
    (f := fun object => { object with properties := f object.properties }) fun _ => rfl
  have hsize := World.size_updateObject h.world o
    (fun object => { object with properties := f object.properties })
  refine
    { registry := hsame.isRegistry ha.registry
      objectCount := hsize.trans ha.objectCount
      tokenCount := ha.tokenCount
      objects := ha.objects
      tokens := ha.tokens
      tables := ha.tables
      objectMade := fun name o' hname => hsize.symm ▸ ha.objectMade name o' hname
      tokenMade := ha.tokenMade
      properties := ?properties
      locates := ha.locates.same hsame (Nat.le_of_eq hsize.symm) ha.locates.held ?contents }
  case properties =>
    intro o' ho'
    replace ho' : o'.index < h.world.objects.size := hsize ▸ ho'
    change _ = some ((h.world.updateObject o _).objectAt o').properties
    rw [World.objectAt_updateObject]
    -- the one object edited has the edited table, and any other the one it had
    by_cases heq : o = o'
    · subst heq
      rw [if_pos ⟨rfl, ho'⟩, Reference.contents_edit, if_pos rfl, ha.properties o ho']
      rfl
    · have hne : Place.properties o' ≠ .properties o := fun hc => heq (Place.properties.inj hc).symm
      rw [if_neg fun hc => heq hc.1, Reference.contents_edit, if_neg hne, ha.properties o' ho']
  -- the table of an owner is no table of properties
  case contents =>
    intro a
    rw [Reference.contents_edit, if_neg (by simp)]
    exact ha.locates.contents a

/-- A located table changes as the table of its owner does. -/
theorem Agrees.editTable (ha : Agrees h r locate) (f : SlotTable → SlotTable) {table : TableId}
    {owner : TableOwner} (hlocate : locate owner = some table) :
    Agrees { h with world := (Holder.table table).edit f h.world } (r.edit (.table owner) f)
      locate := by
  have hsame := World.sameRegistrations_tables h.world table f
  refine
    { ha with
      registry := hsame.isRegistry ha.registry
      properties := ?properties
      locates := ha.locates.same hsame (Nat.le_refl _) ha.locates.held ?contents }
  -- properties are kept elsewhere
  case properties =>
    intro o ho
    rw [Reference.contents_edit, if_neg (by simp)]
    exact ha.properties o ho
  case contents =>
    intro a
    -- the table that changes belongs to this owner alone
    change _ = (locate a).map { h.world with
      tables := h.world.tables.modify table.index f }.tableAt
    rw [Reference.contents_edit, ha.locates.contents, ha.locates.contents]
    by_cases heq : a = owner
    · subst heq
      rw [if_pos rfl, hlocate, Option.map_some, Option.map_some, Option.map_some,
        World.tableAt_modify, if_pos ⟨rfl, ha.locates.made a table hlocate⟩]
    · rw [if_neg fun hc => heq (Place.table.inj hc)]
      refine Option.map_congr fun table' hlocate' => ?_
      rw [World.tableAt_modify, if_neg]
      rintro ⟨rfl, -⟩
      exact heq (ha.locates.apart a owner table hlocate' hlocate)

/-- Any edit of corresponding holders keeps the sides related. -/
theorem Agrees.edit (ha : Agrees h r locate) (f : SlotTable → SlotTable) {holder : Holder}
    {place : Place} (hfinds : Finds locate holder place) :
    Agrees (h.change fun w => holder.edit f w) (r.edit place f) locate := by
  refine Agrees.settle ?_
  match holder, place, hfinds with
  | .object o, .properties _, rfl => exact ha.editProperties f o
  | .table table, .table owner, hlocate => exact ha.editTable f hlocate

/-! ### Actions -/

/-- Operands stand for the same values on both sides. -/
theorem Agrees.operand (ha : Agrees h r locate) (value : Operand) :
    h.operand value = r.operand value := by
  cases value with
  | given v => rfl
  | named name => rw [Host.operand, Reference.operand, ha.objects]

/-- A host knows a brand by name as the map does. -/
theorem Agrees.token_eq (ha : Agrees h r locate) (name : String) :
    h.token name = match r.tokens.get? name with
      | some t => .ok t
      | none => .error .noToken := by
  rw [← ha.tokens]
  rfl

/-- A host knows an object by name as the map does. -/
theorem Agrees.object_eq (ha : Agrees h r locate) (name : String) :
    h.object name = match r.objects.get? name with
      | some o => .ok o
      | none => .error .noObject := by
  rw [← ha.objects]
  rfl

/-- The lookup of a known pair is that of its table in the world. -/
theorem Host.lookup_eq {token object : String} {t : TokenId} {o : ObjectId}
    (htoken : h.token token = .ok t) (hobject : h.object object = .ok o) :
    h.lookup token object = match h.world.lookupInstance? t o with
      | some table => .ok table
      | none => .error .notRegistered := by
  rw [Host.lookup, htoken, hobject]
  rfl

/-- Both sides find the same token and object, or fail for the same reason. -/
theorem Agrees.pair (ha : Agrees h r locate) (token object : String) :
    (∃ t o, r.pair token object = .ok (t, o) ∧ h.token token = .ok t ∧ h.object object = .ok o ∧
      r.tokens.get? token = some t ∧ r.objects.get? object = some o) ∨
    ∃ f, r.pair token object = .error f ∧ h.register token object = .error f ∧
      h.lookup token object = .error f := by
  have htoken := ha.token_eq token
  have hobject := ha.object_eq object
  -- the token is looked for first, so it is the one missed when both are missing
  unfold Reference.pair Host.register Host.lookup
  cases ht : r.tokens.get? token with
  | none =>
    rw [htoken, ht]
    exact Or.inr ⟨.noToken, rfl, rfl, rfl⟩
  | some t =>
    cases ho : r.objects.get? object with
    | none =>
      rw [htoken, hobject, ht, ho]
      exact Or.inr ⟨.noObject, rfl, rfl, rfl⟩
    | some o =>
      rw [htoken, hobject, ht, ho]
      exact Or.inl ⟨t, o, rfl, rfl, rfl, rfl, rfl⟩

/-- Both sides give the same answer and agree afterwards. -/
def Corresponds (x : Answer × Host) (y : Answer × Reference) : Prop :=
  x.1 = y.1 ∧ ∃ locate', Agrees x.2 y.2 locate'

/-- The same fault and no change on both sides. -/
theorem Agrees.fails (ha : Agrees h r locate) (answer : Answer) :
    Corresponds (answer, h) (answer, r) :=
  ⟨rfl, locate, ha⟩

/-- Giving out a located table answers with the same owner on both sides. -/
theorem Agrees.gives (ha : Agrees h r locate) {table : TableId} {owner : TableOwner}
    (hlocate : locate owner = some table) (keepAs : Option String) :
    Corresponds (h.give table keepAs) (r.give owner keepAs) :=
  (ha.give hlocate keepAs).imp_right fun hafter => ⟨locate, hafter⟩

/-- Registration is performed alike. -/
theorem Agrees.performs_register (ha : Agrees h r locate) (token object : String)
    (keepAs : Option String) :
    Corresponds (h.perform (.register token object keepAs))
      (r.perform (.register token object keepAs)) := by
  rw [Host.perform, Reference.perform]
  -- Either both names are known, or the same fault is found on both sides.
  obtain ⟨t, o, hpair, htoken, hobject, ht, ho⟩ | ⟨f, hpair, hfault, -⟩ := ha.pair token object
  · have hregister : h.register token object = .ok ((h.world.registerInstance t o).1,
        { h with world := (h.world.registerInstance t o).2 }) := by
      rw [Host.register, htoken, hobject]
      rfl
    obtain ⟨locate', hagrees, hlocate⟩ := ha.register ht ho
    rw [hregister, hpair]
    exact hagrees.gives hlocate keepAs
  · rw [hfault, hpair]
    exact ha.fails _

/-- Lookup is performed alike. -/
theorem Agrees.performs_lookup (ha : Agrees h r locate) (token object : String)
    (keepAs : Option String) :
    Corresponds (h.perform (.lookup token object keepAs))
      (r.perform (.lookup token object keepAs)) := by
  rw [Host.perform, Reference.perform]
  obtain ⟨t, o, hpair, htoken, hobject, ht, ho⟩ | ⟨f, hpair, -, hfault⟩ := ha.pair token object
  · -- the object is held, so the store has not forgotten the pair
    have hheld := ha.locates.held object o ho t
    have hcontents := ha.locates.contents (.pair t o)
    rw [Host.lookup_eq htoken hobject, hheld, hpair]
    cases hlocate : locate (.pair t o) with
    | none =>
      rw [hlocate] at hcontents
      simp only [hcontents]
      exact ha.fails _
    | some table =>
      rw [hlocate] at hcontents
      simp only [hcontents]
      exact ha.gives hlocate keepAs
  · rw [hfault, hpair]
    exact ha.fails _

/-- Asking for statics is performed alike. -/
theorem Agrees.performs_statics (ha : Agrees h r locate) (token : String)
    (keepAs : Option String) :
    Corresponds (h.perform (.statics token keepAs)) (r.perform (.statics token keepAs)) := by
  rw [Host.perform, Reference.perform]
  -- Either neither side knows the brand, or its statics are located.
  cases ht : r.tokens.get? token with
  | none =>
    have hfault : h.statics token = .error .noToken := by
      rw [Host.statics, Host.token, ha.tokens, ht]
      rfl
    rw [hfault]
    exact ha.fails _
  | some t =>
    have hstatics : h.statics token = .ok (h.world.tokenAt t).statics := by
      rw [Host.statics, Host.token, ha.tokens, ht]
      rfl
    have hlocate : locate (.token t) = some (h.world.tokenAt t).statics := by
      rw [ha.locates.statics, World.ownedTable?, if_pos (ha.tokenMade token t ht)]
    rw [hstatics]
    exact ha.gives hlocate keepAs

/-- **One action.** Both sides give the same answer and agree afterwards. -/
theorem Agrees.perform (ha : Agrees h r locate) (action : Action) :
    Corresponds (h.perform action) (r.perform action) := by
  -- an action fails on both sides alike, or is performed at places that correspond
  cases action with
  | create name proto => exact ⟨rfl, locate, ha.create name proto⟩
  | mint name site className => exact ⟨rfl, ha.mint name site className⟩
  | register token object keepAs => exact ha.performs_register token object keepAs
  | lookup token object keepAs => exact ha.performs_lookup token object keepAs
  | statics token keepAs => exact ha.performs_statics token keepAs
  | set holder key value =>
    rw [Host.perform, Reference.perform]
    obtain ⟨hhost, hmap⟩ | ⟨x, place, hhost, hmap, hfinds, -⟩ := ha.holder? holder
    · rw [hhost, hmap]
      exact ha.fails _
    · rw [hhost, hmap, ha.operand]
      have hedit := ha.edit (·.set key (r.operand value)) hfinds
      cases x <;> exact ⟨rfl, locate, hedit⟩
  | delete holder key =>
    rw [Host.perform, Reference.perform]
    obtain ⟨hhost, hmap⟩ | ⟨x, place, hhost, hmap, hfinds, -⟩ := ha.holder? holder
    · rw [hhost, hmap]
      exact ha.fails _
    · rw [hhost, hmap]
      have hedit := ha.edit (·.delete key) hfinds
      cases x <;> exact ⟨rfl, locate, hedit⟩
  -- what is read is the contents of both places, which agree
  | read holder =>
    rw [Host.perform, Reference.perform]
    obtain ⟨hhost, hmap⟩ | ⟨x, place, hhost, hmap, hfinds, hmade⟩ := ha.holder? holder
    · rw [hhost, hmap]
      exact ha.fails _
    · rw [hhost, hmap]
      exact ⟨congrArg Answer.contents (ha.contents hfinds hmade), locate, ha⟩
  | drop name => exact ⟨rfl, locate, ha.drop name⟩

/-- All actions are answered alike, by induction on them. -/
theorem Agrees.answers (ha : Agrees h r locate) (actions : List Action) :
    h.answers actions = r.answers actions := by
  induction actions generalizing h r locate with
  | nil => rfl
  | cons action rest ih =>
    obtain ⟨hanswer, locate', hafter⟩ := ha.perform action
    rw [Host.answers, Reference.answers, hanswer, ih hafter]

/-- **Isolation.** Whatever a host is asked to do and in whatever order, it answers as a map would
in which every object, every token and every registered pair has a table of its own.

In the map an action changes no table but the one at its target. A registration gives the pair an
empty table, or leaves it the one that it has. So a pair has a table from its first registration
on, and without one it has none. -/
theorem answers_eq (actions : List Action) :
    Host.empty.answers actions = Reference.empty.answers actions ∧
    (∀ (r : Reference) action place, r.target action ≠ some place →
      (r.perform action).2.contents place = r.contents place) ∧
    (∀ (r : Reference) t o place, (r.register t o).contents place =
      if place = .table (.pair t o) then some ((r.contents place).getD .empty)
      else r.contents place) ∧
    ∀ t o, ((Reference.empty.after actions).contents (.table (.pair t o))).isSome ↔
      ∃ before action rest, actions = before ++ action :: rest ∧
        (Reference.empty.after before).Registers action t o := by
  refine ⟨agrees_empty.answers actions, fun r _ _ => r.contents_perform_of_ne,
    Reference.contents_register, fun t o => ?_⟩
  rw [Reference.isSome_contents_after]
  exact or_iff_right fun h => nomatch h

end Enclave
