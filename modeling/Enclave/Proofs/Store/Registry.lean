import Enclave.Proofs.Store.Arena
import Enclave.Proofs.Store.Places
import Mathlib.Data.List.Nodup

/-!
# Registration

Brands on objects and entries of arenas match one another (`World.IsRegistry`), so a token keeps a
table for an object exactly if one of its handles finds the object (`lookupInstance?_eq_some_iff`).
From this follows what registering an object does: it changes what is kept for the pair and nothing
else (`lookupInstance?_registerInstance`).

A table is owned by a token, as its static table, or by a token and an object together
(`TableOwner`). No table has two owners.
-/

namespace Enclave

/-- Whom a table belongs to. -/
inductive TableOwner
  | token (t : TokenId)
  | pair (t : TokenId) (o : ObjectId)
  deriving DecidableEq

/-- The token that a table belongs to, alone or together with an object. -/
def TableOwner.tokenId : TableOwner → TokenId
  | .token t | .pair t _ => t

namespace World

/-- The table of an owner, if it has one. -/
def ownedTable? (w : World) : TableOwner → Option TableId
  | .token t => if t.index < w.tokens.size then some (w.tokenAt t).statics else none
  | .pair t o => w.lookupInstance? t o

/-- An object bears a brand exactly if the handle of the brand finds it, and at most one brand of
each token. -/
structure IsMatched (w : World) : Prop where
  arenas : ∀ t, (w.tokenAt t).instances.IsSound
  matched : ∀ t o h, ⟨t, h⟩ ∈ (w.objectAt o).brands ↔
    ∃ table, (w.tokenAt t).instances.occupant? h = some ⟨o, table⟩
  nodup : ∀ o, ((w.objectAt o).brands.map (·.token)).Nodup

/-- Brands and entries match, and no table has two owners. -/
structure IsRegistry (w : World) : Prop extends IsMatched w where
  made : ∀ owner table, w.ownedTable? owner = some table → table.index < w.tables.size
  apart : ∀ a b table, w.ownedTable? a = some table → w.ownedTable? b = some table → a = b

variable {w : World} {t t' : TokenId} {o o' : ObjectId} {table table' : TableId}

/-- Two brands of one token on one object are the same brand. -/
theorem IsMatched.brand_unique (hw : w.IsMatched) {h h' : Handle}
    (hb : ⟨t, h⟩ ∈ (w.objectAt o).brands) (hb' : ⟨t, h'⟩ ∈ (w.objectAt o).brands) : h = h' := by
  have heq := List.inj_on_of_nodup_map (hw.nodup o) hb hb' rfl
  simpa using heq

/-- **What is kept for a pair.** A token keeps a table for an object exactly if a handle of the
token finds the object with that table. -/
theorem lookupInstance?_eq_some_iff (hw : w.IsMatched) :
    w.lookupInstance? t o = some table ↔
      ∃ h, (w.tokenAt t).instances.occupant? h = some ⟨o, table⟩ := by
  simp only [lookupInstance?, Option.bind_eq_some_iff, InstanceArena.resolve?_eq_some_iff]
  constructor
  · rintro ⟨brand, -, hfound⟩
    exact ⟨brand.handle, hfound⟩
  · rintro ⟨h, hfound⟩
    have hmem : ⟨t, h⟩ ∈ (w.objectAt o).brands := (hw.matched t o h).mpr ⟨table, hfound⟩
    -- an object has at most one brand of a token, so the brand found is the one of the handle
    obtain ⟨brand, hbrand⟩ : ∃ brand, w.brand? t o = some brand := by
      rw [← Option.isSome_iff_exists, brand?, List.find?_isSome]
      exact ⟨_, hmem, by simp⟩
    refine ⟨brand, hbrand, ?_⟩
    obtain ⟨token, h'⟩ := brand
    have htoken : token = t := by simpa using List.find?_some hbrand
    subst htoken
    rwa [hw.brand_unique (List.mem_of_find?_eq_some hbrand) hmem]

/-- Only a thing that was made bears brands. -/
theorem IsMatched.lt_of_lookup (hw : w.IsMatched) (h : w.lookupInstance? t o = some table) :
    t.index < w.tokens.size ∧ o.index < w.objects.size := by
  obtain ⟨handle, hfound⟩ := (lookupInstance?_eq_some_iff hw).mp h
  have hmem := (hw.matched t o handle).mpr ⟨table, hfound⟩
  refine ⟨?_, ?_⟩
  · -- a token that was not minted has an empty arena
    by_contra hlt
    rw [instances_of_size_le (by omega), InstanceArena.occupant?_empty] at hfound
    cases hfound
  · by_contra hlt
    rw [brands_of_size_le (by omega)] at hmem
    cases hmem

/-- A world without objects and tokens. -/
theorem isRegistry_of_none (htokens : w.tokens.size = 0) (hobjects : w.objects.size = 0) :
    w.IsRegistry := by
  -- without tokens and objects no table has an owner
  have hnone : ∀ owner, w.ownedTable? owner = none := by
    rintro (t | ⟨t, o⟩)
    · simp [ownedTable?, htokens]
    · simp [ownedTable?, lookupInstance?, brand?, brands_of_size_le (w := w) (o := o) (by omega)]
  refine ⟨⟨fun t => ?_, fun t o h => ?_, fun o => ?_⟩, fun owner table h => ?_,
    fun a b table h => ?_⟩
  · rw [instances_of_size_le (by omega)]
    exact InstanceArena.isSound_empty
  · rw [instances_of_size_le (by omega), brands_of_size_le (by omega)]
    simp
  · simp [brands_of_size_le (w := w) (o := o) (by omega)]
  · rw [hnone] at h
    cases h
  · rw [hnone] at h
    cases h

/-! ### Changes that register nobody -/

/-- Two worlds in which the same objects are registered with the same tokens. -/
structure SameRegistrations (w w' : World) : Prop where
  tokens : w'.tokens = w.tokens
  brands : ∀ o, (w'.objectAt o).brands = (w.objectAt o).brands
  tables : w.tables.size ≤ w'.tables.size

/-- Tokens are the same where registrations are. -/
theorem SameRegistrations.tokenAt {w w' : World} (h : SameRegistrations w w') (t : TokenId) :
    w'.tokenAt t = w.tokenAt t := by
  rw [World.tokenAt, h.tokens]
  rfl

/-- Lookups are the same where registrations are. -/
theorem SameRegistrations.lookupInstance? {w w' : World} (h : SameRegistrations w w') (t : TokenId)
    (o : ObjectId) : w'.lookupInstance? t o = w.lookupInstance? t o := by
  rw [World.lookupInstance?, World.brand?, h.brands, h.tokenAt]
  rfl

/-- Owners are the same where registrations are. -/
theorem SameRegistrations.ownedTable? {w w' : World} (h : SameRegistrations w w')
    (owner : TableOwner) : w'.ownedTable? owner = w.ownedTable? owner := by
  cases owner with
  | token t => rw [World.ownedTable?, h.tokens, h.tokenAt]; rfl
  | pair t o => exact h.lookupInstance? t o

/-- A registry stays one where registrations are the same. -/
theorem SameRegistrations.isRegistry {w w' : World} (h : SameRegistrations w w')
    (hw : w.IsRegistry) : w'.IsRegistry where
  arenas t := by rw [h.tokenAt]; exact hw.arenas t
  matched t o handle := by rw [h.tokenAt, h.brands]; exact hw.matched t o handle
  nodup o := by rw [h.brands]; exact hw.nodup o
  made owner table hmade := by
    rw [h.ownedTable?] at hmade
    exact Nat.lt_of_lt_of_le (hw.made owner table hmade) h.tables
  apart a b table ha hb := by
    rw [h.ownedTable?] at ha hb
    exact hw.apart a b table ha hb

/-- A new object registers nobody. -/
theorem sameRegistrations_newObject (w : World) (proto : Option ObjectId) :
    SameRegistrations w (w.newObject proto).2 where
  tokens := rfl
  brands o := by
    rw [objectAt_newObject]
    split
    · next ho => rw [brands_of_size_le (by omega)]
    · rfl
  tables := Nat.le_refl _

/-- A change of an object that leaves its brands alone. -/
theorem sameRegistrations_updateObject (w : World) (o : ObjectId) {f : Object → Object}
    (hf : ∀ object, (f object).brands = object.brands) :
    SameRegistrations w (w.updateObject o f) where
  tokens := rfl
  brands o' := by
    rw [objectAt_updateObject]
    split
    · exact hf _
    · rfl
  tables := Nat.le_refl _

/-- A change of what tables hold. -/
theorem sameRegistrations_tables (w : World) (t : TableId) (f : SlotTable → SlotTable) :
    SameRegistrations w { w with tables := w.tables.modify t.index f } where
  tokens := rfl
  brands _ := rfl
  tables := by simp

/-! ### New owners -/

/-- A new table with a new owner has no other. -/
theorem apart_of_newOwner {w w' : World} (hw : w.IsRegistry) {owner : TableOwner}
    (howned : ∀ a, w'.ownedTable? a = if a = owner then some ⟨w.tables.size⟩ else w.ownedTable? a)
    (a b : TableOwner) (table : TableId) (ha : w'.ownedTable? a = some table)
    (hb : w'.ownedTable? b = some table) : a = b := by
  have hold : ∀ c, w.ownedTable? c ≠ some ⟨w.tables.size⟩ := fun c hc =>
    absurd (hw.made c _ hc) (Nat.lt_irrefl w.tables.size)
  rw [howned] at ha hb
  split at ha <;> split at hb
  · next hea heb => exact hea.trans heb.symm
  · next => rw [← Option.some.inj ha] at hb; exact absurd hb (hold b)
  · next => rw [← Option.some.inj hb] at ha; exact absurd ha (hold a)
  · next => exact hw.apart a b table ha hb

/-- One new owner with a new table leaves all owned tables made. -/
theorem made_of_newOwner {w w' : World} (hw : w.IsRegistry) {owner : TableOwner}
    (hsize : w'.tables.size = w.tables.size + 1)
    (howned : ∀ a, w'.ownedTable? a = if a = owner then some ⟨w.tables.size⟩ else w.ownedTable? a)
    (a : TableOwner) (table : TableId) (ha : w'.ownedTable? a = some table) :
    table.index < w'.tables.size := by
  rw [howned] at ha
  split at ha
  · rw [← Option.some.inj ha, hsize]
    exact Nat.lt_succ_self _
  · have := hw.made a table ha
    omega

/-- Minting leaves the instances of all tokens alone; the new one has none. -/
theorem instances_mintToken (w : World) (site : ClassSite) (name : String) (t : TokenId) :
    ((w.mintToken site name).2.tokenAt t).instances = (w.tokenAt t).instances := by
  rw [tokenAt_mintToken]
  split
  · next ht => rw [instances_of_size_le (by omega)]
  · rfl

/-- Minting a token registers nobody. -/
theorem lookupInstance?_mintToken (w : World) (site : ClassSite) (name : String) (t : TokenId)
    (o : ObjectId) : (w.mintToken site name).2.lookupInstance? t o = w.lookupInstance? t o := by
  unfold lookupInstance?
  rw [instances_mintToken]
  rfl

/-- A new token owns its new statics; other owners keep what they own. -/
theorem ownedTable?_mintToken (w : World) (site : ClassSite) (name : String)
    (a : TableOwner) :
    (w.mintToken site name).2.ownedTable? a =
      if a = .token ⟨w.tokens.size⟩ then some ⟨w.tables.size⟩ else w.ownedTable? a := by
  cases a with
  -- a new token has no instances
  | pair t o => simpa [ownedTable?] using lookupInstance?_mintToken w site name t o
  | token t =>
    obtain ⟨i⟩ := t
    have hsize : (w.mintToken site name).2.tokens.size = w.tokens.size + 1 := Array.size_push _
    simp only [ownedTable?, hsize, tokenAt_mintToken, TableOwner.token.injEq, TokenId.mk.injEq]
    by_cases hi : i = w.tokens.size
    · simp [hi]
    · have hiff : i < w.tokens.size + 1 ↔ i < w.tokens.size := by omega
      simp [hi, hiff]

/-- Minting a token leaves a registry. -/
theorem IsRegistry.mintToken (hw : w.IsRegistry) (site : ClassSite) (name : String) :
    (w.mintToken site name).2.IsRegistry where
  arenas t := by rw [instances_mintToken]; exact hw.arenas t
  matched t o h := by rw [instances_mintToken]; exact hw.matched t o h
  nodup o := hw.nodup o
  made := made_of_newOwner hw (Array.size_push _) (ownedTable?_mintToken w site name)
  apart := apart_of_newOwner hw (ownedTable?_mintToken w site name)

/-! ### Registering an object -/

/-- Registering what is registered changes nothing. -/
theorem registerInstance_of_some (h : w.lookupInstance? t o = some table) :
    w.registerInstance t o = (table, w) := by
  rw [registerInstance, h]

/-- The world after an object is given its table. -/
theorem registerInstance_of_none (h : w.lookupInstance? t o = none) :
    w.registerInstance t o =
      (⟨w.tables.size⟩, (w.newTable.2.updateInstances t (·.insert o ⟨w.tables.size⟩)).updateObject o
        fun object =>
          { object with
            brands := object.brands.filter (·.token ≠ t) ++
              [⟨t, (w.tokenAt t).instances.nextHandle⟩] }) := by
  rw [registerInstance, h]
  rfl

/-- An object bears no brand of a token that keeps no table for it. -/
theorem IsMatched.no_brand (hw : w.IsMatched) (h : w.lookupInstance? t o = none) :
    ∀ brand ∈ (w.objectAt o).brands, brand.token ≠ t := by
  rintro ⟨token, handle⟩ hmem rfl
  obtain ⟨table, hfound⟩ := (hw.matched _ o handle).mp hmem
  have hsome := (lookupInstance?_eq_some_iff hw).mpr ⟨handle, hfound⟩
  rw [h] at hsome
  cases hsome

/-- It is the new table that the object is given. -/
theorem tables_registerInstance (h : w.lookupInstance? t o = none) :
    (w.registerInstance t o).2.tables = w.tables.push .empty := by
  rw [registerInstance_of_none h]
  rfl

section Register

variable (hw : w.IsRegistry) (ht : t.index < w.tokens.size) (ho : o.index < w.objects.size)
  (h : w.lookupInstance? t o = none)

include h ht in
/-- Registering an object puts one entry into one arena. -/
theorem tokenAt_registerInstance (t' : TokenId) :
    (w.registerInstance t o).2.tokenAt t' =
      if t = t' then
        { w.tokenAt t with instances := (w.tokenAt t).instances.insert o ⟨w.tables.size⟩ }
      else w.tokenAt t' := by
  rw [registerInstance_of_none h, tokenAt_updateObject, tokenAt_updateInstances]
  by_cases heq : t = t'
  · subst heq
    rw [if_pos rfl, if_pos ⟨rfl, ht⟩]
    rfl
  · rw [if_neg heq, if_neg (fun hc => heq hc.1)]
    rfl

include hw h ho in
/-- Registering an object gives it one brand. -/
theorem brands_registerInstance (o' : ObjectId) :
    ((w.registerInstance t o).2.objectAt o').brands =
      if o = o' then (w.objectAt o).brands ++ [⟨t, (w.tokenAt t).instances.nextHandle⟩]
      else (w.objectAt o').brands := by
  -- The object has no brand of the token yet, so none is replaced.
  have hfilter : (w.objectAt o).brands.filter (·.token ≠ t) = (w.objectAt o).brands :=
    List.filter_eq_self.mpr fun brand hmem => by simpa using hw.no_brand h brand hmem
  rw [registerInstance_of_none h, objectAt_updateObject]
  by_cases heq : o = o'
  · subst heq
    rw [if_pos ⟨rfl, ho⟩, if_pos rfl, ← hfilter]
    rfl
  · rw [if_neg (fun hc => heq hc.1), if_neg heq]
    rfl

include hw ht ho h in
/-- Afterwards brands and entries still match: the new brand carries the handle of the new entry. -/
theorem isMatched_registerInstance : (w.registerInstance t o).2.IsMatched := by
  refine ⟨fun t' => ?_, fun t' o' handle => ?_, fun o' => ?_⟩
  · rw [tokenAt_registerInstance ht h]
    split
    · exact (hw.arenas t).insert _ _
    · exact hw.arenas t'
  · -- a handle to the new pair matches the new brand, and any other matches as before
    have hold := hw.matched t' o' handle
    rw [brands_registerInstance hw ho h, tokenAt_registerInstance ht h]
    by_cases heqt : t = t'
    · subst heqt
      simp only [if_true, InstanceArena.occupant?_insert (hw.arenas t)]
      by_cases hnext : handle = (w.tokenAt t).instances.nextHandle
      · subst hnext
        rw [InstanceArena.occupant?_nextHandle (hw.arenas t)] at hold
        by_cases heqo : o = o'
        · simp [heqo]
        · simp [heqo, hold]
      · by_cases heqo : o = o'
        · simp [heqo, hnext, hold]
        · simp [heqo, hnext, hold]
    · rw [if_neg heqt, ← hold]
      by_cases heqo : o = o'
      · simp [heqo, Ne.symm heqt]
      · simp [heqo]
  · rw [brands_registerInstance hw ho h]
    split
    · next heqo =>
      subst heqo
      rw [List.map_append, List.nodup_append]
      refine ⟨hw.nodup o, by simp, ?_⟩
      -- the object had no brand of this token, so none of its brands is repeated
      intro token hmem token' hmem' heq
      obtain ⟨brand, hbrand, rfl⟩ := List.mem_map.mp hmem
      simp only [List.map_cons, List.map_nil, List.mem_singleton] at hmem'
      exact hw.no_brand h brand hbrand (heq.trans hmem')
    · exact hw.nodup o'

include hw ht ho h in
/-- Registering an object finds its new table, and no other lookup changes. -/
theorem lookupInstance?_registerInstance_of_none (t' : TokenId) (o' : ObjectId) :
    (w.registerInstance t o).2.lookupInstance? t' o' =
      if t' = t ∧ o' = o then some ⟨w.tables.size⟩ else w.lookupInstance? t' o' := by
  refine Option.ext fun table => ?_
  rw [lookupInstance?_eq_some_iff (isMatched_registerInstance hw ht ho h),
    tokenAt_registerInstance ht h]
  -- Only the arena of the one token has a new entry, and only the one object is found by it.
  by_cases heqt : t = t'
  · subst heqt
    simp only [if_true, InstanceArena.occupant?_insert (hw.arenas t), true_and]
    by_cases heqo : o' = o
    · subst heqo
      -- any other handle that found the object would have been a brand of the token already
      have hnone : ∀ handle x, (w.tokenAt t).instances.occupant? handle ≠ some ⟨o', x⟩ :=
        fun handle x hfound => by
          have := (lookupInstance?_eq_some_iff hw.toIsMatched).mpr ⟨handle, hfound⟩
          rw [h] at this
          cases this
      rw [if_pos rfl, Option.some.injEq]
      refine ⟨?_, fun heq => ⟨_, by rw [if_pos rfl, heq]⟩⟩
      rintro ⟨handle, hfound⟩
      split at hfound
      · simpa using hfound
      · exact absurd hfound (hnone handle table)
    · rw [if_neg heqo, lookupInstance?_eq_some_iff hw.toIsMatched]
      refine exists_congr fun handle => ?_
      split
      · next hnext =>
        subst hnext
        rw [InstanceArena.occupant?_nextHandle (hw.arenas t)]
        simp [Ne.symm heqo]
      · rfl
  · rw [if_neg heqt, if_neg (fun hc => heqt hc.1.symm), lookupInstance?_eq_some_iff hw.toIsMatched]

end Register

/-- **Registering.** The pair has its table afterwards, and every other pair has what it had. -/
theorem lookupInstance?_registerInstance (hw : w.IsRegistry) (ht : t.index < w.tokens.size)
    (ho : o.index < w.objects.size) (t' : TokenId) (o' : ObjectId) :
    (w.registerInstance t o).2.lookupInstance? t' o' =
      if t' = t ∧ o' = o then some (w.registerInstance t o).1 else w.lookupInstance? t' o' := by
  cases h : w.lookupInstance? t o with
  | none =>
    rw [lookupInstance?_registerInstance_of_none hw ht ho h, registerInstance_of_none h]
  | some table =>
    rw [registerInstance_of_some h]
    split
    · next heq => rw [heq.1, heq.2, h]
    · rfl

/-- A table that is made by registering has the pair as its owner, and owners of other tables keep
them. -/
theorem ownedTable?_registerInstance (hw : w.IsRegistry) (ht : t.index < w.tokens.size)
    (ho : o.index < w.objects.size) (h : w.lookupInstance? t o = none) (a : TableOwner) :
    (w.registerInstance t o).2.ownedTable? a =
      if a = .pair t o then some ⟨w.tables.size⟩ else w.ownedTable? a := by
  cases a with
  | pair t' o' =>
    simp only [ownedTable?, TableOwner.pair.injEq]
    exact lookupInstance?_registerInstance_of_none hw ht ho h t' o'
  -- registering an instance leaves the static table of every token
  | token t' =>
    rw [if_neg (by simp), ownedTable?, tokenCount_registerInstance, tokenAt_registerInstance ht h]
    by_cases heq : t = t'
    · subst heq
      rw [if_pos rfl]
      rfl
    · rw [if_neg heq]
      rfl

/-- Registering an object leaves a registry. -/
theorem IsRegistry.registerInstance (hw : w.IsRegistry) (ht : t.index < w.tokens.size)
    (ho : o.index < w.objects.size) : (w.registerInstance t o).2.IsRegistry := by
  -- Either the pair has its table already, or it becomes a new owner.
  cases h : w.lookupInstance? t o with
  | some table => rwa [registerInstance_of_some h]
  | none =>
    have howned := ownedTable?_registerInstance hw ht ho h
    have hsize : (w.registerInstance t o).2.tables.size = w.tables.size + 1 := by
      rw [tables_registerInstance h, Array.size_push]
    exact
      { isMatched_registerInstance hw ht ho h with
        made := made_of_newOwner hw hsize howned
        apart := apart_of_newOwner hw howned }

end World

end Enclave
