import Enclave.Proofs.Store.Registry
import Enclave.Store.Reclaim

/-!
# Letting go of objects

Reclaiming vacates the entries of objects that nothing holds. It changes nothing but who is
registered with whom (`sameContents_reclaim`): what is held keeps its tables, and what is not loses
them (`lookupInstance?_reclaim`). Entries whose tokens are gone are vacated as well, so that no
table of an object that is gone can come back.
-/

namespace Enclave

namespace World

variable {w : World} {t t' : TokenId} {o o' : ObjectId} {table table' : TableId}

/-! ### Letting go of an object -/

/-- The world without the entries that some brands stand for. -/
def vacate (w : World) (brands : List Brand) : World :=
  brands.foldl (fun w brand => w.updateInstances brand.token (·.remove brand.handle)) w

/-- Letting go of an object vacates the entries of its brands and takes the brands from it. -/
theorem releaseObject_eq (w : World) (o : ObjectId) :
    w.releaseObject o =
      (w.vacate (w.objectAt o).brands).updateObject o fun object => { object with brands := [] } :=
  rfl

/-- Vacating one entry leaves the occupants of all others. -/
theorem occupant?_updateInstances_remove (w : World) (brand : Brand) (t : TokenId)
    (handle : Handle) :
    ((w.updateInstances brand.token (·.remove brand.handle)).tokenAt t).instances.occupant? handle =
      if (⟨t, handle⟩ : Brand) = brand then none
      else (w.tokenAt t).instances.occupant? handle := by
  obtain ⟨t', handle'⟩ := brand
  simp only [tokenAt_updateInstances, Brand.mk.injEq]
  by_cases heqt : t' = t
  · subst heqt
    by_cases hlt : t'.index < w.tokens.size
    · simp [hlt, InstanceArena.occupant?_remove]
    · simp [hlt, instances_of_size_le (w := w) (t := t') (by omega)]
  · simp [heqt, Ne.symm heqt]

/-- Who is left when the entries of some brands have been vacated. -/
theorem occupant?_vacate (brands : List Brand) (w : World) (t : TokenId) (handle : Handle) :
    ((w.vacate brands).tokenAt t).instances.occupant? handle =
      if ⟨t, handle⟩ ∈ brands then none else (w.tokenAt t).instances.occupant? handle := by
  -- Brand by brand: each vacates its own entry and no other.
  induction brands generalizing w with
  | nil => rfl
  | cons brand brands ih =>
    change ((vacate _ brands).tokenAt t).instances.occupant? handle = _
    rw [ih, occupant?_updateInstances_remove]
    by_cases hmem : ⟨t, handle⟩ ∈ brands
    · rw [if_pos hmem, if_pos (List.mem_cons_of_mem _ hmem)]
    · rw [if_neg hmem]
      simp [hmem]

/-- Two worlds that differ in nothing but who is registered with whom. -/
structure SameContents (w w' : World) : Prop where
  functions : w'.functions = w.functions
  classes : w'.classes = w.classes
  scopes : w'.scopes = w.scopes
  tables : w'.tables = w.tables
  objectCount : w'.objects.size = w.objects.size
  tokenCount : w'.tokens.size = w.tokens.size
  proto : ∀ o, (w'.objectAt o).proto = (w.objectAt o).proto
  properties : ∀ o, (w'.objectAt o).properties = (w.objectAt o).properties
  site : ∀ t, (w'.tokenAt t).site = (w.tokenAt t).site
  name : ∀ t, (w'.tokenAt t).name = (w.tokenAt t).name
  statics : ∀ t, (w'.tokenAt t).statics = (w.tokenAt t).statics

/-- A world has its own contents. -/
theorem SameContents.refl (w : World) : SameContents w w :=
  ⟨rfl, rfl, rfl, rfl, rfl, rfl, fun _ => rfl, fun _ => rfl, fun _ => rfl, fun _ => rfl,
    fun _ => rfl⟩

/-- Having the same contents is symmetric. -/
theorem SameContents.symm {w w' : World} (h : SameContents w w') : SameContents w' w where
  functions := h.functions.symm
  classes := h.classes.symm
  scopes := h.scopes.symm
  tables := h.tables.symm
  objectCount := h.objectCount.symm
  tokenCount := h.tokenCount.symm
  proto o := (h.proto o).symm
  properties o := (h.properties o).symm
  site t := (h.site t).symm
  name t := (h.name t).symm
  statics t := (h.statics t).symm

/-- Having the same contents is transitive. -/
theorem SameContents.trans {w₁ w₂ w₃ : World} (h : SameContents w₁ w₂) (h' : SameContents w₂ w₃) :
    SameContents w₁ w₃ where
  functions := h'.functions.trans h.functions
  classes := h'.classes.trans h.classes
  scopes := h'.scopes.trans h.scopes
  tables := h'.tables.trans h.tables
  objectCount := h'.objectCount.trans h.objectCount
  tokenCount := h'.tokenCount.trans h.tokenCount
  proto o := (h'.proto o).trans (h.proto o)
  properties o := (h'.properties o).trans (h.properties o)
  site t := (h'.site t).trans (h.site t)
  name t := (h'.name t).trans (h.name t)
  statics t := (h'.statics t).trans (h.statics t)

/-- Who is registered is no part of the contents. -/
theorem sameContents_updateInstances (w : World) (t : TokenId)
    (f : InstanceArena → InstanceArena) : SameContents w (w.updateInstances t f) := by
  refine ⟨rfl, rfl, rfl, rfl, rfl, size_updateInstances w t f, fun _ => rfl, fun _ => rfl, ?_, ?_,
    ?_⟩ <;>
  · intro t'
    rw [tokenAt_updateInstances]
    split <;> rfl

/-- Vacating entries leaves the contents. -/
theorem sameContents_vacate (brands : List Brand) (w : World) :
    SameContents w (w.vacate brands) := by
  induction brands generalizing w with
  | nil => exact .refl w
  | cons brand brands ih => exact (sameContents_updateInstances w _ _).trans (ih _)

/-- Vacating entries leaves the objects. -/
theorem objectAt_vacate (brands : List Brand) (w : World) (o : ObjectId) :
    (w.vacate brands).objectAt o = w.objectAt o := by
  induction brands generalizing w with
  | nil => rfl
  | cons brand brands ih => exact ih _

/-- Letting go of an object leaves the contents. -/
theorem sameContents_releaseObject (w : World) (o : ObjectId) :
    SameContents w (w.releaseObject o) := by
  refine (sameContents_vacate (w.objectAt o).brands w).trans ?_
  refine ⟨rfl, rfl, rfl, rfl, size_updateObject _ _ _, rfl, ?_, ?_, fun _ => rfl, fun _ => rfl,
    fun _ => rfl⟩ <;>
  · intro o'
    rw [releaseObject_eq, objectAt_updateObject]
    split <;> rfl

/-- Letting go of an object takes its brands and no others. -/
theorem brands_releaseObject (w : World) (o o' : ObjectId) :
    ((w.releaseObject o).objectAt o').brands =
      if o = o' then [] else (w.objectAt o').brands := by
  rw [releaseObject_eq, objectAt_updateObject, objectAt_vacate]
  by_cases heq : o = o'
  · subst heq
    by_cases hlt : o.index < w.objects.size
    · rw [if_pos ⟨rfl, by rwa [(sameContents_vacate _ w).objectCount]⟩, if_pos rfl]
    · rw [if_neg (fun h => hlt (by rw [← (sameContents_vacate _ w).objectCount]; exact h.2)),
        if_pos rfl, brands_of_size_le (by omega)]
  · rw [if_neg (fun h => heq h.1), if_neg heq]

/-- Afterwards a handle finds what it found, unless that was the object that is gone. -/
theorem occupant?_releaseObject (hw : w.IsMatched) (o : ObjectId) (t : TokenId) (handle : Handle)
    (x : Occupant) :
    ((w.releaseObject o).tokenAt t).instances.occupant? handle = some x ↔
      (w.tokenAt t).instances.occupant? handle = some x ∧ x.inst ≠ o := by
  rw [releaseObject_eq, tokenAt_updateObject, occupant?_vacate]
  obtain ⟨inst, table⟩ := x
  -- the handles vacated are those in the brands of the object
  by_cases hmem : ⟨t, handle⟩ ∈ (w.objectAt o).brands
  · obtain ⟨table', hfound⟩ := (hw.matched t o handle).mp hmem
    rw [if_pos hmem, hfound]
    simp only [reduceCtorEq, Option.some.injEq, Occupant.mk.injEq, false_iff, not_and,
      Classical.not_not]
    exact fun heq => heq.1.symm
  · rw [if_neg hmem]
    refine ⟨fun hfound => ⟨hfound, ?_⟩, fun h => h.1⟩
    rintro rfl
    exact hmem ((hw.matched t _ handle).mpr ⟨table, hfound⟩)

/-- Arenas stay sound when entries are vacated. -/
theorem isSound_vacate (brands : List Brand) {w : World}
    (hw : ∀ t, (w.tokenAt t).instances.IsSound) (t : TokenId) :
    ((w.vacate brands).tokenAt t).instances.IsSound := by
  induction brands generalizing w with
  | nil => exact hw t
  | cons brand brands ih =>
    refine ih fun t' => ?_
    rw [tokenAt_updateInstances]
    split
    · exact (hw t').remove _
    · exact hw t'

/-- Brands and occupants still match when an object has been let go. -/
theorem IsMatched.releaseObject (hw : w.IsMatched) (o : ObjectId) :
    (w.releaseObject o).IsMatched := by
  refine ⟨fun t => ?_, fun t o' handle => ?_, fun o' => ?_⟩
  · exact isSound_vacate _ hw.arenas t
  · simp only [brands_releaseObject, occupant?_releaseObject hw]
    -- The object let go has neither brands nor entries left; for others nothing changes.
    by_cases heq : o = o'
    · subst heq
      simp
    · simp [heq, hw.matched t o' handle, Ne.symm heq]
  · rw [brands_releaseObject]
    split
    · exact List.nodup_nil
    · exact hw.nodup o'

/-- **Letting go.** Nothing is kept for the object any more, and for every other object what was
kept before. -/
theorem lookupInstance?_releaseObject (hw : w.IsMatched) (o : ObjectId) (t : TokenId)
    (o' : ObjectId) :
    (w.releaseObject o).lookupInstance? t o' =
      if o' = o then none else w.lookupInstance? t o' := by
  refine Option.ext fun table => ?_
  rw [lookupInstance?_eq_some_iff (hw.releaseObject o)]
  simp only [occupant?_releaseObject hw]
  by_cases heq : o' = o
  · simp [heq]
  · simp [heq, lookupInstance?_eq_some_iff hw]

/-- A table that is owned after an object has been let go was owned before. -/
theorem ownedTable?_of_releaseObject (hw : w.IsMatched) {a : TableOwner}
    (h : (w.releaseObject o).ownedTable? a = some table) : w.ownedTable? a = some table := by
  -- Statics belong to tokens, which stay; tables of pairs may go.
  cases a with
  | token t =>
    have hsame := sameContents_releaseObject w o
    rwa [ownedTable?, hsame.tokenCount, hsame.statics] at h
  | pair t o' =>
    rw [ownedTable?, lookupInstance?_releaseObject hw] at h
    split at h
    · cases h
    · exact h

/-- Letting go of an object leaves a registry. -/
theorem IsRegistry.releaseObject (hw : w.IsRegistry) (o : ObjectId) :
    (w.releaseObject o).IsRegistry :=
  { hw.toIsMatched.releaseObject o with
    made := fun a table h => by
      rw [(sameContents_releaseObject w o).tables]
      exact hw.made a table (ownedTable?_of_releaseObject hw.toIsMatched h)
    apart := fun a b table ha hb =>
      hw.apart a b table (ownedTable?_of_releaseObject hw.toIsMatched ha)
        (ownedTable?_of_releaseObject hw.toIsMatched hb) }

/-! ### Reclaiming -/

/-- Letting go of some objects one after another. -/
def releaseAll (w : World) (gone : List ObjectId) : World := gone.foldl World.releaseObject w

/-- Letting go of objects leaves the contents. -/
theorem sameContents_releaseAll (gone : List ObjectId) (w : World) :
    SameContents w (w.releaseAll gone) := by
  induction gone generalizing w with
  | nil => exact .refl w
  | cons o gone ih => exact (sameContents_releaseObject w o).trans (ih _)

/-- Letting go of objects leaves a registry. -/
theorem IsRegistry.releaseAll (hw : w.IsRegistry) (gone : List ObjectId) :
    (w.releaseAll gone).IsRegistry := by
  induction gone generalizing w with
  | nil => exact hw
  | cons o gone ih => exact ih (hw.releaseObject o)

/-- Letting go of objects takes their tables and no others. -/
theorem lookupInstance?_releaseAll (hw : w.IsMatched) (gone : List ObjectId) (t : TokenId)
    (o : ObjectId) :
    (w.releaseAll gone).lookupInstance? t o =
      if o ∈ gone then none else w.lookupInstance? t o := by
  induction gone generalizing w with
  | nil => rfl
  | cons o' gone ih =>
    refine (ih (hw.releaseObject o')).trans ?_
    rw [lookupInstance?_releaseObject hw]
    by_cases heq : o = o'
    · simp [heq]
    · simp [heq]

/-- The objects that a reclamation lets go of: those that are registered somewhere and that nothing
holds. -/
def unheld (w : World) (roots : List Node) : List ObjectId :=
  ((List.range w.objects.size).map ObjectId.mk).filter fun o =>
    !(w.objectAt o).brands.isEmpty && !w.isAlive roots (.object o)

/-- Reclaiming lets go of the objects that nothing holds. -/
theorem reclaim_eq (w : World) (roots : List Node) :
    w.reclaim roots = w.releaseAll (w.unheld roots) := rfl

/-- Reclaiming leaves the contents. -/
theorem sameContents_reclaim (w : World) (roots : List Node) : SameContents w (w.reclaim roots) :=
  sameContents_releaseAll _ w

/-- Reclaiming leaves a registry. -/
theorem IsRegistry.reclaim (hw : w.IsRegistry) (roots : List Node) : (w.reclaim roots).IsRegistry :=
  hw.releaseAll _

/-- **Reclaiming.** What is held keeps its tables, and what is not loses them. -/
theorem lookupInstance?_reclaim (hw : w.IsMatched) (roots : List Node) (t : TokenId)
    (o : ObjectId) :
    (w.reclaim roots).lookupInstance? t o =
      if w.isAlive roots (.object o) then w.lookupInstance? t o else none := by
  rw [reclaim_eq, lookupInstance?_releaseAll hw]
  cases hlookup : w.lookupInstance? t o with
  | none => simp
  | some table =>
    obtain ⟨handle, hfound⟩ := (lookupInstance?_eq_some_iff hw).mp hlookup
    have hbrand := (hw.matched t o handle).mpr ⟨table, hfound⟩
    have hmade := (hw.lt_of_lookup hlookup).2
    -- a branded object is released just when it is not alive
    have hmem : o ∈ w.unheld roots ↔ w.isAlive roots (.object o) = false := by
      have hne : (w.objectAt o).brands ≠ [] := List.ne_nil_of_mem hbrand
      simp only [unheld, List.mem_filter, List.mem_map, List.mem_range, Bool.and_eq_true,
        Bool.not_eq_true', List.isEmpty_eq_false_iff]
      exact ⟨fun h => h.2.2, fun h => ⟨⟨o.index, hmade, rfl⟩, hne, h⟩⟩
    by_cases halive : w.isAlive roots (.object o) <;> simp [hmem, halive]

end World

end Enclave
