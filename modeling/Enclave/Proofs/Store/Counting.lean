import Enclave.Proofs.Store.Release
import Mathlib.Data.List.Count
import Mathlib.Data.Set.Card

/-!
# Counting instances

The number that a token keeps of its instances is the number of its filled entries
(`World.IsCounted`). Brands and entries match, so that is the number of objects for which it keeps a
table (`World.liveInstances_eq_ncard`).
-/

namespace Enclave

namespace InstanceArena

variable {a : InstanceArena}

/-- The instances of all filled entries. -/
def instances (a : InstanceArena) : List ObjectId :=
  a.entries.toList.filterMap fun entry => entry.occupant.map (·.inst)

/-- The number of filled entries is kept. -/
def IsCounted (a : InstanceArena) : Prop := a.live = a.instances.length

theorem isCounted_iff :
    a.IsCounted ↔ a.live = a.entries.toList.countP fun entry => entry.occupant.isSome := by
  simp [IsCounted, instances, List.length_filterMap_eq_countP]

theorem isCounted_empty : empty.IsCounted := rfl

theorem IsCounted.insert (ha : a.IsCounted) (hsound : a.IsSound) (o : ObjectId) (table : TableId) :
    (a.insert o table).IsCounted := by
  rw [isCounted_iff] at ha ⊢
  unfold InstanceArena.insert
  cases hfree : a.free with
  | nil => simp [ha, List.countP_append]
  | cons place free =>
    -- a free place is vacant, so filling it adds exactly one occupant
    obtain ⟨entry, hentry, hvacant⟩ := (hsound.vacant place).mp (by simp [hfree])
    obtain ⟨hplace, hget⟩ := Array.getElem?_eq_some_iff.mp hentry
    have hlt : place < a.entries.toList.length := hplace
    have hempty : a.entries.toList[place].occupant = none := by
      rw [Array.getElem_toList, hget, hvacant]
    simp only [Array.toList_modify, List.modify_eq_set]
    rw [List.countP_set hlt, hempty, ha]
    simp

theorem IsCounted.remove (ha : a.IsCounted) (h : Handle) : (a.remove h).IsCounted := by
  unfold InstanceArena.remove
  cases hfound : a.occupant? h with
  | none => simpa using ha
  | some x =>
    rw [isCounted_iff] at ha ⊢
    obtain ⟨entry, hentry, -, hx⟩ := occupant?_eq_some_iff.mp hfound
    obtain ⟨hplace, hget⟩ := Array.getElem?_eq_some_iff.mp hentry
    have hlt : h.index < a.entries.toList.length := hplace
    -- The entry that is vacated was filled, so the count is one less.
    have hfilled : a.entries.toList[h.index].occupant = some x := by
      rw [Array.getElem_toList, hget, hx]
    simp only [Option.isSome_some, if_true, Array.toList_modify, List.modify_eq_set]
    rw [List.countP_set hlt, hfilled, ha]
    simp

theorem mem_instances_iff {o : ObjectId} :
    o ∈ a.instances ↔ ∃ h table, a.occupant? h = some ⟨o, table⟩ := by
  simp only [instances, List.mem_filterMap, Option.map_eq_some_iff]
  constructor
  · -- the place of the entry and its generation make the handle
    rintro ⟨entry, hmem, x, hx, rfl⟩
    obtain ⟨i, hi, hentry⟩ := List.mem_iff_getElem.mp hmem
    refine ⟨⟨i, entry.generation⟩, x.table, occupant?_eq_some_iff.mpr ⟨entry, ?_, rfl, hx⟩⟩
    rw [← Array.getElem?_toList, List.getElem?_eq_getElem hi, hentry]
  · rintro ⟨h, table, hfound⟩
    obtain ⟨entry, hentry, -, hx⟩ := occupant?_eq_some_iff.mp hfound
    exact ⟨entry, by simpa using Array.mem_of_getElem? hentry, _, hx, rfl⟩

/-- If no two handles find the same instance, each is noted once. -/
theorem nodup_instances (hunique : ∀ h h' o table table', a.occupant? h = some ⟨o, table⟩ →
    a.occupant? h' = some ⟨o, table'⟩ → h = h') : a.instances.Nodup := by
  rw [instances, List.Nodup, List.pairwise_filterMap, List.pairwise_iff_getElem]
  intro i j hi hj hij o ho o' ho' heq
  -- each occupied place answers to a handle of its own, and no two handles share an instance
  have hfind : ∀ {k : ℕ} (hk : k < a.entries.toList.length),
      a.entries.toList[k].occupant.map (·.inst) = some o →
      ∃ table, a.occupant? ⟨k, a.entries.toList[k].generation⟩ = some ⟨o, table⟩ := by
    intro k hk hinst
    obtain ⟨x, hx, rfl⟩ := Option.map_eq_some_iff.mp hinst
    refine ⟨x.table, occupant?_eq_some_iff.mpr ⟨a.entries.toList[k], ?_, rfl, hx⟩⟩
    rw [← Array.getElem?_toList, List.getElem?_eq_getElem hk]
  subst heq
  obtain ⟨table, hfound⟩ := hfind hi ho
  obtain ⟨table', hfound'⟩ := hfind hj ho'
  have hsame : i = j := congrArg Handle.index (hunique _ _ _ _ _ hfound hfound')
  omega

end InstanceArena

namespace World

variable {w w' : World} {t : TokenId} {o : ObjectId}

/-- Every token keeps the number of its filled entries. -/
def IsCounted (w : World) : Prop := ∀ t, (w.tokenAt t).instances.IsCounted

theorem IsCounted.updateInstances (hw : w.IsCounted) (t : TokenId)
    {f : InstanceArena → InstanceArena}
    (hf : (f (w.tokenAt t).instances).IsCounted) : (w.updateInstances t f).IsCounted := by
  intro t'
  rw [tokenAt_updateInstances]
  split
  · next h => exact h.1 ▸ hf
  · exact hw t'

theorem IsCounted.of_sameTokens (hw : w.IsCounted) (h : w'.tokens = w.tokens) : w'.IsCounted := by
  intro t
  rw [tokenAt, h]
  exact hw t

theorem IsCounted.registerInstance (hw : w.IsCounted) (hmatched : w.IsMatched) (t : TokenId)
    (o : ObjectId) : (w.registerInstance t o).2.IsCounted := by
  unfold World.registerInstance
  split
  · exact hw
  · have hnew : w.newTable.2.IsCounted := hw.of_sameTokens rfl
    have hinsert : (w.newTable.2.updateInstances t (·.insert o w.newTable.1)).IsCounted :=
      hnew.updateInstances t ((hw t).insert (hmatched.arenas t) o _)
    exact hinsert.of_sameTokens rfl

theorem IsCounted.releaseObject (hw : w.IsCounted) (o : ObjectId) :
    (w.releaseObject o).IsCounted := by
  have hvacate : ∀ (brands : List Brand) {w : World}, w.IsCounted →
      (w.vacate brands).IsCounted := by
    intro brands
    induction brands with
    | nil => exact id
    | cons brand brands ih => exact fun hw => ih (hw.updateInstances _ ((hw _).remove _))
  exact (hvacate _ hw).of_sameTokens rfl

theorem IsCounted.releaseAll (hw : w.IsCounted) (gone : List ObjectId) :
    (w.releaseAll gone).IsCounted := by
  induction gone generalizing w with
  | nil => exact hw
  | cons o gone ih => exact ih (hw.releaseObject o)

/-- **Counting.** The number that a token keeps is that of the objects it keeps a table for. -/
theorem liveInstances_eq_ncard (hw : w.IsCounted) (hmatched : w.IsMatched) (t : TokenId) :
    w.liveInstances t = {o | (w.lookupInstance? t o).isSome}.ncard := by
  -- No object is registered twice with one token.
  have hnodup : (w.tokenAt t).instances.instances.Nodup := by
    refine InstanceArena.nodup_instances fun h h' o table table' hfound hfound' => ?_
    exact hmatched.brand_unique ((hmatched.matched t o h).mpr ⟨table, hfound⟩)
      ((hmatched.matched t o h').mpr ⟨table', hfound'⟩)
  have hset : {o | (w.lookupInstance? t o).isSome} =
      ((w.tokenAt t).instances.instances.toFinset : Set ObjectId) := by
    ext o
    rw [Set.mem_ofPred_eq, List.coe_toFinset, Set.mem_ofPred_eq, InstanceArena.mem_instances_iff,
      Option.isSome_iff_exists, exists_comm]
    exact exists_congr fun table => lookupInstance?_eq_some_iff hmatched
  calc w.liveInstances t = (w.tokenAt t).instances.instances.length := hw t
    _ = (w.tokenAt t).instances.instances.toFinset.card := (List.toFinset_card_of_nodup hnodup).symm
    _ = {o | (w.lookupInstance? t o).isSome}.ncard := by rw [hset, Set.ncard_coe_finset]

end World

end Enclave
