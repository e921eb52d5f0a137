import Enclave.Store.InstanceArena
import Mathlib.Data.List.Basic

/-!
# Handles of an arena

What a handle finds after an instance has been put into an arena or taken out of it. Both change
what one handle finds and nothing else (`occupant?_insert`, `occupant?_remove`), although places are
used again: a place is vacated with a new generation, so the handle from before and the handle of
the next instance differ.

The laws need the free list to hold vacant places only, each once (`InstanceArena.IsSound`). Both
operations keep that.
-/

namespace Enclave.InstanceArena

variable {a : InstanceArena} {o : ObjectId} {table : TableId} {h : Handle}

/-- The free list holds the vacant places, each once. -/
structure IsSound (a : InstanceArena) : Prop where
  nodup : a.free.Nodup
  vacant : ∀ i, i ∈ a.free ↔ ∃ entry, a.entries[i]? = some entry ∧ entry.occupant = none

theorem isSound_empty : empty.IsSound where
  nodup := List.nodup_nil
  vacant i := by simp [empty]

@[simp] theorem occupant?_empty (h : Handle) : empty.occupant? h = none := by
  simp [occupant?, empty]

/-- A handle that finds something has the generation of its entry. -/
theorem occupant?_eq_some_iff {x : Occupant} :
    a.occupant? h = some x ↔
      ∃ entry, a.entries[h.index]? = some entry ∧ entry.generation = h.generation ∧
        entry.occupant = some x := by
  unfold occupant?
  cases hentry : a.entries[h.index]? with
  | none => simp
  | some entry =>
    by_cases hgen : entry.generation = h.generation <;> simp [hgen]

theorem occupant?_of_vacant {i : Nat} {g : UInt32} {entry : Entry}
    (hentry : a.entries[i]? = some entry) (hvacant : entry.occupant = none) :
    a.occupant? ⟨i, g⟩ = none := by
  simp only [occupant?, hentry, hvacant, ite_self]

/-! ### Putting an instance in -/

/-- The next handle finds the new occupant, and every other handle finds what it found before. -/
theorem occupant?_insert (ha : a.IsSound) (o : ObjectId) (table : TableId) (h : Handle) :
    (a.insert o table).occupant? h =
      if h = a.nextHandle then some ⟨o, table⟩ else a.occupant? h := by
  obtain ⟨i, g⟩ := h
  unfold insert nextHandle
  cases hfree : a.free with
  -- with no place free, the entry is put at the end, in its first generation
  | nil =>
    simp only [occupant?, Array.getElem?_push, Handle.mk.injEq]
    by_cases hi : i = a.entries.size
    · subst hi
      by_cases hg : g = 0
      · simp [hg]
      · simp [hg, Ne.symm hg]
    · simp [hi]
  -- a free place is taken, in the generation it was left at
  | cons place free =>
    obtain ⟨entry, hentry, hvacant⟩ := (ha.vacant place).mp (by simp [hfree])
    have hget : a.entries.getD place default = entry := by
      simp [Array.getD_eq_getD_getElem?, hentry]
    simp only [hget, Handle.mk.injEq]
    by_cases hi : i = place
    · subst hi
      rw [occupant?_of_vacant hentry hvacant]
      by_cases hg : g = entry.generation
      · simp [occupant?, Array.getElem?_modify, hentry, hg]
      · simp [occupant?, Array.getElem?_modify, hentry, hg, Ne.symm hg]
    · simp [occupant?, Array.getElem?_modify, hi, Ne.symm hi]

/-- The handle to be given out next finds nothing yet. -/
theorem occupant?_nextHandle (ha : a.IsSound) : a.occupant? a.nextHandle = none := by
  unfold nextHandle
  cases hfree : a.free with
  | nil => simp [occupant?]
  | cons place free =>
    obtain ⟨entry, hentry, hvacant⟩ := (ha.vacant place).mp (by simp [hfree])
    exact occupant?_of_vacant hentry hvacant

theorem IsSound.insert (ha : a.IsSound) (o : ObjectId) (table : TableId) :
    (a.insert o table).IsSound := by
  unfold InstanceArena.insert
  cases hfree : a.free with
  -- no place is free after it either: the new one is filled
  | nil =>
    refine ⟨List.nodup_nil, fun i => ?_⟩
    have hfull := ha.vacant i
    simp only [hfree, List.not_mem_nil, false_iff, not_exists, not_and] at hfull
    simp only [List.not_mem_nil, Array.getElem?_push, false_iff, not_exists, not_and]
    intro entry hentry
    split at hentry
    · cases hentry
      simp
    · exact hfull entry hentry
  -- the place taken is no longer free, and the others are as they were
  | cons place free =>
    have hnodup := ha.nodup
    rw [hfree, List.nodup_cons] at hnodup
    refine ⟨hnodup.2, fun i => ?_⟩
    have hvacant := ha.vacant i
    rw [hfree, List.mem_cons] at hvacant
    simp only [Array.getElem?_modify]
    by_cases hi : place = i
    · subst hi
      cases hentry : a.entries[place]? <;> simp [hnodup.1]
    · rw [if_neg hi, ← hvacant]
      simp [Ne.symm hi]

/-! ### Taking an instance out -/

/-- The handle finds nothing any more, and every other handle finds what it found before. -/
theorem occupant?_remove (a : InstanceArena) (h h' : Handle) :
    (a.remove h).occupant? h' = if h' = h then none else a.occupant? h' := by
  unfold remove
  cases hfound : a.occupant? h with
  | none =>
    by_cases heq : h' = h
    · subst heq
      simp [hfound]
    · simp [heq]
  | some x =>
    -- the place goes on to its next generation, which the handle is not of
    obtain ⟨entry, hentry, hgen, -⟩ := occupant?_eq_some_iff.mp hfound
    obtain ⟨i, g⟩ := h'
    obtain ⟨j, g'⟩ := h
    simp only at hentry hgen
    simp only [Option.isSome_some, if_true, Handle.mk.injEq]
    by_cases hi : i = j
    · subst hi
      by_cases hg : g = g'
      · simp [occupant?, Array.getElem?_modify, hentry, hg]
      · simp [occupant?, Array.getElem?_modify, hentry, hgen, hg, Ne.symm hg]
    · simp [occupant?, Array.getElem?_modify, hi, Ne.symm hi]

theorem IsSound.remove (ha : a.IsSound) (h : Handle) : (a.remove h).IsSound := by
  unfold InstanceArena.remove
  cases hfound : a.occupant? h with
  | none => simpa using ha
  | some x =>
    obtain ⟨entry, hentry, -, hx⟩ := occupant?_eq_some_iff.mp hfound
    -- a place that is filled is not among the free ones yet
    have hnot : h.index ∉ a.free := by
      rw [ha.vacant]
      rintro ⟨entry', hentry', hvacant⟩
      rw [hentry, Option.some.injEq] at hentry'
      rw [hentry', hvacant] at hx
      cases hx
    simp only [Option.isSome_some, if_true]
    refine ⟨List.nodup_cons.mpr ⟨hnot, ha.nodup⟩, fun i => ?_⟩
    rw [List.mem_cons, ha.vacant]
    simp only [Array.getElem?_modify]
    by_cases hi : h.index = i
    · subst hi
      simp [hentry]
    · simp [hi, Ne.symm hi]

/-! ### The table of an instance -/

/-- A handle has a table for an instance exactly if the instance is what it finds. -/
theorem resolve?_eq_some_iff :
    a.resolve? h o = some table ↔ a.occupant? h = some ⟨o, table⟩ := by
  unfold resolve?
  cases hfound : a.occupant? h with
  | none => simp
  | some x =>
    obtain ⟨inst, t⟩ := x
    by_cases hinst : inst = o <;> simp [hinst]

/-- The tables of an arena are those that its handles find. -/
theorem mem_tables_iff : table ∈ a.tables ↔ ∃ h o, a.occupant? h = some ⟨o, table⟩ := by
  simp only [tables, List.mem_filterMap, Option.map_eq_some_iff]
  constructor
  · -- the place of the entry and its generation make the handle
    rintro ⟨entry, hmem, x, hx, rfl⟩
    obtain ⟨i, hi, hentry⟩ := List.mem_iff_getElem.mp hmem
    refine ⟨⟨i, entry.generation⟩, x.inst, occupant?_eq_some_iff.mpr ⟨entry, ?_, rfl, hx⟩⟩
    simpa [Array.getElem?_eq_some_iff] using ⟨by simpa using hi, hentry⟩
  · rintro ⟨h, o, hfound⟩
    obtain ⟨entry, hentry, -, hx⟩ := occupant?_eq_some_iff.mp hfound
    exact ⟨entry, by simpa using Array.mem_of_getElem? hentry, _, hx, rfl⟩

end Enclave.InstanceArena
