import Enclave.Host
import Enclave.Proofs.Store.Alive
import Enclave.Proofs.Store.Places
import Mathlib.Data.List.Induction

/-!
# Edits of tables

What a table holds, told from what was done to it. A key has the value that it was last set to,
unless it has been deleted since (`SlotTable.Assigns`). A key that is there was *introduced* by the
edit that set it when it was not there (`SlotTable.Introduces`), and nothing but the order of these
edits decides the order of the keys: setting a key again leaves it where it is, and a key that was
deleted is introduced anew.

A table that was edited from the empty one on *reflects* its edits (`SlotTable.reflects_after`). The
public properties of an object are such a table, and an edit of one object or table is no edit of
any other (`World.contents_edited`).
-/

namespace Enclave

namespace SlotTable

/-! ### Edits -/

/-- What is done to a table. -/
inductive Edit
  | set (key : PropertyKey) (value : Value)
  | delete (key : PropertyKey)

/-- The key that an edit is about. -/
def Edit.key : Edit → PropertyKey
  | .set key _ | .delete key => key

/-- The value that an edit gives to its key, unless it takes the key out. -/
def Edit.value? : Edit → Option Value
  | .set _ value => some value
  | .delete _ => none

/-- The table after an edit. -/
def edit (t : SlotTable) : Edit → SlotTable
  | .set key value => t.set key value
  | .delete key => t.delete key

/-- The table that some edits make of the empty one. -/
def after (edits : List Edit) : SlotTable := edits.foldl edit .empty

variable {edits : List Edit} {e : Edit} {key other : PropertyKey} {value x : Value} {n : ℕ}

/-- One more edit is made last. -/
theorem after_concat (edits : List Edit) (e : Edit) : after (edits ++ [e]) = (after edits).edit e :=
  List.foldl_append

/-- What a key has after an edit. -/
theorem get?_edit (t : SlotTable) (e : Edit) (key : PropertyKey) :
    (t.edit e).get? key = if e.key = key then e.value? else t.get? key := by
  cases e with
  | set key' value => exact get?_set t key' key value
  | delete key' => exact get?_delete t key' key

/-! ### What the edits say of a key -/

/-- The key was set to the value, and no later edit is about it. -/
def Assigns (edits : List Edit) (key : PropertyKey) (value : Value) : Prop :=
  ∃ past later, edits = past ++ .set key value :: later ∧ ∀ e ∈ later, e.key ≠ key

/-- The key was set and has not been deleted since. -/
def IsSet (edits : List Edit) (key : PropertyKey) : Prop := ∃ value, Assigns edits key value

/-- The edit with this number set the key when it was not there, and it has been there since. -/
structure Introduces (edits : List Edit) (key : PropertyKey) (n : ℕ) : Prop where
  set : ∃ value, edits[n]? = some (.set key value)
  absent : ¬IsSet (edits.take n) key
  kept : .delete key ∉ edits.drop (n + 1)

/-- One key was introduced before another. -/
def Precedes (edits : List Edit) (key other : PropertyKey) : Prop :=
  ∀ i j, Introduces edits key i → Introduces edits other j → i < j

/-- The table is what its edits say it is. -/
structure Reflects (t : SlotTable) (edits : List Edit) : Prop where
  value : ∀ key value, t.get? key = some value ↔ Assigns edits key value
  has : ∀ key, t.has key = true ↔ IsSet edits key
  present : ∀ key, key ∈ t.keys ↔ IsSet edits key
  nodup : t.keys.Nodup
  introduced : ∀ key ∈ t.keys, ∃! n, Introduces edits key n
  order : t.keys.Pairwise (Precedes edits)
  size : t.size = t.keys.length
  isEmpty : t.isEmpty = true ↔ t.keys = []

/-! ### One more edit -/

/-- Without edits no key has a value. -/
theorem not_assigns_nil : ¬Assigns [] key value := by
  rintro ⟨past, later, heq, -⟩
  simp at heq

/-- An edit about another key changes nothing. -/
theorem assigns_concat_of_ne (h : e.key ≠ key) :
    Assigns (edits ++ [e]) key value ↔ Assigns edits key value := by
  constructor
  · rintro ⟨past, later, heq, hlater⟩
    -- the last edit has another key, so the assignment stands before it
    obtain rfl | ⟨later, last, rfl⟩ := later.eq_nil_or_concat
    · obtain ⟨-, hlast⟩ := List.append_inj' heq rfl
      rw [List.singleton_inj.mp hlast] at h
      exact absurd rfl h
    · rw [List.concat_eq_append] at heq hlater
      rw [← List.cons_append, ← List.append_assoc] at heq
      refine ⟨past, later, (List.append_inj' heq rfl).1, fun e' he' => hlater e' ?_⟩
      exact List.mem_append_left _ he'
  · rintro ⟨past, later, rfl, hlater⟩
    refine ⟨past, later ++ [e], by simp, fun e' he' => ?_⟩
    rcases List.mem_append.mp he' with he' | he'
    · exact hlater e' he'
    · exact List.mem_singleton.mp he' ▸ h

/-- An edit about the key decides what it has. -/
theorem assigns_concat_self (h : e.key = key) :
    Assigns (edits ++ [e]) key value ↔ e.value? = some value := by
  constructor
  · rintro ⟨past, later, heq, hlater⟩
    -- an earlier assignment would be overwritten by the last edit, which has its key
    obtain rfl | ⟨later, last, rfl⟩ := later.eq_nil_or_concat
    · rw [List.singleton_inj.mp (List.append_inj' heq rfl).2]
      rfl
    · rw [List.concat_eq_append] at heq hlater
      rw [← List.cons_append, ← List.append_assoc] at heq
      obtain rfl := List.singleton_inj.mp (List.append_inj' heq rfl).2
      exact absurd h (hlater e (by simp))
  · intro hvalue
    cases e with
    | set key' value' =>
      cases h
      cases hvalue
      exact ⟨edits, [], rfl, nofun⟩
    | delete key' => cases hvalue

/-- An edit of another key does not matter. -/
theorem isSet_concat_of_ne (h : e.key ≠ key) : IsSet (edits ++ [e]) key ↔ IsSet edits key :=
  exists_congr fun _ => assigns_concat_of_ne h

/-- A key that was set last is set. -/
theorem isSet_concat_set (edits : List Edit) (key : PropertyKey) (value : Value) :
    IsSet (edits ++ [.set key value]) key :=
  ⟨value, (assigns_concat_self rfl).mpr rfl⟩

/-- A key that was deleted last is not set. -/
theorem not_isSet_concat_delete (edits : List Edit) (key : PropertyKey) :
    ¬IsSet (edits ++ [.delete key]) key := by
  rintro ⟨value, h⟩
  exact nomatch (assigns_concat_self rfl).mp h

/-- A key is introduced by one of the edits. -/
theorem Introduces.lt_length (h : Introduces edits key n) : n < edits.length := by
  obtain ⟨value, hset⟩ := h.set
  exact (List.getElem?_eq_some_iff.mp hset).1

/-- Another edit introduces a key that it sets if the key is not there, and all keys that it does
not delete stay as they were introduced. -/
theorem introduces_concat : Introduces (edits ++ [e]) key n ↔
    (Introduces edits key n ∧ e ≠ .delete key) ∨
      (n = edits.length ∧ (∃ value, e = .set key value) ∧ ¬IsSet edits key) := by
  -- before the last edit, at the last edit, or after it, where there is none
  obtain hlt | rfl | hlt := Nat.lt_trichotomy n edits.length
  · have htake : (edits ++ [e]).take n = edits.take n := List.take_append_of_le_length hlt.le
    have hdrop : (edits ++ [e]).drop (n + 1) = edits.drop (n + 1) ++ [e] :=
      List.drop_append_of_le_length hlt
    have hget : (edits ++ [e])[n]? = edits[n]? := List.getElem?_append_left hlt
    constructor
    · rintro ⟨hset, habsent, hkept⟩
      rw [hget] at hset
      rw [htake] at habsent
      rw [hdrop, List.mem_append, List.mem_singleton, not_or] at hkept
      exact Or.inl ⟨⟨hset, habsent, hkept.1⟩, Ne.symm hkept.2⟩
    · rintro (⟨⟨hset, habsent, hkept⟩, hne⟩ | ⟨rfl, -⟩)
      · refine ⟨?_, ?_, ?_⟩
        · rwa [hget]
        · rwa [htake]
        · rw [hdrop, List.mem_append, List.mem_singleton, not_or]
          exact ⟨hkept, Ne.symm hne⟩
      · exact absurd hlt (Nat.lt_irrefl _)
  · -- an edit before the last: it introduces the key unless the last one deletes it
    constructor
    · rintro ⟨⟨value, hset⟩, habsent, -⟩
      rw [List.getElem?_concat_length, Option.some.injEq] at hset
      rw [List.take_left'] at habsent
      · exact Or.inr ⟨rfl, ⟨value, hset⟩, habsent⟩
      · rfl
    · rintro (⟨h, -⟩ | ⟨-, ⟨value, rfl⟩, habsent⟩)
      · exact absurd h.lt_length (Nat.lt_irrefl _)
      · refine ⟨⟨value, List.getElem?_concat_length⟩, ?_, ?_⟩
        · rwa [List.take_left' rfl]
        · rw [List.drop_of_length_le (by simp)]
          exact List.not_mem_nil
  · refine iff_of_false (fun h => ?_) ?_
    · have := h.lt_length
      rw [List.length_append, List.length_singleton] at this
      omega
    · rintro (⟨h, -⟩ | ⟨rfl, -⟩)
      · exact absurd h.lt_length (Nat.lt_asymm hlt)
      · exact absurd hlt (Nat.lt_irrefl _)

/-- What was introduced is there. -/
theorem Introduces.isSet (h : Introduces edits key n) : IsSet edits key := by
  -- By the last edit: it introduces the key, or the key was introduced before and not deleted
  -- since.
  induction edits using List.reverseRecOn with
  | nil => exact absurd h.lt_length (Nat.not_lt_zero _)
  | append_singleton edits e ih =>
    obtain ⟨hold, hne⟩ | ⟨-, ⟨value, rfl⟩, -⟩ := introduces_concat.mp h
    · by_cases heq : e.key = key
      · cases e with
        | set key' value => exact heq ▸ isSet_concat_set edits key' value
        | delete key' => exact absurd (congrArg Edit.delete heq) hne
      · exact (isSet_concat_of_ne heq).mpr (ih hold)
    · exact isSet_concat_set edits key value

/-- A key that is there keeps the edit that introduced it. -/
theorem Introduces.of_concat (h : Introduces (edits ++ [e]) key n) (hset : IsSet edits key) :
    Introduces edits key n := by
  obtain ⟨hold, -⟩ | ⟨-, -, habsent⟩ := introduces_concat.mp h
  · exact hold
  · exact absurd hset habsent

/-- What is there was introduced by one edit. -/
theorem existsUnique_introduces (h : IsSet edits key) : ∃! n, Introduces edits key n := by
  induction edits using List.reverseRecOn with
  | nil =>
    obtain ⟨value, hnil⟩ := h
    exact absurd hnil not_assigns_nil
  | append_singleton edits e ih =>
    -- Either the key was there already and has been kept, or the last edit introduces it.
    by_cases hset : IsSet edits key
    · obtain ⟨n, hn, hunique⟩ := ih hset
      refine ⟨n, introduces_concat.mpr (Or.inl ⟨hn, ?_⟩), fun n' hn' => hunique n' ?_⟩
      · rintro rfl
        exact not_isSet_concat_delete edits key h
      · exact hn'.of_concat hset
    · -- only an edit that sets the key can have introduced it
      have hkey : e.key = key := by
        by_contra hne
        exact hset ((isSet_concat_of_ne hne).mp h)
      obtain ⟨value, hassigns⟩ := h
      have he : e = .set key value := by
        cases e with
        | set key' value' =>
          cases hkey
          exact congrArg _ (Option.some.inj ((assigns_concat_self rfl).mp hassigns))
        | delete key' => exact nomatch (assigns_concat_self hkey).mp hassigns
      refine ⟨edits.length, introduces_concat.mpr (Or.inr ⟨rfl, ⟨value, he⟩, hset⟩), ?_⟩
      intro n hn
      obtain ⟨hold, -⟩ | ⟨rfl, -⟩ := introduces_concat.mp hn
      · exact absurd hold.isSet hset
      · rfl

/-- Keys that stay set stay in order. -/
theorem Precedes.concat (h : Precedes edits key other) (hkey : IsSet edits key)
    (hother : IsSet edits other) : Precedes (edits ++ [e]) key other :=
  fun i j hi hj => h i j (hi.of_concat hkey) (hj.of_concat hother)

/-! ### Tables reflect their edits -/

/-- A table has under a key what it was last set to. -/
theorem get?_after (edits : List Edit) (key : PropertyKey) (value : Value) :
    (after edits).get? key = some value ↔ Assigns edits key value := by
  induction edits using List.reverseRecOn with
  | nil => exact iff_of_false nofun not_assigns_nil
  | append_singleton edits e ih =>
    rw [after_concat, get?_edit]
    by_cases heq : e.key = key
    · rw [if_pos heq, assigns_concat_self heq]
    · rw [if_neg heq, assigns_concat_of_ne heq, ih]

/-- A table has the keys that are set. -/
theorem has_after (edits : List Edit) (key : PropertyKey) :
    (after edits).has key = true ↔ IsSet edits key := by
  rw [has, Option.isSome_iff_exists]
  exact exists_congr fun value => get?_after edits key value

/-- The keys of a table are those that are set. -/
theorem mem_keys_after (edits : List Edit) (key : PropertyKey) :
    key ∈ (after edits).keys ↔ IsSet edits key :=
  ((after edits).has_iff_mem_keys key).symm.trans (has_after edits key)

/-- No key is listed twice. -/
theorem nodup_keys_after (edits : List Edit) : (after edits).keys.Nodup := by
  induction edits using List.reverseRecOn with
  | nil => exact List.nodup_nil
  | append_singleton edits e ih =>
    rw [after_concat]
    cases e with
    | set key value =>
      rw [edit, keys_set]
      split
      · exact ih
      · -- a key is only added when it is not there
        next hmem => exact ih.append (List.nodup_singleton key) (by simpa using hmem)
    | delete key =>
      rw [edit, keys_delete]
      exact ih.filter _

/-- **Order.** Keys stand in the order in which they were introduced. -/
theorem pairwise_keys_after (edits : List Edit) :
    (after edits).keys.Pairwise (Precedes edits) := by
  induction edits using List.reverseRecOn with
  | nil => exact List.Pairwise.nil
  | append_singleton edits e ih =>
    -- an edit more keeps the order of what was introduced before
    have hold : (after edits).keys.Pairwise (Precedes (edits ++ [e])) := by
      refine ih.imp_of_mem fun ha hb h => ?_
      exact h.concat ((mem_keys_after edits _).mp ha) ((mem_keys_after edits _).mp hb)
    rw [after_concat]
    cases e with
    | set key value =>
      rw [edit, keys_set]
      split
      · exact hold
      · next hmem =>
        -- the last edit introduces the key, after all others
        refine List.pairwise_append.mpr ⟨hold, List.pairwise_singleton _ _, fun a ha b hb => ?_⟩
        obtain rfl := List.mem_singleton.mp hb
        intro i j hi hj
        have hlt := (hi.of_concat ((mem_keys_after edits a).mp ha)).lt_length
        obtain ⟨hintroduced, -⟩ | ⟨rfl, -⟩ := introduces_concat.mp hj
        · exact absurd ((mem_keys_after edits b).mpr hintroduced.isSet) hmem
        · exact hlt
    -- what is left keeps its order
    | delete key =>
      rw [edit, keys_delete]
      exact hold.filter _

/-- **A table reflects its edits.** -/
theorem reflects_after (edits : List Edit) : (after edits).Reflects edits where
  value := get?_after edits
  has := has_after edits
  present := mem_keys_after edits
  nodup := nodup_keys_after edits
  introduced key hkey := existsUnique_introduces ((mem_keys_after edits key).mp hkey)
  order := pairwise_keys_after edits
  size := (length_keys _).symm
  isEmpty := by simp [isEmpty, keys]

end SlotTable

/-! ### Edits in a world -/

deriving instance DecidableEq for Holder

/-- The thing that has properties or slots. -/
def Holder.node : Holder → Node
  | .object o => .object o
  | .table t => .table t

namespace World

variable (w : World) (place : Holder)

/-- The own properties of an object, or the slots of a table. -/
def contents : Holder → SlotTable
  | .object o => (w.objectAt o).properties
  | .table t => w.tableAt t

/-- The world after an edit of an object or a table. -/
def edit : SlotTable.Edit → World
  | .set key value =>
    match place with
    | .object o => w.setProperty o key value
    | .table t => w.setSlot t key value
  | .delete key =>
    match place with
    | .object o => w.deleteProperty o key
    | .table t => w.deleteSlot t key

/-- The world after edits of any objects and tables. -/
def edited (history : List (Holder × SlotTable.Edit)) : World :=
  history.foldl (fun w (place, e) => w.edit place e) w

/-- An edit is one of the contents of its place. -/
theorem contents_edit_self {w : World} {place : Holder} (hplace : w.Has place.node)
    (e : SlotTable.Edit) : (w.edit place e).contents place = (w.contents place).edit e := by
  -- The public properties of an object, or the slots of a table.
  cases place with
  | object o =>
    have hobject : ∀ f : Object → Object, (w.updateObject o f).objectAt o = f (w.objectAt o) :=
      fun f => (objectAt_updateObject w o o f).trans (if_pos ⟨rfl, hplace⟩)
    cases e <;> exact congrArg Object.properties (hobject _)
  | table t =>
    have htable : ∀ f : SlotTable → SlotTable,
        { w with tables := w.tables.modify t.index f }.tableAt t = f (w.tableAt t) :=
      fun f => (tableAt_modify w t t f).trans (if_pos ⟨rfl, hplace⟩)
    cases e <;> exact htable _

/-- **Frame.** The contents of other places stay as they are. -/
theorem contents_edit_of_ne {place other : Holder} (hne : place ≠ other) (e : SlotTable.Edit) :
    (w.edit place e).contents other = w.contents other := by
  -- objects and tables are kept apart, and an edit modifies one of one kind
  cases place with
  | object o =>
    have hobject : ∀ f : Object → Object, (w.updateObject o f).contents other = w.contents other :=
      fun f => by
        cases other with
        | object o' =>
          rw [contents, objectAt_updateObject, if_neg fun h => hne (congrArg _ h.1)]
          rfl
        | table t => rfl
    cases e <;> exact hobject _
  | table t =>
    have htable : ∀ f : SlotTable → SlotTable,
        { w with tables := w.tables.modify t.index f }.contents other = w.contents other :=
      fun f => by
        cases other with
        | object o => rfl
        | table t' =>
          rw [contents, tableAt_modify, if_neg fun h => hne (congrArg _ h.1)]
          rfl
    cases e <;> exact htable _

/-- An edit makes nothing and takes nothing away. -/
theorem has_edit (e : SlotTable.Edit) (n : Node) : (w.edit place e).Has n ↔ w.Has n := by
  cases place <;> cases e <;> cases n <;>
    simp [edit, Has, setProperty, deleteProperty, setSlot, deleteSlot, updateObject]

/-- The edits among some that are edits of a place. -/
def editsOf (history : List (Holder × SlotTable.Edit)) : List SlotTable.Edit :=
  (history.filter (·.1 = place)).map (·.2)

/-- **Histories.** The contents of a place are what its own edits make of them, whatever else is
edited in between. -/
theorem contents_edited {w : World} {place : Holder} (hplace : w.Has place.node)
    (history : List (Holder × SlotTable.Edit)) :
    (w.edited history).contents place =
      (editsOf place history).foldl SlotTable.edit (w.contents place) := by
  induction history generalizing w with
  | nil => rfl
  | cons x history ih =>
    obtain ⟨place', e⟩ := x
    refine (ih ((has_edit w place' e place.node).mpr hplace)).trans ?_
    -- an edit of another place leaves the contents of this one
    by_cases heq : place' = place
    · subst heq
      rw [contents_edit_self hplace]
      simp [editsOf]
    · rw [contents_edit_of_ne w heq]
      simp [editsOf, heq]

end World

end Enclave
