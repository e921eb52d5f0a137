import Enclave.Proofs.Store.Edits

/-!
# Prototypes

A property is looked up in an object, then in its prototype, then in that one's prototype and so on;
and a class has a chain of ancestors. Where prototypes and parents are older than what has them
(`World.IsAged`), every chain ends (`World.IsAged.isLine_protoChain`,
`World.IsAged.isLine_classChain`), and no bound on walking it cuts anything off.

A lookup comes to the first object on the chain that has the key (`World.Meets`). What is found
there is the value of the property (`World.IsAged.getProperty?_eq_some_iff`). An edit of one object
changes what is found under its key from those objects from which a lookup meets it, and nothing
else (`World.IsAged.redirects_edit`).
-/

namespace Enclave

/-! ### Lines of ancestors -/

/-- A thing and its ancestors, down to one that has no parent. -/
inductive IsLine {α : Type} (parent : α → Option α) : α → List α → Prop
  | last {a : α} (h : parent a = none) : IsLine parent a [a]
  | next {a p : α} {line : List α} (h : parent a = some p) (hline : IsLine parent p line) :
    IsLine parent a (a :: line)

/-- Where each parent has a smaller rank than its child, a bound above the rank cuts nothing off. -/
theorem isLine_lineage {α : Type} {parent : α → Option α} (rank : α → ℕ)
    (decreasing : ∀ a p, parent a = some p → rank p < rank a) {bound : ℕ} {a : α}
    (h : rank a < bound) : IsLine parent a (lineage parent bound a) := by
  -- On the bound: the rank falls with it from child to parent.
  induction bound generalizing a with
  | zero => exact absurd h (Nat.not_lt_zero _)
  | succ bound ih =>
    cases hparent : parent a with
    | none =>
      rw [lineage_of_none hparent]
      exact .last hparent
    | some p =>
      have hlt := decreasing a p hparent
      rw [lineage_of_some hparent]
      exact .next hparent (ih (by omega))

namespace World

variable {w w' : World} {key k : PropertyKey} {o o' p h : ObjectId} {v : Value}

/-- Prototypes and parents are older than what has them. -/
structure IsAged (w : World) : Prop where
  proto : ∀ o p, (w.objectAt o).proto = some p → p.index < o.index
  parent : ∀ c p, (w.classAt c).parent = some p → p.index < c.index

/-- Prototypes and parents are older than what has them in every world that has the same ones. -/
theorem IsAged.of_same (hw : w.IsAged) (hproto : ∀ o, (w'.objectAt o).proto = (w.objectAt o).proto)
    (hclasses : w'.classes = w.classes) : w'.IsAged where
  proto o p h := hw.proto o p ((hproto o).symm.trans h)
  parent c p h := by
    rw [classAt, hclasses] at h
    exact hw.parent c p h

/-- Looking up a key from an object, one comes to another one, and no object before it has the
key. -/
inductive Meets (w : World) (key : PropertyKey) : ObjectId → ObjectId → Prop
  | here (o : ObjectId) : Meets w key o o
  | proto {o p h : ObjectId} (hfree : w.getOwn? o key = none)
    (hproto : (w.objectAt o).proto = some p) (hmeets : Meets w key p h) : Meets w key o h

theorem meets_iff : w.Meets key o h ↔
    o = h ∨ w.getOwn? o key = none ∧ ∃ p, (w.objectAt o).proto = some p ∧ w.Meets key p h := by
  constructor
  · intro hmeets
    cases hmeets with
    | here => exact .inl rfl
    | proto hfree hproto hmeets => exact .inr ⟨hfree, _, hproto, hmeets⟩
  · rintro (rfl | ⟨hfree, p, hproto, hmeets⟩)
    · exact .here o
    · exact .proto hfree hproto hmeets

/-- From an object that has the key one comes to no other. -/
theorem meets_iff_of_own (hown : w.getOwn? o key = some v) : w.Meets key o h ↔ o = h := by
  rw [meets_iff, hown]
  simp

/-! ### Walks -/

/-- Asking whether a property is there and asking for its value agree. -/
theorem hasProperty_eq (w : World) (o : ObjectId) (key : PropertyKey) :
    w.hasProperty o key = (w.getProperty? o key).isSome := by
  unfold hasProperty getProperty?
  induction w.protoChain o with
  | nil => rfl
  | cons o' chain ih =>
    have hhead : (w.objectAt o').properties.has key = (w.getOwn? o' key).isSome := rfl
    rw [List.any_cons, List.findSome?_cons, hhead, ih]
    cases w.getOwn? o' key <;> rfl

section Aged

variable (hw : w.IsAged)

include hw

/-- **The chain of an object ends** with one that has no prototype. -/
theorem IsAged.isLine_protoChain (o : ObjectId) :
    IsLine (fun o => (w.objectAt o).proto) o (w.protoChain o) :=
  isLine_lineage ObjectId.index hw.proto (Nat.lt_succ_self _)

/-- **The chain of a class ends** with one that has no parent. -/
theorem IsAged.isLine_classChain (c : ClassRef) :
    IsLine (fun c => (w.classAt c).parent) c (w.classChain c) :=
  isLine_lineage ClassRef.index hw.parent (Nat.lt_succ_self _)

theorem IsAged.protoChain_of_some (hproto : (w.objectAt o).proto = some p) :
    w.protoChain o = o :: w.protoChain p := by
  have hlt := hw.proto o p hproto
  refine (lineage_of_some hproto _).trans (congrArg (o :: ·) ?_)
  exact lineage_eq_of_rank ObjectId.index hw.proto p _ _ hlt (Nat.lt_succ_self _)

/-- What holds of an object if it holds of its prototype holds of all objects. -/
theorem IsAged.proto_induction {motive : ObjectId → Prop}
    (step : ∀ o, (∀ p, (w.objectAt o).proto = some p → motive p) → motive o) (o : ObjectId) :
    motive o := by
  obtain ⟨i⟩ := o
  induction i using Nat.strongRecOn with
  | ind i ih => exact step ⟨i⟩ fun p hproto => ih p.index (hw.proto ⟨i⟩ p hproto)

/-- A lookup begins with the object and goes on with its prototype. -/
theorem IsAged.getProperty?_eq (o : ObjectId) (key : PropertyKey) :
    w.getProperty? o key =
      (w.getOwn? o key).or ((w.objectAt o).proto.bind (w.getProperty? · key)) := by
  unfold getProperty?
  cases hproto : (w.objectAt o).proto with
  | none =>
    rw [protoChain, lineage_of_none hproto, List.findSome?_singleton]
    exact Option.or_none.symm
  | some p =>
    rw [hw.protoChain_of_some hproto, List.findSome?_cons]
    cases w.getOwn? o key <;> rfl

theorem IsAged.getProperty?_of_own (hown : w.getOwn? o key = some v) :
    w.getProperty? o key = some v := by
  rw [hw.getProperty?_eq, hown, Option.some_or]

theorem IsAged.getProperty?_of_free (hfree : w.getOwn? o key = none) :
    w.getProperty? o key = (w.objectAt o).proto.bind (w.getProperty? · key) := by
  rw [hw.getProperty?_eq, hfree, Option.none_or]

/-- What a lookup comes to is on the chain, and what is before it does not have the key. -/
theorem IsAged.meets_iff_protoChain : w.Meets key o h ↔
    ∃ before rest, w.protoChain o = before ++ h :: rest ∧
      ∀ a ∈ before, w.getOwn? a key = none := by
  -- a prototype is older, so the chain of `o` is `o` in front of that of its prototype
  induction o using hw.proto_induction with
  | step o ih =>
    rw [meets_iff]
    cases hproto : (w.objectAt o).proto with
    | none =>
      have hchain : w.protoChain o = [o] := lineage_of_none hproto _
      rw [hchain]
      constructor
      · rintro (rfl | ⟨-, p, hp, -⟩)
        · exact ⟨[], [], rfl, fun _ ha => nomatch ha⟩
        · cases hp
      · rintro ⟨before, rest, heq, -⟩
        exact .inl (List.mem_singleton.mp (heq ▸ List.mem_append_right _ List.mem_cons_self)).symm
    | some p =>
      rw [hw.protoChain_of_some hproto]
      constructor
      · rintro (rfl | ⟨hfree, q, hq, hmeets⟩)
        · exact ⟨[], w.protoChain p, rfl, fun _ ha => nomatch ha⟩
        · obtain rfl := Option.some.inj hq
          obtain ⟨before, rest, hchain, hbefore⟩ := (ih p hproto).mp hmeets
          refine ⟨o :: before, rest, congrArg (o :: ·) hchain, fun a ha => ?_⟩
          rcases List.mem_cons.mp ha with rfl | ha
          · exact hfree
          · exact hbefore a ha
      · -- the part of the chain before `h` is empty, or starts with `o`
        rintro ⟨_ | ⟨a, before⟩, rest, heq, hbefore⟩
        · exact .inl (List.cons.inj heq).1
        · obtain ⟨rfl, hchain⟩ := List.cons.inj heq
          refine .inr ⟨hbefore o List.mem_cons_self, p, rfl, (ih p hproto).mpr ?_⟩
          exact ⟨before, rest, hchain, fun a ha => hbefore a (List.mem_cons_of_mem _ ha)⟩

/-- What a lookup comes to is no younger. -/
theorem IsAged.le_of_meets (hmeets : w.Meets key o h) : h.index ≤ o.index := by
  induction hmeets with
  | here => exact Nat.le_refl _
  | @proto o p h _ hproto _ ih => exact ih.trans (hw.proto o p hproto).le

/-- **Lookups.** The value of a property is the own value of the first object on the chain that has
the key. -/
theorem IsAged.getProperty?_eq_some_iff :
    w.getProperty? o key = some v ↔ ∃ h, w.Meets key o h ∧ w.getOwn? h key = some v := by
  induction o using hw.proto_induction with
  | step o ih =>
    -- the lookup ends at `o` when it has the property, and else goes on at its prototype
    cases hown : w.getOwn? o key with
    | some v' =>
      rw [hw.getProperty?_of_own hown]
      constructor
      · intro heq
        exact ⟨o, .here o, hown.trans heq⟩
      · rintro ⟨h, hmeets, hv⟩
        rw [← (meets_iff_of_own hown).mp hmeets, hown] at hv
        exact hv
    | none =>
      rw [hw.getProperty?_of_free hown, Option.bind_eq_some_iff]
      constructor
      · rintro ⟨p, hproto, hp⟩
        obtain ⟨h, hmeets, hv⟩ := (ih p hproto).mp hp
        exact ⟨h, .proto hown hproto hmeets, hv⟩
      · rintro ⟨h, hmeets, hv⟩
        rcases meets_iff.mp hmeets with rfl | ⟨-, p, hproto, hp⟩
        · cases hown.symm.trans hv
        · exact ⟨p, hproto, (ih p hproto).mpr ⟨h, hp, hv⟩⟩

end Aged

/-! ### New objects and edits -/

/-- A new object is younger than its prototype. -/
theorem IsAged.newObject (hw : w.IsAged) {proto : Option ObjectId}
    (hproto : ∀ p ∈ proto, w.Has (.object p)) : (w.newObject proto).2.IsAged where
  proto o p h := by
    rw [objectAt_newObject] at h
    split at h
    · next hnew => exact Nat.lt_of_lt_of_eq (hproto p h) hnew.symm
    · exact hw.proto o p h
  parent := hw.parent

theorem proto_edit (w : World) (place : Holder) (e : SlotTable.Edit) (o : ObjectId) :
    ((w.edit place e).objectAt o).proto = (w.objectAt o).proto := by
  -- An edit of an object keeps its prototype, and an edit of a table is no edit of an object.
  cases place with
  | object o' =>
    have hobject : ∀ f : SlotTable → SlotTable,
        ((w.updateObject o' fun object =>
          { object with properties := f object.properties }).objectAt o).proto =
            (w.objectAt o).proto := fun f => by
      rw [objectAt_updateObject]
      split <;> rfl
    cases e with
    | set key value => exact hobject (·.set key value)
    | delete key => exact hobject (·.delete key)
  | table t => cases e <;> rfl

/-- Edits keep prototypes and parents older. -/
theorem IsAged.edit (hw : w.IsAged) (place : Holder) (e : SlotTable.Edit) :
    (w.edit place e).IsAged :=
  hw.of_same (proto_edit w place e) (by cases place <;> cases e <;> rfl)

section Edit

variable (e : SlotTable.Edit)

theorem getOwn?_edit_self (ho : w.Has (.object o)) (key : PropertyKey) :
    (w.edit (.object o) e).getOwn? o key =
      if e.key = key then e.value? else w.getOwn? o key := by
  have hself := contents_edit_self (show w.Has (Holder.object o).node from ho) e
  exact (congrArg (·.get? key) hself).trans (SlotTable.get?_edit _ e key)

theorem getOwn?_edit_of_ne (hne : o ≠ o') (key : PropertyKey) :
    (w.edit (.object o) e).getOwn? o' key = w.getOwn? o' key :=
  congrArg (·.get? key) (contents_edit_of_ne w (fun heq => hne (Holder.object.inj heq)) e)

/-- From other objects and for other keys, a lookup finds what it found before. -/
theorem IsAged.getProperty?_edit_of_not (hw : w.IsAged) (ho : w.Has (.object o))
    (hnot : ¬(k = e.key ∧ w.Meets k o' o)) :
    (w.edit (.object o) e).getProperty? o' k = w.getProperty? o' k := by
  have hw' := hw.edit (.object o) e
  -- the object itself is looked at first, then its prototype, which is older
  induction o' using hw.proto_induction with
  | step o' ih =>
    have hown : (w.edit (.object o) e).getOwn? o' k = w.getOwn? o' k := by
      by_cases heq : o = o'
      · subst heq
        rw [getOwn?_edit_self e ho, if_neg fun hkey => hnot ⟨hkey.symm, .here o⟩]
      · exact getOwn?_edit_of_ne e heq k
    cases hfree : w.getOwn? o' k with
    | some v =>
      rw [hw.getProperty?_of_own hfree, hw'.getProperty?_of_own (hown.trans hfree)]
    | none =>
      rw [hw.getProperty?_of_free hfree, hw'.getProperty?_of_free (hown.trans hfree), proto_edit]
      cases hproto : (w.objectAt o').proto with
      | none => rfl
      | some p => exact ih p hproto fun hp => hnot ⟨hp.1, .proto hfree hproto hp.2⟩

/-- From the objects from which a lookup of its key meets the edited one, it finds the new value, or
goes on with the prototype of that one. -/
theorem IsAged.getProperty?_edit_of_meets (hw : w.IsAged) (ho : w.Has (.object o))
    (hmeets : w.Meets e.key o' o) :
    (w.edit (.object o) e).getProperty? o' e.key =
      e.value?.or ((w.objectAt o).proto.bind (w.getProperty? · e.key)) := by
  have hw' := hw.edit (.object o) e
  -- a prototype is older, so no chain comes back to the edited object
  have hbelow : ∀ p, (w.objectAt o).proto = some p → ¬w.Meets e.key p o := fun p hproto hp =>
    absurd (hw.le_of_meets hp) (Nat.not_le_of_lt (hw.proto o p hproto))
  generalize hkey : e.key = key at hmeets
  induction hmeets with
  | here o =>
    rw [hw'.getProperty?_eq, getOwn?_edit_self e ho, if_pos hkey, proto_edit]
    cases hproto : (w.objectAt o).proto with
    | none => rfl
    | some p =>
      refine congrArg e.value?.or (hw.getProperty?_edit_of_not e ho fun hp => ?_)
      exact hbelow p hproto (hkey ▸ hp.2)
  | @proto o' p o hfree hproto hmeets ih =>
    have hne : o ≠ o' := by
      rintro rfl
      exact hbelow p hproto (hkey ▸ hmeets)
    have hown := (getOwn?_edit_of_ne e hne key).trans hfree
    rw [hw'.getProperty?_of_free hown, proto_edit, hproto]
    exact ih ho hw' hbelow

end Edit

/-- From some objects a key leads to something else than before, and nothing else changes for any
key or object. -/
structure Redirects (w w' : World) (key : PropertyKey) (found : Option Value)
    (affected : ObjectId → Prop) : Prop where
  there : ∀ o, affected o →
    w'.getProperty? o key = found ∧ w'.hasProperty o key = found.isSome
  others : ∀ o k, ¬(k = key ∧ affected o) →
    w'.getProperty? o k = w.getProperty? o k ∧ w'.hasProperty o k = w.hasProperty o k

/-- **Edits** of an object change what its key leads to from those objects from which a lookup meets
it before any other holder of the key. -/
theorem IsAged.redirects_edit (hw : w.IsAged) (e : SlotTable.Edit) (ho : w.Has (.object o)) :
    w.Redirects (w.edit (.object o) e) e.key
      (e.value?.or ((w.objectAt o).proto.bind (w.getProperty? · e.key)))
      fun o' => w.Meets e.key o' o where
  there o' hmeets := by
    rw [hasProperty_eq, hw.getProperty?_edit_of_meets e ho hmeets]
    exact ⟨rfl, rfl⟩
  others o' k hnot := by
    rw [hasProperty_eq, hasProperty_eq, hw.getProperty?_edit_of_not e ho fun h => hnot ⟨h.1, ?_⟩]
    · exact ⟨rfl, rfl⟩
    · exact h.1 ▸ h.2

end World

end Enclave
