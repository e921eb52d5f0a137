import Enclave.Store.World

/-!
# Reading places back

The world keeps things of each kind in order, and a thing is read by its place. Here is what a place
holds after a thing of its kind was added or changed; things of other kinds are not touched by that.
-/

namespace Enclave

/-- What an array holds after something was added behind it. -/
theorem getD_push {α : Type} (xs : Array α) (x d : α) (i : Nat) :
    (xs.push x).getD i d = if i = xs.size then x else xs.getD i d := by
  simp only [Array.getD_eq_getD_getElem?, Array.getElem?_push]
  split <;> rfl

/-- What an array holds after one place was changed. -/
theorem getD_modify {α : Type} (xs : Array α) (f : α → α) (d : α) (i j : Nat) :
    (xs.modify i f).getD j d = if i = j ∧ j < xs.size then f (xs.getD j d) else xs.getD j d := by
  simp only [Array.getD_eq_getD_getElem?, Array.getElem?_modify]
  by_cases hij : i = j
  · subst hij
    by_cases hi : i < xs.size <;> simp [hi]
  · simp [hij]

/-- A place beyond the last holds nothing of note. -/
theorem getD_of_size_le {α : Type} {xs : Array α} {d : α} {i : Nat} (hi : xs.size ≤ i) :
    xs.getD i d = d := by
  simp [Array.getD_eq_getD_getElem?, hi]

namespace World

variable (w : World)

/-- A change of one object changes that object, if it is there. -/
theorem objectAt_updateObject (o o' : ObjectId) (f : Object → Object) :
    (w.updateObject o f).objectAt o' =
      if o = o' ∧ o'.index < w.objects.size then f (w.objectAt o') else w.objectAt o' := by
  unfold updateObject objectAt
  rw [getD_modify]
  congr 1
  exact propext (and_congr_left' ⟨fun h => by cases o; cases o'; simpa using h, fun h => by rw [h]⟩)

/-- A change of an object makes no object. -/
@[simp] theorem size_updateObject (o : ObjectId) (f : Object → Object) :
    (w.updateObject o f).objects.size = w.objects.size := by
  simp [updateObject]

@[simp] theorem tokens_updateObject (o : ObjectId) (f : Object → Object) :
    (w.updateObject o f).tokens = w.tokens := rfl

@[simp] theorem tokenAt_updateObject (o : ObjectId) (f : Object → Object) (t : TokenId) :
    (w.updateObject o f).tokenAt t = w.tokenAt t := rfl

/-- A new object is added behind the others, without properties or brands. -/
theorem objectAt_newObject (proto : Option ObjectId) (o : ObjectId) :
    (w.newObject proto).2.objectAt o =
      if o.index = w.objects.size then ⟨proto, .empty, []⟩ else w.objectAt o :=
  getD_push _ _ _ _

/-- A change of an arena changes that of one token. -/
theorem tokenAt_updateInstances (t t' : TokenId) (f : InstanceArena → InstanceArena) :
    (w.updateInstances t f).tokenAt t' =
      if t = t' ∧ t'.index < w.tokens.size then
        { w.tokenAt t' with instances := f (w.tokenAt t').instances }
      else w.tokenAt t' := by
  unfold updateInstances tokenAt
  rw [getD_modify]
  congr 1
  exact propext (and_congr_left' ⟨fun h => by cases t; cases t'; simpa using h, fun h => by rw [h]⟩)

/-- A change of an arena mints no token. -/
@[simp] theorem size_updateInstances (t : TokenId) (f : InstanceArena → InstanceArena) :
    (w.updateInstances t f).tokens.size = w.tokens.size := by
  simp [updateInstances]

/-- A place at which no token was minted has no instances. -/
theorem instances_of_size_le {w : World} {t : TokenId} (ht : w.tokens.size ≤ t.index) :
    (w.tokenAt t).instances = .empty := by
  rw [tokenAt, getD_of_size_le ht]
  rfl

/-- A place at which no object was made bears no brands. -/
theorem brands_of_size_le {w : World} {o : ObjectId} (ho : w.objects.size ≤ o.index) :
    (w.objectAt o).brands = [] := by
  rw [objectAt, getD_of_size_le ho]
  rfl

/-- A new token is added behind the others, with new statics and an empty arena. -/
theorem tokenAt_mintToken (site : ClassSite) (name : String) (t : TokenId) :
    (w.mintToken site name).2.tokenAt t =
      if t.index = w.tokens.size then ⟨site, name, ⟨w.tables.size⟩, .empty⟩ else w.tokenAt t :=
  getD_push _ _ _ _

/-- A change of one table changes that table, if it is there. -/
theorem tableAt_modify (t t' : TableId) (f : SlotTable → SlotTable) :
    { w with tables := w.tables.modify t.index f }.tableAt t' =
      if t = t' ∧ t'.index < w.tables.size then f (w.tableAt t') else w.tableAt t' := by
  unfold tableAt
  rw [getD_modify]
  congr 1
  exact propext (and_congr_left' ⟨fun h => by cases t; cases t'; simpa using h, fun h => by rw [h]⟩)

/-! ### What registering leaves as it is

Registering an object gives it a table and a brand. Nothing else changes. -/

section Register

variable (t : TokenId) (o : ObjectId)

@[simp] theorem functions_registerInstance :
    (w.registerInstance t o).2.functions = w.functions := by
  unfold registerInstance
  split <;> rfl

@[simp] theorem classes_registerInstance : (w.registerInstance t o).2.classes = w.classes := by
  unfold registerInstance
  split <;> rfl

@[simp] theorem scopes_registerInstance : (w.registerInstance t o).2.scopes = w.scopes := by
  unfold registerInstance
  split <;> rfl

@[simp] theorem objectCount_registerInstance :
    (w.registerInstance t o).2.objects.size = w.objects.size := by
  unfold registerInstance
  split
  · rfl
  · exact size_updateObject _ o _

@[simp] theorem tokenCount_registerInstance :
    (w.registerInstance t o).2.tokens.size = w.tokens.size := by
  unfold registerInstance
  split
  · rfl
  · rw [tokens_updateObject, size_updateInstances]
    rfl

/-- Registering an object leaves the prototypes. -/
@[simp] theorem proto_registerInstance (o' : ObjectId) :
    ((w.registerInstance t o).2.objectAt o').proto = (w.objectAt o').proto := by
  unfold registerInstance
  split
  · rfl
  · rw [objectAt_updateObject]
    split <;> rfl

/-- Registering an object leaves the properties. -/
@[simp] theorem properties_registerInstance (o' : ObjectId) :
    ((w.registerInstance t o).2.objectAt o').properties = (w.objectAt o').properties := by
  unfold registerInstance
  split
  · rfl
  · rw [objectAt_updateObject]
    split <;> rfl

end Register

end World

end Enclave
