import Enclave.Store.Association
import Enclave.Value

/-!
# Slot tables

A table from keys to values that remembers the order in which its keys came in. Overwriting a key
leaves it where it is; a key that was deleted and is set again comes last.

The public properties of objects and the hidden slots of classes and their instances are all kept in
such tables.
-/

namespace Enclave

/-- Keys and values in the order in which the keys came in. -/
structure SlotTable where
  entries : List (PropertyKey × Value)
  deriving DecidableEq, Inhabited

namespace SlotTable

def empty : SlotTable := ⟨[]⟩

def get? (t : SlotTable) (key : PropertyKey) : Option Value := Association.get? key t.entries

def has (t : SlotTable) (key : PropertyKey) : Bool := (t.get? key).isSome

def set (t : SlotTable) (key : PropertyKey) (value : Value) : SlotTable :=
  ⟨Association.put key value t.entries⟩

def delete (t : SlotTable) (key : PropertyKey) : SlotTable :=
  ⟨Association.remove key t.entries⟩

def keys (t : SlotTable) : List PropertyKey := t.entries.map (·.1)

def values (t : SlotTable) : List Value := t.entries.map (·.2)

def size (t : SlotTable) : Nat := t.entries.length

def isEmpty (t : SlotTable) : Bool := t.entries.isEmpty

/-! ### Reading back what was written -/

@[simp] theorem get?_empty (key : PropertyKey) : empty.get? key = none := rfl

/-- A key that was set has the new value, and all others have their old one. -/
theorem get?_set (t : SlotTable) (key other : PropertyKey) (value : Value) :
    (t.set key value).get? other = if key = other then some value else t.get? other :=
  Association.get?_put key other value t.entries

/-- A key that was deleted is gone, and nothing else is. -/
theorem get?_delete (t : SlotTable) (key other : PropertyKey) :
    (t.delete key).get? other = if key = other then none else t.get? other :=
  Association.get?_remove key other t.entries

theorem keys_set (t : SlotTable) (key : PropertyKey) (value : Value) :
    (t.set key value).keys = if key ∈ t.keys then t.keys else t.keys ++ [key] :=
  Association.keys_put key value t.entries

theorem keys_delete (t : SlotTable) (key : PropertyKey) :
    (t.delete key).keys = t.keys.filter (· ≠ key) :=
  Association.keys_remove key t.entries

theorem has_iff_mem_keys (t : SlotTable) (key : PropertyKey) : t.has key ↔ key ∈ t.keys :=
  Association.isSome_get?_iff key t.entries

@[simp] theorem length_keys (t : SlotTable) : t.keys.length = t.size := by
  simp [keys, size]

end SlotTable

end Enclave
