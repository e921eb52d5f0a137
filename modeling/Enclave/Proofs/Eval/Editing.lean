import Enclave.Proofs.Eval.Rejection
import Enclave.Proofs.Store.Edits

/-!
# Tables in runs

A script deletes properties and slots by `delete`, which tells whether there was anything to delete.
What it tells is what the edits of the table say, as does everything else that can be asked of a
table (`SlotTable.ordered_by_edits`).
-/

namespace Enclave

namespace Eval

variable {self : Evaluator} {context : Context} {site : ExprId} {accessor : Accessor}
  {key : SlotKey} {m m₁ m₂ : Machine} {access : Access} {k : PropertyKey}

/-- Deleting a slot tells whether it was there when its table and its key had been found. -/
theorem deleteSlot_eq (haccess : resolve self context site accessor m = .ok access m₁)
    (hkey : slotKey self (context.holding [.table access.table]) key m₁ = .ok k m₂) :
    deleteSlot self context site accessor key m =
      .ok (.bool ((m₂.world.tableAt access.table).has k))
        { m₂ with world := m₂.world.deleteSlot access.table k } :=
  (bind_of_ok haccess).trans (bind_of_ok hkey)

end Eval

/-- **Tables are ordered maps.** Whatever was done to a table that was empty at first, it is what
its edits say it is: a key that is set again keeps its place, a new one comes last, and deleting a
key leaves the order of the others. This holds of the properties of an object and of the slots of a
table, whatever is done to others in between; and deleting a property or a slot tells whether its
key was set and has not been deleted since. -/
theorem SlotTable.ordered_by_edits (edits : List SlotTable.Edit) :
    (after edits).Reflects edits ∧
      (∀ key value, (after (edits ++ [.set key value])).keys =
        if key ∈ (after edits).keys then (after edits).keys else (after edits).keys ++ [key]) ∧
      (∀ key, (after (edits ++ [.delete key])).keys = (after edits).keys.filter (· ≠ key)) ∧
      (∀ (w : World) (place : Holder) (history : List (Holder × SlotTable.Edit)),
        w.Has place.node → w.contents place = .empty → World.editsOf place history = edits →
          (w.edited history).contents place = after edits) ∧
      (∀ (m : Machine) (o : ObjectId) (key : PropertyKey),
        m.world.contents (.object o) = after edits →
          ∃ b, Eval.deleteMember (.object o) key m =
            .ok (.bool b) { m with world := m.world.deleteProperty o key } ∧
            (b = true ↔ IsSet edits key)) ∧
      ∀ (self : Evaluator) (context : Context) (site : ExprId) (accessor : Accessor)
        (key : SlotKey) (m m₁ m₂ : Machine) (access : Eval.Access) (k : PropertyKey),
        Eval.resolve self context site accessor m = .ok access m₁ →
        Eval.slotKey self (context.holding [.table access.table]) key m₁ = .ok k m₂ →
        m₂.world.contents (.table access.table) = after edits →
          ∃ b, Eval.deleteSlot self context site accessor key m =
            .ok (.bool b) { m₂ with world := m₂.world.deleteSlot access.table k } ∧
            (b = true ↔ IsSet edits k) := by
  refine ⟨reflects_after edits, fun key value => ?_, fun key => ?_,
    fun w place history hplace hempty hedits => ?_, fun m o key hcontents => ⟨_, rfl, ?_⟩,
    fun self context site accessor key m m₁ m₂ access k haccess hkey hcontents =>
      ⟨_, Eval.deleteSlot_eq haccess hkey, ?_⟩⟩
  · rw [after_concat]
    exact keys_set (after edits) key value
  · rw [after_concat]
    exact keys_delete (after edits) key
  · -- a table of the world is edited as a table by itself
    rw [World.contents_edited hplace, hempty, hedits]
    rfl
  · -- `delete` answers whether the key was there
    rw [← has_after edits key, ← hcontents]
    rfl
  · rw [← has_after edits k, ← hcontents]
    rfl

/-- A property is set, deleted and set again, while the object has a property whose symbol has the
same text and another object is given one of the same key. -/
def editedTwice : List (Holder × SlotTable.Edit) :=
  [(.object ⟨0⟩, .set (.string "a") .null), (.object ⟨0⟩, .set (.symbol ⟨0, some "a"⟩) .null),
    (.object ⟨1⟩, .set (.string "a") .null), (.object ⟨0⟩, .delete (.string "a")),
    (.object ⟨0⟩, .set (.string "a") (.bool true))]

theorem SlotTable.ordered_by_edits_again :
    let w := ((World.empty.newObject none).2.newObject none).2
    w.Has (.object ⟨0⟩) ∧ w.contents (.object ⟨0⟩) = .empty ∧
      ((w.edited editedTwice).contents (.object ⟨0⟩)).keys =
        [.symbol ⟨0, some "a"⟩, .string "a"] := by
  intro w
  obtain ⟨-, -, -, hworld, -⟩ := ordered_by_edits (World.editsOf (.object ⟨0⟩) editedTwice)
  have hcontents := hworld w (.object ⟨0⟩) editedTwice Nat.zero_lt_two rfl rfl
  refine ⟨Nat.zero_lt_two, rfl, ?_⟩
  rw [hcontents]
  decide

end Enclave
