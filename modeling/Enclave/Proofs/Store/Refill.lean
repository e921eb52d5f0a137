import Enclave.Proofs.Store.Registry

/-!
# Worlds with other contents in some tables

A world can be *refilled*: some of its tables are given other contents, and nothing else is touched
(`World.refill`). It is refilled for a token if these tables belong to the token (`Contents.IsOf`).
Operations on a world look at the places of tables, or at a table that they are given. So they do
the same in a refilled world, and what they make is what they would have made, refilled.
-/

namespace Enclave

/-- Other contents for some tables. -/
abbrev Contents : Type := TableId → Option SlotTable

/-- The contents are for tables of a token. -/
def Contents.IsOf (contents : Contents) (t : TokenId) (w : World) : Prop :=
  ∀ table, contents table ≠ none →
    ∃ owner : TableOwner, owner.tokenId = t ∧ w.ownedTable? owner = some table

namespace World

/-- A world with other contents in some tables. -/
def refill (w : World) (contents : Contents) : World :=
  { w with tables := w.tables.mapIdx fun i table => (contents ⟨i⟩).getD table }

variable {w w' : World} {contents : Contents} {t : TokenId} {table : TableId}

/-! ### Reading a refilled world -/

theorem size_refill (w : World) (contents : Contents) :
    (w.refill contents).tables.size = w.tables.size :=
  Array.size_mapIdx

theorem tableAt_refill (w : World) (contents : Contents) (table : TableId) :
    (w.refill contents).tableAt table =
      if table.index < w.tables.size then (contents table).getD (w.tableAt table)
      else default := by
  change (w.tables.mapIdx _).getD table.index default = _
  split
  · -- beyond the last table there is only the default, refilled or not
    next h =>
    have h' : table.index < (w.tables.mapIdx fun i s => (contents ⟨i⟩).getD s).size := by
      rwa [Array.size_mapIdx]
    rw [Array.getD_eq_getD_getElem?, Array.getElem?_eq_getElem h', Option.getD_some,
      Array.getElem_mapIdx, tableAt, Array.getD_eq_getD_getElem?, Array.getElem?_eq_getElem h]
    rfl
  · next h =>
    refine getD_of_size_le ?_
    rw [Array.size_mapIdx]
    exact Nat.le_of_not_lt h

/-- A table that is not given other contents has the contents it had. -/
theorem tableAt_refill_of_none (h : contents table = none) :
    (w.refill contents).tableAt table = w.tableAt table := by
  rw [tableAt_refill, h]
  split
  · rfl
  · next hlt => exact (getD_of_size_le (Nat.le_of_not_lt hlt)).symm

/-- A world that differs only in the tables of a token is the other one, refilled. -/
theorem exists_refill {tables : Array SlotTable} (hsize : tables.size = w.tables.size)
    (hsame : ∀ i, (¬∃ owner : TableOwner, owner.tokenId = t ∧ w.ownedTable? owner = some ⟨i⟩) →
      tables[i]? = w.tables[i]?) :
    ∃ contents : Contents, contents.IsOf t w ∧ { w with tables } = w.refill contents := by
  classical
  -- refilled with what the other tables have, wherever a table is owned through `t`
  let contents : Contents := fun table =>
    if ∃ owner : TableOwner, owner.tokenId = t ∧ w.ownedTable? owner = some table then
      tables[table.index]?
    else none
  refine ⟨contents, fun table hsome => ?_, congrArg (fun tables => { w with tables }) ?_⟩
  · by_contra hnot
    exact hsome (if_neg hnot)
  · refine Array.ext (by rw [hsize, Array.size_mapIdx]) fun i hi hi' => ?_
    rw [Array.getElem_mapIdx]
    by_cases howned : ∃ owner : TableOwner, owner.tokenId = t ∧ w.ownedTable? owner = some ⟨i⟩
    · have hcontents : contents ⟨i⟩ = some tables[i] := by
        rw [← Array.getElem?_eq_getElem hi]
        exact if_pos howned
      rw [hcontents, Option.getD_some]
    · have hcontents : contents ⟨i⟩ = none := if_neg howned
      have hat := hsame i howned
      rw [Array.getElem?_eq_getElem hi, Array.getElem?_eq_getElem (hsize ▸ hi)] at hat
      rw [hcontents, Option.getD_none]
      exact Option.some.inj hat

/-! ### Operations on tables -/

/-- Changing a table that is not given other contents. -/
theorem modify_refill (h : contents table = none) (f : SlotTable → SlotTable) :
    (w.refill contents).tables.modify table.index f =
      (refill { w with tables := w.tables.modify table.index f } contents).tables := by
  refine Array.ext ?_ fun i hi hi' => ?_
  · simp [refill]
  · simp only [refill, Array.getElem_modify, Array.getElem_mapIdx]
    split
    · -- the table that is changed is not refilled
      next heq =>
      subst heq
      rw [h]
      rfl
    · rfl

theorem setSlot_refill (h : contents table = none) (key : PropertyKey) (v : Value) :
    (w.refill contents).setSlot table key v = (w.setSlot table key v).refill contents :=
  congrArg (fun tables => { w with tables }) (modify_refill h _)

theorem deleteSlot_refill (h : contents table = none) (key : PropertyKey) :
    (w.refill contents).deleteSlot table key = (w.deleteSlot table key).refill contents :=
  congrArg (fun tables => { w with tables }) (modify_refill h _)

/-- A new table, if no contents wait for it. -/
theorem push_refill (h : contents ⟨w.tables.size⟩ = none) (table : SlotTable) :
    (w.refill contents).tables.push table =
      (refill { w with tables := w.tables.push table } contents).tables := by
  change _ = (w.tables.push table).mapIdx _
  rw [Array.mapIdx_push, h]
  rfl

theorem newTable_refill (h : contents ⟨w.tables.size⟩ = none) :
    (w.refill contents).newTable = (w.newTable.1, w.newTable.2.refill contents) := by
  change ((⟨(w.refill contents).tables.size⟩ : TableId),
    ({ w with tables := (w.refill contents).tables.push .empty } : World)) = _
  rw [push_refill h, size_refill]
  rfl

theorem mintToken_refill (h : contents ⟨w.tables.size⟩ = none) (site : ClassSite) (name : String) :
    (w.refill contents).mintToken site name =
      ((w.mintToken site name).1, (w.mintToken site name).2.refill contents) := by
  change (_, { w with
    tables := (w.refill contents).tables.push .empty
    tokens := w.tokens.push ⟨site, name, ⟨(w.refill contents).tables.size⟩, .empty⟩ }) = _
  rw [push_refill h, size_refill]
  rfl

theorem registerInstance_refill (h : contents ⟨w.tables.size⟩ = none) (t : TokenId) (o : ObjectId) :
    (w.refill contents).registerInstance t o =
      ((w.registerInstance t o).1, (w.registerInstance t o).2.refill contents) := by
  -- A pair that is registered is found; for another one a table is added, behind those that are
  -- refilled.
  cases hlookup : w.lookupInstance? t o with
  | some table =>
    have hrefilled : (w.refill contents).lookupInstance? t o = some table := hlookup
    rw [registerInstance_of_some hrefilled, registerInstance_of_some hlookup]
  | none =>
    have hrefilled : (w.refill contents).lookupInstance? t o = none := hlookup
    rw [registerInstance_of_none hrefilled, registerInstance_of_none hlookup, newTable_refill h,
      size_refill]
    rfl

end World

end Enclave
