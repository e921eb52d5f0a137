import Enclave.Proofs.Store.Release
import Enclave.Proofs.Store.Survivors

/-!
# What is alive

The algorithm for survivors deals in numbers, edges and counts. Here it is said in terms of the
world: a thing is alive exactly if it belongs to a set in which every member is held from outside,
or linked from a member, or is a table whose owner consists of members (`World.isAlive_iff`).

`World.links` are the things that a thing leads to, tables apart: those it was made with
(`World.fixed`) and those that the values stored in it refer to (`World.stored`). Tables are reached
through their owners only.
-/

namespace Enclave

/-- The things that a table belongs to. -/
def TableOwner.nodes : TableOwner → List Node
  | .token t => [.token t]
  | .pair t o => [.token t, .object o]

/-- Owners of tables are made of tokens and objects. -/
theorem TableOwner.eq_of_mem_nodes {owner : TableOwner} {n : Node} (h : n ∈ owner.nodes) :
    (∃ t, n = .token t) ∨ ∃ o, n = .object o := by
  cases owner with
  | token t => exact Or.inl ⟨t, by simpa [nodes] using h⟩
  | pair t o =>
    obtain h | h : n = .token t ∨ n = .object o := by simpa [nodes] using h
    · exact Or.inl ⟨t, h⟩
    · exact Or.inr ⟨o, h⟩

namespace World

variable {w : World} {roots : List Node} {n m : Node}

/-- A thing that was made. -/
def Has (w : World) : Node → Prop
  | .object o => o.index < w.objects.size
  | .function place => place < w.functions.size
  | .class place => place < w.classes.size
  | .token t => t.index < w.tokens.size
  | .scope s => s.index < w.scopes.all.size
  | .table t => t.index < w.tables.size

/-- The things that a thing was made with. -/
def fixed (w : World) : Node → List Node
  | .object o => ((w.objectAt o).proto.map Node.object).toList
  | .function place => (w.functions.getD place default).holds
  | .class place => (w.classes.getD place default).holds
  | .scope s => ((w.scopes.scopeAt s).parent.map Node.scope).toList
  | .token _ | .table _ => []

/-- The values that are stored in a thing. -/
def stored (w : World) : Node → List Value
  | .object o => (w.objectAt o).properties.values
  | .scope s => (w.scopes.scopeAt s).bound.map (·.2.value)
  | .table t => (w.tableAt t).values
  | .function _ | .class _ | .token _ => []

/-- What a thing leads to, tables apart. -/
def links (w : World) (n : Node) : List Node := w.fixed n ++ nodesOf (w.stored n)

/-- A thing leads to what it was made with, and to what its values refer to. -/
theorem mem_links : m ∈ w.links n ↔ m ∈ w.fixed n ∨ ∃ v ∈ w.stored n, v.node? = some m := by
  rw [links, List.mem_append, nodesOf, List.mem_filterMap]

/-! ### Numbers of nodes -/

/-- Each kind of thing has the numbers from the end of the last kind on. -/
theorem ends (w : World) :
    w.objectsEnd = w.objects.size ∧ w.functionsEnd = w.objectsEnd + w.functions.size ∧
      w.classesEnd = w.functionsEnd + w.classes.size ∧
      w.tokensEnd = w.classesEnd + w.tokens.size ∧
      w.scopesEnd = w.tokensEnd + w.scopes.all.size ∧
      w.nodeCount = w.scopesEnd + w.tables.size :=
  ⟨rfl, rfl, rfl, rfl, rfl, rfl⟩

/-- The number of a thing that is there is below the count. -/
theorem Has.nodeNumber_lt (h : w.Has n) : w.nodeNumber n < w.nodeCount := by
  obtain ⟨h1, h2, h3, h4, h5, h6⟩ := w.ends
  cases n <;> simp only [Has, nodeNumber] at h ⊢ <;> omega

/-- A thing is found at its number. -/
theorem nodeAt_nodeNumber (h : w.Has n) : w.nodeAt (w.nodeNumber n) = n := by
  obtain ⟨h1, h2, h3, h4, h5, h6⟩ := w.ends
  -- each kind has its own stretch of numbers, which starts where the one before it ends
  cases n with
  | object o => exact if_pos h
  | function place =>
    replace h : place < w.functions.size := h
    rw [nodeNumber, nodeAt, if_neg (by omega), if_pos (by omega), Nat.add_sub_cancel_left]
  | «class» place =>
    replace h : place < w.classes.size := h
    rw [nodeNumber, nodeAt, if_neg (by omega), if_neg (by omega), if_pos (by omega),
      Nat.add_sub_cancel_left]
  | token t =>
    replace h : t.index < w.tokens.size := h
    rw [nodeNumber, nodeAt, if_neg (by omega), if_neg (by omega), if_neg (by omega),
      if_pos (by omega), Nat.add_sub_cancel_left]
  | scope s =>
    replace h : s.index < w.scopes.all.size := h
    rw [nodeNumber, nodeAt, if_neg (by omega), if_neg (by omega), if_neg (by omega),
      if_neg (by omega), if_pos (by omega), Nat.add_sub_cancel_left]
  | table t =>
    rw [nodeNumber, nodeAt, if_neg (by omega), if_neg (by omega), if_neg (by omega),
      if_neg (by omega), if_neg (by omega), Nat.add_sub_cancel_left]

/-- Every number below the count is that of a thing. -/
theorem exists_nodeNumber_eq {k : ℕ} (hk : k < w.nodeCount) :
    ∃ n, w.Has n ∧ w.nodeNumber n = k := by
  obtain ⟨h1, h2, h3, h4, h5, h6⟩ := w.ends
  refine ⟨w.nodeAt k, ?_⟩
  unfold nodeAt
  split_ifs <;> simp only [Has, nodeNumber, and_true] <;> omega

/-- Things with one number are one. -/
theorem Has.eq_of_nodeNumber_eq (hn : w.Has n) (hm : w.Has m)
    (h : w.nodeNumber n = w.nodeNumber m) : n = m := by
  rw [← nodeAt_nodeNumber hn, h, nodeAt_nodeNumber hm]

/-! ### What a node holds -/

/-- No value refers to a table. -/
theorem table_notMem_nodesOf (values : List Value) (t : TableId) : .table t ∉ nodesOf values := by
  intro h
  obtain ⟨v, -, hv⟩ := List.mem_filterMap.mp h
  cases v <;> cases hv

/-- No links lead to tables. -/
theorem table_notMem_links (w : World) (n : Node) (t : TableId) : .table t ∉ w.links n := by
  rw [links, List.mem_append, not_or]
  refine ⟨?_, table_notMem_nodesOf _ t⟩
  -- Nothing is made with a table, and no value refers to one.
  cases n with
  | function place =>
    cases hf : w.functions.getD place default with
    | native f => simp [fixed, hf, Function.holds]
    | script c =>
      cases hc : c.home <;> simp [fixed, hf, Function.holds, Home.holds, ClassRef.node, hc]
  | _ => simp [fixed, Class.holds, ClassRef.node, FunctionRef.node]

/-- An object holds what it leads to, and the tables kept for it. -/
theorem mem_objectHolds (hw : w.IsRegistry) (o : ObjectId) :
    m ∈ w.objectHolds o ↔
      m ∈ w.links (.object o) ∨
        ∃ t table, m = .table table ∧ w.lookupInstance? t o = some table := by
  simp only [objectHolds, links, fixed, stored, SlotTable.holds, List.mem_append,
    List.mem_filterMap]
  refine or_congr Iff.rfl ⟨?_, ?_⟩
  · -- a brand whose handle still resolves, and a lookup that succeeds, are the same thing
    rintro ⟨⟨t, handle⟩, -, hresolve⟩
    obtain ⟨table, hfound, rfl⟩ := Option.map_eq_some_iff.mp hresolve
    rw [InstanceArena.resolve?_eq_some_iff] at hfound
    exact ⟨t, table, rfl, (lookupInstance?_eq_some_iff hw.toIsMatched).mpr ⟨handle, hfound⟩⟩
  · rintro ⟨t, table, rfl, hlookup⟩
    obtain ⟨handle, hfound⟩ := (lookupInstance?_eq_some_iff hw.toIsMatched).mp hlookup
    refine ⟨⟨t, handle⟩, (hw.matched t o handle).mpr ⟨table, hfound⟩, ?_⟩
    rw [InstanceArena.resolve?_eq_some_iff.mpr hfound]
    rfl

/-- A token holds its statics, and the tables it keeps. -/
theorem mem_tokenHolds (hw : w.IsRegistry) (t : TokenId) :
    m ∈ (w.tokenAt t).holds ↔
      m = .table (w.tokenAt t).statics ∨
        ∃ o table, m = .table table ∧ w.lookupInstance? t o = some table := by
  simp only [DefinitionToken.holds, List.mem_cons, List.mem_map]
  refine or_congr Iff.rfl ⟨?_, ?_⟩
  · rintro ⟨table, hmem, rfl⟩
    obtain ⟨handle, o, hfound⟩ := InstanceArena.mem_tables_iff.mp hmem
    exact ⟨o, table, rfl, (lookupInstance?_eq_some_iff hw.toIsMatched).mpr ⟨handle, hfound⟩⟩
  · rintro ⟨o, table, rfl, hlookup⟩
    obtain ⟨handle, hfound⟩ := (lookupInstance?_eq_some_iff hw.toIsMatched).mp hlookup
    exact ⟨table, InstanceArena.mem_tables_iff.mpr ⟨handle, o, hfound⟩, rfl⟩

/-- A thing holds what it leads to and the tables it owns or shares. -/
theorem mem_heldBy (hw : w.IsRegistry) (hn : w.Has n) :
    m ∈ w.heldBy n ↔
      m ∈ w.links n ∨
        ∃ owner table, m = .table table ∧ w.ownedTable? owner = some table ∧ n ∈ owner.nodes := by
  -- Objects and tokens hold tables besides what they lead to; nothing else does.
  cases n with
  | object o =>
    refine (mem_objectHolds hw o).trans (or_congr Iff.rfl ⟨?_, ?_⟩)
    · rintro ⟨t, table, rfl, hlookup⟩
      exact ⟨.pair t o, table, rfl, hlookup, by simp [TableOwner.nodes]⟩
    · rintro ⟨t | ⟨t, o'⟩, table, rfl, howned, hmem⟩
      · simp [TableOwner.nodes] at hmem
      · obtain rfl : o = o' := by simpa [TableOwner.nodes] using hmem
        exact ⟨t, table, rfl, howned⟩
  | token t =>
    refine (mem_tokenHolds hw t).trans ?_
    have hlinks : m ∉ w.links (.token t) := by simp [links, fixed, stored, nodesOf]
    rw [or_iff_right hlinks]
    refine ⟨?_, ?_⟩
    · rintro (rfl | ⟨o, table, rfl, hlookup⟩)
      · exact ⟨.token t, _, rfl, if_pos hn, by simp [TableOwner.nodes]⟩
      · exact ⟨.pair t o, table, rfl, hlookup, by simp [TableOwner.nodes]⟩
    · rintro ⟨t' | ⟨t', o⟩, table, rfl, howned, hmem⟩
      · obtain rfl : t = t' := by simpa [TableOwner.nodes] using hmem
        rw [ownedTable?, if_pos (show t.index < w.tokens.size from hn)] at howned
        exact Or.inl (congrArg Node.table (Option.some.inj howned).symm)
      · obtain rfl : t = t' := by simpa [TableOwner.nodes] using hmem
        exact Or.inr ⟨o, table, rfl, howned⟩
  | _ =>
    refine ⟨fun hheld => Or.inl ?_, ?_⟩
    · simpa [heldBy, links, fixed, stored, nodesOf, Scope.holds, SlotTable.holds] using hheld
    · rintro (hlink | ⟨owner, table, -, -, hmem⟩)
      · simpa [heldBy, links, fixed, stored, nodesOf, Scope.holds, SlotTable.holds] using hlink
      · -- only objects and tokens own tables
        obtain ⟨t, ht⟩ | ⟨o, ho⟩ := TableOwner.eq_of_mem_nodes hmem
        · cases ht
        · cases ho

/-! ### Alive things -/

/-- A set of things in which each is kept up: from outside, by a link from one of them, or as a
table by its owner. -/
def IsKept (w : World) (roots : List Node) (S : Node → Prop) : Prop :=
  ∀ n, S n → w.Has n ∧ (n ∈ roots ∨ (∃ m, S m ∧ n ∈ w.links m) ∨
    ∃ owner table, n = .table table ∧ w.ownedTable? owner = some table ∧ ∀ m ∈ owner.nodes, S m)

/-- Whatever something leads to was made. -/
def IsMade (w : World) : Prop := ∀ n, w.Has n → ∀ m ∈ w.links n, w.Has m

/-- The owner of a table is there. -/
theorem has_of_mem_nodes (hw : w.IsRegistry) {owner : TableOwner} {table : TableId}
    (howned : w.ownedTable? owner = some table) (hn : n ∈ owner.nodes) : w.Has n := by
  -- Statics are owned by tokens that were minted, other tables by pairs that were registered.
  cases owner with
  | token t =>
    obtain rfl : n = .token t := by simpa [TableOwner.nodes] using hn
    by_contra hmade
    rw [ownedTable?, if_neg (show ¬t.index < w.tokens.size from hmade)] at howned
    cases howned
  | pair t o =>
    obtain ⟨ht, ho⟩ := hw.lt_of_lookup howned
    obtain rfl | rfl : n = .token t ∨ n = .object o := by simpa [TableOwner.nodes] using hn
    · exact ht
    · exact ho

/-- What is held is there. -/
theorem has_of_mem_heldBy (hw : w.IsRegistry) (hmade : w.IsMade) (hn : w.Has n)
    (hm : m ∈ w.heldBy n) : w.Has m := by
  obtain hlink | ⟨owner, table, rfl, howned, -⟩ := (mem_heldBy hw hn).mp hm
  · exact hmade n hn m hlink
  · exact hw.made owner table howned

/-- Marking some numbers marks those and no others. -/
theorem getD_marks (numbers : List ℕ) (marks : Array Bool) (k : ℕ) :
    (numbers.foldl (fun marks n => marks.setIfInBounds n true) marks).getD k false = true ↔
      marks.getD k false = true ∨ k ∈ numbers ∧ k < marks.size := by
  induction numbers generalizing marks with
  | nil => simp
  | cons n numbers ih =>
    rw [List.foldl_cons, ih, Array.size_setIfInBounds, List.mem_cons,
      Array.getD_eq_getD_getElem?, Array.getD_eq_getD_getElem?, Array.getElem?_setIfInBounds]
    by_cases hn : n = k
    · subst hn
      -- a mark out of bounds is dropped
      by_cases hlt : n < marks.size
      · simp [hlt]
      · simp [hlt]
    · simp [hn, Ne.symm hn]

/-- The roots of the graph are the numbers of the roots. -/
theorem isRoot_graph (w : World) (roots : List Node) (k : ℕ) :
    (w.graph roots).isRoot k = true ↔ k ∈ roots.map w.nodeNumber ∧ k < w.nodeCount := by
  refine (getD_marks _ _ _).trans ?_
  rw [Array.size_replicate, or_iff_right]
  rw [Array.getD_eq_getD_getElem?, Array.getElem?_replicate]
  split <;> simp

/-- The joint nodes of the graph are the tables. -/
theorem isJoint_graph (hn : w.Has n) :
    (w.graph roots).isJoint (w.nodeNumber n) = true ↔ ∃ table, n = .table table := by
  obtain ⟨h1, h2, h3, h4, h5, h6⟩ := w.ends
  refine decide_eq_true_iff.trans ?_
  cases n <;> simp only [Has, nodeNumber, Node.table.injEq, exists_eq', reduceCtorEq, exists_false,
    iff_false, iff_true] at hn ⊢ <;> omega

/-- An edge of the graph is what one thing holds of another. -/
theorem mem_successors (hw : w.IsRegistry) (hmade : w.IsMade) (hn : w.Has n) (hm : w.Has m) :
    w.nodeNumber m ∈ (w.graph roots).successors (w.nodeNumber n) ↔ m ∈ w.heldBy n := by
  change w.nodeNumber m ∈ (w.heldBy (w.nodeAt (w.nodeNumber n))).map w.nodeNumber ↔ _
  rw [nodeAt_nodeNumber hn]
  refine ⟨fun h => ?_, fun h => List.mem_map_of_mem h⟩
  obtain ⟨k, hk, hnumber⟩ := List.mem_map.mp h
  rwa [← (has_of_mem_heldBy hw hmade hn hk).eq_of_nodeNumber_eq hm hnumber]

/-- What a sustained set of numbers keeps up is kept up as a thing. -/
theorem isKept_of_isSustained (hw : w.IsRegistry) (hmade : w.IsMade) (hroots : ∀ n ∈ roots, w.Has n)
    {T : ℕ → Prop} (hT : (w.graph roots).IsSustained T) :
    w.IsKept roots fun n => w.Has n ∧ T (w.nodeNumber n) := by
  rintro n ⟨hn, hTn⟩
  refine ⟨hn, ?_⟩
  obtain ⟨-, hroot | hkept⟩ := hT _ hTn
  · obtain ⟨r, hr, hnumber⟩ := List.mem_map.mp ((isRoot_graph w roots _).mp hroot).1
    exact Or.inl ((hroots r hr).eq_of_nodeNumber_eq hn hnumber ▸ hr)
  · refine Or.inr ?_
    -- a joint node is the table of a pair, kept while both of its owners are
    by_cases hjoint : (w.graph roots).isJoint (w.nodeNumber n) = true
    · rw [if_pos hjoint] at hkept
      obtain ⟨table, rfl⟩ := (isJoint_graph hn).mp hjoint
      obtain ⟨hall, k, hk, hedge⟩ := hkept
      obtain ⟨m, hhas, rfl⟩ := exists_nodeNumber_eq hk
      rw [mem_successors hw hmade hhas hn, mem_heldBy hw hhas] at hedge
      -- no link leads to a table, so it is held by its owners alone
      obtain hlink | ⟨owner, table', heq, howned, -⟩ := hedge
      · exact absurd hlink (table_notMem_links w _ table)
      · cases heq
        refine Or.inr ⟨owner, table, rfl, howned, fun m hm => ?_⟩
        have hmhas := has_of_mem_nodes hw howned hm
        refine ⟨hmhas, hall _ hmhas.nodeNumber_lt ?_⟩
        rw [mem_successors hw hmade hmhas hn, mem_heldBy hw hmhas]
        exact Or.inr ⟨owner, table, rfl, howned, hm⟩
    · rw [if_neg hjoint] at hkept
      obtain ⟨k, hk, hTk, hedge⟩ := hkept
      obtain ⟨m, hhas, rfl⟩ := exists_nodeNumber_eq hk
      rw [mem_successors hw hmade hhas hn, mem_heldBy hw hhas] at hedge
      -- any other node is kept through a link
      obtain hlink | ⟨owner, table, rfl, -, -⟩ := hedge
      · exact Or.inl ⟨_, ⟨hhas, hTk⟩, hlink⟩
      · exact absurd ((isJoint_graph hn).mpr ⟨table, rfl⟩) hjoint

/-- What a set of things keeps up is sustained as a set of numbers. -/
theorem isSustained_of_isKept (hw : w.IsRegistry) (hmade : w.IsMade) {S : Node → Prop}
    (hS : w.IsKept roots S) :
    (w.graph roots).IsSustained fun k => ∃ n, S n ∧ w.nodeNumber n = k := by
  rintro _ ⟨n, hSn, rfl⟩
  obtain ⟨hn, hkept⟩ := hS n hSn
  refine ⟨hn.nodeNumber_lt, ?_⟩
  -- It is a root, or linked from a member, or a table whose owner is in the set.
  obtain hroot | ⟨m, hSm, hlink⟩ | ⟨owner, table, rfl, howned, hnodes⟩ := hkept
  · exact Or.inl ((isRoot_graph w roots _).mpr ⟨List.mem_map_of_mem hroot, hn.nodeNumber_lt⟩)
  · refine Or.inr ?_
    have hjoint : ¬(w.graph roots).isJoint (w.nodeNumber n) = true := fun hjoint => by
      obtain ⟨table, rfl⟩ := (isJoint_graph hn).mp hjoint
      exact table_notMem_links w m table hlink
    have hm := (hS m hSm).1
    rw [if_neg hjoint]
    refine ⟨w.nodeNumber m, hm.nodeNumber_lt, ⟨m, hSm, rfl⟩, ?_⟩
    rw [mem_successors hw hmade hm hn, mem_heldBy hw hm]
    exact Or.inl hlink
  · refine Or.inr ?_
    rw [if_pos ((isJoint_graph hn).mpr ⟨table, rfl⟩)]
    refine ⟨fun k hk hedge => ?_, ?_⟩
    · -- a table has one owner, so whoever holds it is in the set
      obtain ⟨m, hhas, rfl⟩ := exists_nodeNumber_eq hk
      rw [mem_successors hw hmade hhas hn, mem_heldBy hw hhas] at hedge
      obtain hlink | ⟨owner', table', heq, howned', hmem⟩ := hedge
      · exact absurd hlink (table_notMem_links w _ table)
      · cases heq
        rw [hw.apart owner' owner table howned' howned] at hmem
        exact ⟨_, hnodes _ hmem, rfl⟩
    · obtain ⟨m, hm⟩ : ∃ m, m ∈ owner.nodes := by
        cases owner <;> exact ⟨_, List.mem_cons_self⟩
      have hmhas := has_of_mem_nodes hw howned hm
      refine ⟨w.nodeNumber m, hmhas.nodeNumber_lt, ?_⟩
      rw [mem_successors hw hmade hmhas hn, mem_heldBy hw hmhas]
      exact Or.inr ⟨owner, table, rfl, howned, hm⟩

/-- **Being alive.** A thing is alive exactly if it belongs to a set of things that is kept up. -/
theorem isAlive_iff (hw : w.IsRegistry) (hmade : w.IsMade) (hroots : ∀ n ∈ roots, w.Has n)
    (hn : w.Has n) : w.isAlive roots n = true ↔ ∃ S, w.IsKept roots S ∧ S n := by
  refine (Graph.survives_iff _ _).trans ⟨?_, ?_⟩
  · rintro ⟨T, hT, hTn⟩
    exact ⟨_, isKept_of_isSustained hw hmade hroots hT, hn, hTn⟩
  · rintro ⟨S, hS, hSn⟩
    exact ⟨_, isSustained_of_isKept hw hmade hS, n, hSn, rfl⟩

/-- What is held from outside stays. -/
theorem isAlive_of_mem (hmade : w.Has n) (hroot : n ∈ roots) : w.isAlive roots n = true := by
  refine (Graph.survives_iff _ _).mpr
    ⟨fun k => k ∈ roots.map w.nodeNumber ∧ k < w.nodeCount, fun k hk => ?_, ?_⟩
  · exact ⟨hk.2, Or.inl ((isRoot_graph w roots k).mpr hk)⟩
  · exact ⟨List.mem_map_of_mem hroot, hmade.nodeNumber_lt⟩

end World

end Enclave
