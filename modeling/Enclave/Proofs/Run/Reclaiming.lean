import Enclave.Proofs.Run.Machines

/-!
# Reclaiming in a sound world

Between operations everything is reclaimed that nothing holds. The world stays sound if what was not
alive then counts as gone (`World.Sound.reclaim`): what is alive leads only to things that are
alive, and the others cannot keep each other up, since aliveness is the greatest way to be kept up.
-/

namespace Enclave.World

variable {gone : Node → Prop} {w w' : World} {roots : List Node}

/-! ### Worlds with the same contents -/

section SameContents

variable (h : SameContents w w')

include h

theorem SameContents.has_iff (n : Node) : w'.Has n ↔ w.Has n := by
  cases n with
  | object o => rw [Has, h.objectCount, Has]
  | token t => rw [Has, h.tokenCount, Has]
  | function place => rw [Has, h.functions, Has]
  | «class» place => rw [Has, h.classes, Has]
  | scope s => rw [Has, h.scopes, Has]
  | table t => rw [Has, h.tables, Has]

theorem SameContents.fixed (n : Node) : w'.fixed n = w.fixed n := by
  cases n with
  | object o => rw [World.fixed, h.proto, World.fixed]
  | function place => rw [World.fixed, h.functions, World.fixed]
  | «class» place => rw [World.fixed, h.classes, World.fixed]
  | scope s => rw [World.fixed, h.scopes, World.fixed]
  | _ => rfl

theorem SameContents.stored (n : Node) : w'.stored n = w.stored n := by
  cases n with
  | object o => rw [World.stored, h.properties, World.stored]
  | scope s => rw [World.stored, h.scopes, World.stored]
  | table t => rw [World.stored, tableAt, h.tables, World.stored, tableAt]
  | _ => rfl

theorem SameContents.links (n : Node) : w'.links n = w.links n := by
  rw [World.links, h.fixed, h.stored, World.links]

theorem SameContents.grows : w.Grows w' where
  has n hn := (h.has_iff n).mpr hn
  functions i _ := by rw [h.functions]
  classes i _ := by rw [h.classes]
  site t _ := h.site t
  name t _ := h.name t
  statics t _ := h.statics t
  fixed n _ := h.fixed n

end SameContents

/-! ### What is alive -/

/-- A thing that was made and is alive. -/
def IsLive (w : World) (roots : List Node) (n : Node) : Prop :=
  w.Has n ∧ w.isAlive roots n = true

section Live

variable (hw : w.IsRegistry) (hmade : w.IsMade) (hroots : ∀ n ∈ roots, w.Has n)

include hw hmade hroots

theorem isKept_isLive : w.IsKept roots (w.IsLive roots) := by
  rintro n ⟨hn, halive⟩
  -- Every kept set is live, so what keeps a thing up in its set is live too.
  have hlive : ∀ {S}, w.IsKept roots S → ∀ m, S m → w.IsLive roots m := fun hS m hm =>
    ⟨(hS m hm).1, (isAlive_iff hw hmade hroots (hS m hm).1).mpr ⟨_, hS, hm⟩⟩
  obtain ⟨S, hS, hSn⟩ := (isAlive_iff hw hmade hroots hn).mp halive
  refine ⟨hn, ?_⟩
  obtain ⟨-, hroot | ⟨m, hm, hlink⟩ | ⟨owner, table, heq, howned, hnodes⟩⟩ := hS n hSn
  · exact Or.inl hroot
  · exact Or.inr (Or.inl ⟨m, hlive hS m hm, hlink⟩)
  · exact Or.inr (Or.inr ⟨owner, table, heq, howned, fun m hm => hlive hS m (hnodes m hm)⟩)

/-- Whatever keeps itself up with the help of what is alive is alive. -/
theorem isLive_of_isKept {S : Node → Prop}
    (hS : ∀ n, S n → w.Has n ∧ ((∃ m, (S m ∨ w.IsLive roots m) ∧ n ∈ w.links m) ∨
      ∃ owner table, n = .table table ∧ w.ownedTable? owner = some table ∧
        ∀ m ∈ owner.nodes, S m ∨ w.IsLive roots m)) {n : Node} (hn : S n) :
    w.IsLive roots n := by
  -- what `S` keeps alive and what is live already keep each other alive together
  have hkept : w.IsKept roots fun n => S n ∨ w.IsLive roots n := by
    rintro n (hn | hn)
    · exact ⟨(hS n hn).1, Or.inr (hS n hn).2⟩
    · obtain ⟨hhas, hroot | ⟨m, hm, hlink⟩ | ⟨owner, table, heq, howned, hnodes⟩⟩ :=
        isKept_isLive hw hmade hroots n hn
      · exact ⟨hhas, Or.inl hroot⟩
      · exact ⟨hhas, Or.inr (Or.inl ⟨m, Or.inr hm, hlink⟩)⟩
      · exact ⟨hhas, Or.inr (Or.inr ⟨owner, table, heq, howned, fun m hm =>
          Or.inr (hnodes m hm)⟩)⟩
  have hhas := (hS n hn).1
  exact ⟨hhas, (isAlive_iff hw hmade hroots hhas).mpr ⟨_, hkept, Or.inl hn⟩⟩

theorem IsLive.link {n m : Node} (hn : w.IsLive roots n) (hm : m ∈ w.links n) :
    w.IsLive roots m := by
  refine isLive_of_isKept hw hmade hroots (S := (· = m)) ?_ rfl
  rintro _ rfl
  exact ⟨hmade n hn.1 _ hm, Or.inl ⟨n, Or.inr hn, hm⟩⟩

theorem isLive_table {owner : TableOwner} {table : TableId}
    (howned : w.ownedTable? owner = some table) (hnodes : ∀ m ∈ owner.nodes, w.IsLive roots m) :
    w.IsLive roots (.table table) := by
  refine isLive_of_isKept hw hmade hroots (S := (· = .table table)) ?_ rfl
  rintro _ rfl
  exact ⟨hw.made owner table howned,
    Or.inr ⟨owner, table, rfl, howned, fun m hm => Or.inr (hnodes m hm)⟩⟩

end Live

/-! ### Reclaiming -/

/-- What is gone after a reclamation. The function behind `f.call` never is. -/
def IsLost (w : World) (roots : List Node) (f : FunctionRef) (n : Node) : Prop :=
  w.Has n ∧ n ≠ f.node ∧ ¬w.IsLive roots n

theorem not_isLost {f : FunctionRef} {n : Node} (hn : w.Has n) (h : ¬w.IsLost roots f n) :
    n = f.node ∨ w.IsLive roots n := by
  by_contra hnone
  rw [not_or] at hnone
  exact h ⟨hn, hnone⟩

theorem ownedTable?_of_reclaim (hw : w.IsRegistry) {owner : TableOwner} {table : TableId}
    (h : (w.reclaim roots).ownedTable? owner = some table) :
    w.ownedTable? owner = some table ∧
      ∀ t o, owner = .pair t o → w.isAlive roots (.object o) = true := by
  cases owner with
  | token t =>
    have hsame := sameContents_reclaim w roots
    rw [ownedTable?, hsame.tokenCount, hsame.statics] at h
    exact ⟨h, fun _ _ heq => by cases heq⟩
  -- the table of a pair is forgotten unless its object is alive
  | pair t o =>
    rw [ownedTable?, lookupInstance?_reclaim hw.toIsMatched] at h
    split at h
    · next halive => exact ⟨h, fun _ _ heq => by cases heq; exact halive⟩
    · cases h

theorem ne_function_of_mem_nodes {owner : TableOwner} {n : Node} {f : FunctionRef}
    (h : n ∈ owner.nodes) : n ≠ f.node := by
  obtain ⟨t, rfl⟩ | ⟨o, rfl⟩ := TableOwner.eq_of_mem_nodes h
  · exact fun h => nomatch h
  · exact fun h => nomatch h

/-- Things that are lost would be alive if they kept each other up. -/
theorem Sound.grounded_reclaim (hs : w.Sound gone) (hroots : ∀ n ∈ roots, w.Has n) {f : FunctionRef}
    {S : Node → Prop}
    (hS : ∀ n, S n → w.IsLost roots f n ∧ ∃ m, S m ∧ (w.reclaim roots).Holds m n) (n : Node) :
    ¬S n := by
  intro hn
  -- what the lost hold up between them would be kept by the nodes before, and so live
  refine (hS n hn).1.2.2 (isLive_of_isKept hs.registry hs.made hroots (S := S) ?_ hn)
  intro n hn
  obtain ⟨hlost, m, hm, hlink | ⟨owner, table, rfl, howned, hmem⟩⟩ := hS n hn
  · rw [(sameContents_reclaim w roots).links] at hlink
    exact ⟨hlost.1, Or.inl ⟨m, Or.inl hm, hlink⟩⟩
  · obtain ⟨howned, hobject⟩ := ownedTable?_of_reclaim hs.registry howned
    refine ⟨hlost.1, Or.inr ⟨owner, table, rfl, howned, fun k hk => ?_⟩⟩
    have hkhas := has_of_mem_nodes hs.registry howned hk
    cases owner with
    | token t =>
      obtain rfl : m = .token t := by simpa [TableOwner.nodes] using hmem
      obtain rfl : k = .token t := by simpa [TableOwner.nodes] using hk
      exact Or.inl hm
    | pair t o =>
      -- the table of a pair that was not reclaimed has a living object
      have halive := hobject t o rfl
      have hobjectHas := has_of_mem_nodes hs.registry howned
        (List.mem_cons_of_mem _ List.mem_cons_self)
      obtain rfl | rfl : k = .token t ∨ k = .object o := by simpa [TableOwner.nodes] using hk
      · -- the object is alive, so it is the token that is among the lost
        obtain rfl | rfl : m = .token t ∨ m = .object o := by
          simpa [TableOwner.nodes] using hmem
        · exact Or.inl hm
        · exact absurd ⟨hobjectHas, halive⟩ (hS _ hm).1.2.2
      · exact Or.inr ⟨hkhas, halive⟩

/-- **Reclaiming.** The world is sound when what was not alive is gone. -/
theorem Sound.reclaim (hs : w.Sound gone) (hroots : ∀ n ∈ roots, w.Has n) {f : FunctionRef}
    {native : Native} (hf : w.functionAt f = .native native) :
    (w.reclaim roots).Sound (w.IsLost roots f) := by
  have hsame := sameContents_reclaim w roots
  have hg := hsame.grows
  -- the function called is on its way out and reclaims nothing of its own
  have hfunction : w.links f.node = [] := by
    change (w.functionAt f).holds ++ _ = _
    rw [hf]
    rfl
  refine
    { registry := hs.registry.reclaim roots
      made := fun n hn m hm => ?_
      goneMade := fun n hn => (hsame.has_iff n).mpr hn.1
      closed := fun n hn hnot m hm hlost => ?_
      tables := fun owner table howned hnodes hlost => ?_
      grounded := fun S hS => hs.grounded_reclaim hroots hS
      stored := fun n hn v hv => ?_
      functions := fun i hi => ?_
      classes := fun i hi => ?_
      tokens := ?_ }
  · -- what is made is what was made, with the same links
    rw [hsame.has_iff] at hn ⊢
    rw [hsame.links] at hm
    exact hs.made n hn m hm
  · -- values, functions and classes are those from before
    rw [hsame.has_iff] at hn
    rw [hsame.links] at hm
    obtain rfl | hlive := not_isLost hn hnot
    · -- the function behind a call is native, and holds nothing
      rw [hfunction] at hm
      cases hm
    · exact hlost.2.2 (hlive.link hs.registry hs.made hroots hm)
  · -- a table that is still owned was live by its owners
    obtain ⟨howned, -⟩ := ownedTable?_of_reclaim hs.registry howned
    refine hlost.2.2 (isLive_table hs.registry hs.made hroots howned fun m hm => ?_)
    have hmhas := has_of_mem_nodes hs.registry howned hm
    exact (not_isLost hmhas (hnodes m hm)).resolve_left (ne_function_of_mem_nodes hm)
  · rw [hsame.has_iff] at hn
    rw [hsame.stored] at hv
    exact (hs.stored n hn v hv).grows hs.tokens hg
  · rw [hsame.functions] at hi ⊢
    exact (hs.functions i hi).grows hs.tokens hg
  · rw [hsame.classes] at hi ⊢
    exact (hs.classes i hi).grows hs.tokens hg (Nat.lt_of_lt_of_le hi hs.tokens)
  · rw [hsame.classes, hsame.tokenCount]
    exact hs.tokens

/-- What is held from outside is known afterwards. -/
theorem knows_reclaim {f : FunctionRef} {n : Node} (hn : w.Has n)
    (hkept : n = f.node ∨ w.IsLive roots n) : (w.reclaim roots).Knows (w.IsLost roots f) n := by
  refine ⟨((sameContents_reclaim w roots).has_iff n).mpr hn, fun hlost => ?_⟩
  obtain heq | hlive := hkept
  · exact hlost.2.1 heq
  · exact hlost.2.2 hlive

/-- A value that is held from outside may turn up afterwards. -/
theorem Sound.admits_reclaim (hs : w.Sound gone) {f : FunctionRef} {v : Value}
    (hv : w.Admits gone v) (hheld : ∀ n ∈ v.node?, n ∈ roots) :
    (w.reclaim roots).Admits (w.IsLost roots f) v := by
  refine ⟨hv.fits.grows hs.tokens (sameContents_reclaim w roots).grows, fun n hn => ?_⟩
  have hhas := (hv.known n hn).1
  exact knows_reclaim hhas (Or.inr ⟨hhas, isAlive_of_mem hhas (hheld n hn)⟩)

end Enclave.World
