import Enclave.Proofs.Run.Reclamation
import Enclave.Proofs.Session.Histories

/-!
# Reclamation in sessions

A host may keep values for as long as it likes, and let go of any of them at any time
(`Session.Hosted`). Whatever was run before, and whatever the host keeps: once an operation has
returned, the number of living instances of a class is that of the registered instances that last,
in whatever order the rest is let go of (`Session.Hosted.reclamation`).
-/

namespace Enclave.Session

variable {s : Session} {gone : Node → Prop} {kept held : List Value}

/-- **Reclamation.** Let the host keep some values when an operation has returned. Then the number
of living instances of a token is that of the objects registered with it that belong to the largest
set in which every member is held from outside or has a strong edge from a member. This set is the
same before and after reclaiming, and any order in which things are let go of leaves the same. A
registered instance that a root leads to is not released, and one that no root leads to is, unless
it hangs on things that hold each other in a circle. -/
theorem Hosted.reclamation (h : s.Hosted kept) (hheld : held ⊆ kept) (t : TokenId) :
    let roots := .scope Scopes.rootId :: nodesOf held
    let before := s.machine.world
    let after := (s.settle held).machine.world
    after.liveInstances t =
        {o | .registered t o ∈ s.machine.journal ∧ after.Lasting roots (.object o)}.ncard ∧
      (∀ n, after.Lasting roots n ↔ before.Lasting roots n) ∧
      before.Reclaims roots after ∧
      (∀ other, before.Reclaims roots other → other.liveInstances t = after.liveInstances t ∧
        ∀ o, other.lookupInstance? t o = after.lookupInstance? t o) ∧
      ∀ o, .registered t o ∈ s.machine.journal →
        (before.Reaches roots (.object o) → (after.lookupInstance? t o).isSome) ∧
        (¬before.Reaches roots (.object o) → ¬before.IsCircular roots (.object o) →
          after.lookupInstance? t o = none) := by
  intro roots before after
  obtain ⟨gone, hm, hkept⟩ := h.machine
  have hs := hm.sound.world
  -- the roots are known and none is a table, so all that lasts can be told from them
  have hroots : ∀ n ∈ roots, before.Knows gone n := fun n hn => by
    rcases List.mem_cons.mp hn with rfl | hn
    · exact hm.sound.root
    · exact World.knows_of_mem_nodesOf (fun v hv => hkept v (hheld hv)) n hn
  have htables : ∀ table, .table table ∉ roots := fun table hmem => by
    rcases List.mem_cons.mp hmem with heq | hmem
    · cases heq
    · exact World.table_notMem_nodesOf held table hmem
  have hlasting : ∀ n, after.Lasting roots n ↔ before.Lasting roots n := fun n =>
    World.lasting_reclaim hs hroots htables
  -- registered and lasting: that is what is left to be looked up
  have hlookup : ∀ o, (after.lookupInstance? t o).isSome ↔
      .registered t o ∈ s.machine.journal ∧ before.Lasting roots (.object o) :=
    hm.isSome_lookup_reclaim_iff hroots htables t
  refine ⟨?_, hlasting, World.reclaims_reclaim _ _, fun other hother => ⟨?_, fun o => ?_⟩,
    fun o hregistered => ⟨fun hreaches => ?_, fun hunreached hacyclic => ?_⟩⟩
  · simp only [hlasting]
    exact hm.liveInstances_reclaim hroots htables t
  · exact hother.liveInstances_eq hs.registry hm.isCounted t
  · exact hother.lookupInstance?_eq hs.registry.toIsMatched t o
  · exact (hlookup o).mpr ⟨hregistered, World.lasting_of_reaches hs.registry hs.made hreaches⟩
  · rw [← Option.not_isSome_iff_eq_none, hlookup]
    rintro ⟨-, hlasts⟩
    -- what lasts is reached, or is held in a circle through its own private table
    rcases World.reaches_or_circular_of_lasting hlasts with hreaches | hcircular
    · exact hunreached hreaches
    · exact hacyclic hcircular

/-- Of three instances, one is held by a variable, one by nothing, and one by itself. -/
def circularSource : List UInt8 :=
  "class A{private x=1;}let a=new A();new A();let c=new A();c.self=c;c=null;".toUTF8.toList

/-- The session in which they were made. -/
def circular : Session := left 128 circularSource 8

theorem reclamation_circular :
    circular.Hosted (ran 128 circularSource 8).1.values ∧ [] ⊆ (ran 128 circularSource 8).1.values ∧
      (∀ o ∈ [1, 2, 3], .registered ⟨0⟩ ⟨o⟩ ∈ circular.machine.journal) ∧
      {o | .registered ⟨0⟩ o ∈ circular.machine.journal ∧
        (circular.settle []).machine.world.Lasting [.scope Scopes.rootId] (.object o)}.ncard =
        2 := by
  have hhosted : circular.Hosted (ran 128 circularSource 8).1.values := hosted_left _ _ _
  obtain ⟨hcount, -⟩ := hhosted.reclamation (List.nil_subset _) ⟨0⟩
  obtain ⟨hregistered, hlive⟩ :
      (∀ o ∈ [1, 2, 3], .registered ⟨0⟩ ⟨o⟩ ∈ circular.machine.journal) ∧
        (circular.settle []).machine.world.liveInstances ⟨0⟩ = 2 := by
    decide +kernel
  exact ⟨hhosted, List.nil_subset _, hregistered, hcount.symm.trans hlive⟩

end Enclave.Session
