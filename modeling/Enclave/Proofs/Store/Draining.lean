import Enclave.Proofs.Store.Survivors
import Mathlib.Data.Multiset.AddSub
import Mathlib.Logic.Relation

/-!
# Draining in any order

The algorithm for survivors lets nodes fall in an order of its own. Here a hold is let go of at a
time, and any of those that are pending may be the next one (`Graph.Drains`): the one queued last,
the one queued first, or one deep inside a structure that is just being taken apart. When none is
pending any more, the support that is left is the one the algorithm finds, whatever the order was
(`Graph.Drained.eq_remaining`), and every order comes to an end (`Graph.Drains.work_lt`).
-/

namespace Enclave.Graph

open Finset

variable {g : Graph} {D E : Finset ℕ} {state state' : Array ℕ × Multiset ℕ}

/-- The nodes that nothing holds at the start. -/
def unheld (g : Graph) : List ℕ := (List.range g.size).filter fun n => g.support.getD n 0 = 0

/-- Before anything is drained, whatever the unheld nodes hold is pending. -/
def drainStart (g : Graph) : Array ℕ × Multiset ℕ := (g.support, ↑(g.unheld.flatMap g.successors))

/-- One of the pending holds is let go of. If it was the last one of its node, what the node holds
becomes pending. -/
inductive Drains (g : Graph) : Array ℕ × Multiset ℕ → Array ℕ × Multiset ℕ → Prop
  | step (support : Array ℕ) (n : ℕ) (pending : Multiset ℕ) :
    Drains g (support, n ::ₘ pending)
      ((withdraw (support, []) n).1,
        pending + ↑((withdraw (support, []) n).2.flatMap g.successors))

/-- What support may be left when nothing is pending any more. -/
def Drained (g : Graph) (support : Array ℕ) : Prop :=
  Relation.ReflTransGen g.Drains g.drainStart (support, 0)

/-! ### What is left in the end -/

/-- Where a drain stands: the nodes without support have fallen, and what they held is withdrawn, as
far as it is not pending. -/
structure IsDraining (g : Graph) (D : Finset ℕ) (state : Array ℕ × Multiset ℕ) : Prop where
  size : state.1.size = g.size
  fallen : ∀ n, n ∈ D ↔ n < g.size ∧ state.1.getD n 0 = 0
  pending : ∀ n, state.2.count n ≤ g.edgesFrom D n
  support : ∀ n < g.size, state.1.getD n 0 =
    g.initialSupport n (g.edgesFrom (range g.size) n) - (g.edgesFrom D n - state.2.count n)
  unkept : ∀ S, g.IsSustained S → ∀ n ∈ D, ¬S n

theorem IsDraining.subset (h : g.IsDraining D state) : D ⊆ range g.size := fun n hn =>
  mem_range.mpr ((h.fallen n).mp hn).1

theorem isDraining_start (g : Graph) : g.IsDraining g.unheld.toFinset g.drainStart := by
  have hfallen : ∀ n, n ∈ g.unheld.toFinset ↔ n < g.size ∧ g.support.getD n 0 = 0 := by
    simp [unheld]
  have hcount : ∀ n, g.drainStart.2.count n = g.edgesFrom g.unheld.toFinset n := by
    intro n
    have hnodup : g.unheld.Nodup := List.nodup_range.filter _
    rw [edgesFrom, List.sum_toFinset _ hnodup, drainStart, Multiset.coe_count, List.count_flatMap]
    rfl
  refine ⟨size_support g, hfallen, fun n => (hcount n).le, fun n hn => ?_, fun S hS n hn hSn => ?_⟩
  · -- nothing has drained yet, so the support is the number of edges into the node
    rw [hcount, Nat.sub_self, Nat.sub_zero]
    exact getD_support g n hn
  · -- a sustained node has an edge into it, so it is not one without support
    obtain ⟨hlt, hzero⟩ := (hfallen n).mp hn
    have hpos := supportAfter_pos hS (empty_subset _) (fun m hm => absurd hm (notMem_empty m)) hSn
    have hnone : g.edgesFrom ∅ n = 0 := sum_empty
    rw [supportAfter, hnone, Nat.sub_zero, ← getD_support g n hlt, hzero] at hpos
    exact lt_irrefl 0 hpos

/-- Letting go of a hold that was not the last one of its node. -/
theorem IsDraining.keep {support : Array ℕ} {n : ℕ} {pending : Multiset ℕ}
    (h : g.IsDraining D (support, n ::ₘ pending)) (hn : support.getD n 0 ≠ 1) :
    g.IsDraining D ((withdraw (support, []) n).1, pending) := by
  -- `n` has support left, so one withdrawal takes one off both what it has and what is pending
  have hget := getD_withdraw (support, []) n
  refine ⟨(size_withdraw _ n).trans h.size, fun m => ?_, fun m => ?_, fun m hm => ?_, h.unkept⟩
  · rw [hget, h.fallen m]
    by_cases hnm : n = m
    · subst hnm
      rw [if_pos rfl]
      simp only
      omega
    · rw [if_neg hnm, Nat.sub_zero]
  · exact (Multiset.count_le_count_cons m n pending).trans (h.pending m)
  · have hle := h.pending m
    rw [hget, h.support m hm]
    by_cases hnm : n = m
    · subst hnm
      rw [Multiset.count_cons_self] at hle ⊢
      rw [if_pos rfl]
      simp only
      omega
    · rw [Multiset.count_cons_of_ne (Ne.symm hnm), if_neg hnm, Nat.sub_zero]

/-- Letting go of the last hold of a node: what it held becomes pending. -/
theorem IsDraining.fall {support : Array ℕ} {n : ℕ} {pending : Multiset ℕ}
    (h : g.IsDraining D (support, n ::ₘ pending)) (hn : support.getD n 0 = 1) :
    g.IsDraining (insert n D) ((withdraw (support, []) n).1, pending + ↑(g.successors n)) := by
  have hget := getD_withdraw (support, []) n
  -- a node with support is a node of the graph
  have hlt : n < g.size := by
    by_contra hge
    rw [getD_of_size_le (by rw [h.size]; omega)] at hn
    cases hn
  -- and it has not fallen yet, or else it would have none
  have hnD : n ∉ D := fun hD => by
    have hzero := ((h.fallen n).mp hD).2
    simp only at hzero
    omega
  refine ⟨(size_withdraw _ n).trans h.size, fun m => ?_, fun m => ?_, fun m hm => ?_,
    fun S hS m hm => ?_⟩
  · -- fallen are those from before and this one, whose last unit is gone
    rw [hget, mem_insert, h.fallen m]
    by_cases hnm : n = m
    · subst hnm
      simp [hlt, hn]
    · simp [hnm, Ne.symm hnm]
  · have hle := (Multiset.count_le_count_cons m n pending).trans (h.pending m)
    rw [edgesFrom_insert hnD, Multiset.count_add, Multiset.coe_count]
    omega
  · -- its edges go from the support of others to what is pending
    have hle := h.pending m
    rw [hget, h.support m hm, edgesFrom_insert hnD, Multiset.count_add, Multiset.coe_count]
    by_cases hnm : n = m
    · subst hnm
      rw [Multiset.count_cons_self] at hle ⊢
      rw [if_pos rfl]
      omega
    · rw [Multiset.count_cons_of_ne (Ne.symm hnm)] at hle ⊢
      rw [if_neg hnm]
      omega
  · rcases mem_insert.mp hm with rfl | hm
    · -- a node that is kept up has support from elsewhere, besides the hold that is let go of
      intro hSm
      have hpos := supportAfter_pos hS h.subset (h.unkept S hS) hSm
      have hle := h.pending m
      have hsupport := h.support m hlt
      rw [supportAfter] at hpos
      simp only [Multiset.count_cons_self] at hle hsupport
      omega
    · exact h.unkept S hS m hm

theorem IsDraining.next (h : g.IsDraining D state) (hstep : g.Drains state state') :
    ∃ E, g.IsDraining E state' := by
  obtain ⟨support, n, pending⟩ := hstep
  have hfalling := falling_withdraw (support, []) n
  -- The node that loses support falls, if that was its last, or goes on with one less.
  by_cases hn : support.getD n 0 = 1
  · rw [if_pos hn] at hfalling
    rw [hfalling, List.flatMap_singleton]
    exact ⟨_, h.fall hn⟩
  · rw [if_neg hn] at hfalling
    rw [hfalling, List.flatMap_nil, Multiset.coe_nil, add_zero]
    exact ⟨_, h.keep hn⟩

theorem exists_isDraining (h : Relation.ReflTransGen g.Drains g.drainStart state) :
    ∃ D, g.IsDraining D state := by
  induction h with
  | refl => exact ⟨_, g.isDraining_start⟩
  | tail _ hstep ih =>
    obtain ⟨D, hD⟩ := ih
    exact hD.next hstep

/-- The algorithm stands where a drain stands at its end. -/
theorem exists_isDraining_remaining (g : Graph) : ∃ D, g.IsDraining D (g.remaining, 0) := by
  obtain ⟨D, hD, hunkept⟩ := g.exists_isSettling_remaining
  refine ⟨D, hD.size, fun n => ?_, fun n => ?_, fun n hn => ?_, hunkept⟩
  · simpa [hD.size] using hD.marks.fallen n
  · rw [Multiset.count_zero]
    exact Nat.zero_le _
  · rw [Multiset.count_zero, Nat.sub_zero]
    exact hD.support n hn

theorem IsDraining.isSustained {support : Array ℕ} (h : g.IsDraining D (support, 0)) :
    g.IsSustained fun n => n < g.size ∧ n ∉ D := by
  refine isSustained_of_fallen fun n hn => ?_
  have hsupport := h.support n hn
  rw [Multiset.count_zero, Nat.sub_zero] at hsupport
  rw [h.fallen, supportAfter, ← hsupport]
  exact and_iff_right hn

/-- At the end of a drain no other nodes have fallen than at the end of any other. -/
theorem IsDraining.subset_of_end {support support' : Array ℕ} (h : g.IsDraining D (support, 0))
    (h' : g.IsDraining E (support', 0)) : D ⊆ E := fun n hn => by
  by_contra hnE
  exact h.unkept _ h'.isSustained n hn ⟨mem_range.mp (h.subset hn), hnE⟩

theorem IsDraining.eq_of_end {support support' : Array ℕ} (h : g.IsDraining D (support, 0))
    (h' : g.IsDraining E (support', 0)) : support = support' := by
  obtain rfl : D = E := (h.subset_of_end h').antisymm (h'.subset_of_end h)
  refine Array.ext (h.size.trans h'.size.symm) fun n hn hn' => ?_
  have heq : support.getD n 0 = support'.getD n 0 :=
    (h.support n (h.size ▸ hn)).trans (h'.support n (h.size ▸ hn)).symm
  simpa [Array.getD_eq_getD_getElem?, hn, hn'] using heq

/-- **Any order.** Whatever the order in which the holds are let go of, the support that is left is
what the algorithm finds. -/
theorem Drained.eq_remaining {support : Array ℕ} (h : g.Drained support) :
    support = g.remaining := by
  obtain ⟨D, hD⟩ := exists_isDraining h
  obtain ⟨E, hE⟩ := g.exists_isDraining_remaining
  exact hD.eq_of_end hE

/-! ### Coming to an end -/

/-- How many holds are still to be let go of at most: those that are pending, and those of nodes
that have not fallen. -/
def work (g : Graph) (state : Array ℕ × Multiset ℕ) : ℕ :=
  state.2.card +
    ∑ n ∈ range g.size with 0 < state.1.getD n 0, (g.successors n).length

/-- Each hold is let go of once, so a drain is no longer than there is work at its start. -/
theorem Drains.work_lt (hD : g.IsDraining D state) (h : g.Drains state state') :
    g.work state' < g.work state := by
  obtain ⟨support, n, pending⟩ := h
  have hfalling := falling_withdraw (support, []) n
  have hget := getD_withdraw (support, []) n
  by_cases hn : support.getD n 0 = 1
  · have hlt : n < g.size := by
      by_contra hge
      rw [getD_of_size_le (by rw [hD.size]; omega)] at hn
      cases hn
    -- a node that falls adds what it supports to what is pending, and is counted no more
    have hrest : {m ∈ range g.size | 0 < support.getD m 0} =
        insert n {m ∈ range g.size | 0 < (withdraw (support, []) n).1.getD m 0} := by
      ext m
      rw [mem_insert, mem_filter, mem_filter, mem_range, hget]
      by_cases hnm : n = m
      · subst hnm
        simp [hlt, hn]
      · simp [hnm, Ne.symm hnm]
    have hgone : n ∉ {m ∈ range g.size | 0 < (withdraw (support, []) n).1.getD m 0} := by
      rw [mem_filter, hget, if_pos rfl, hn]
      exact fun hmem => lt_irrefl 0 hmem.2
    rw [if_pos hn] at hfalling
    rw [hfalling, List.flatMap_singleton, work, work, hrest, sum_insert hgone]
    simp only [Multiset.card_add, Multiset.card_cons, Multiset.coe_card]
    omega
  · -- a node that stays is counted still, and one withdrawal fewer is pending
    have hsame : {m ∈ range g.size | 0 < (withdraw (support, []) n).1.getD m 0} =
        {m ∈ range g.size | 0 < support.getD m 0} := by
      refine filter_congr fun m _ => ?_
      rw [hget]
      by_cases hnm : n = m
      · subst hnm
        simp only [if_true]
        omega
      · rw [if_neg hnm, Nat.sub_zero]
    rw [if_neg hn] at hfalling
    rw [hfalling, List.flatMap_nil, Multiset.coe_nil, add_zero, work, work, hsame]
    simp only [Multiset.card_cons]
    omega

/-- However far a drain has come, it can be brought to an end. -/
theorem exists_drained_of_reached (h : Relation.ReflTransGen g.Drains g.drainStart state) :
    ∃ support, Relation.ReflTransGen g.Drains state (support, 0) := by
  -- On the work that is left: every step takes some of it.
  induction hwork : g.work state using Nat.strong_induction_on generalizing state with
  | _ k ih =>
    obtain ⟨support, pending⟩ := state
    induction pending using Multiset.induction_on with
    | empty => exact ⟨support, .refl⟩
    | cons n pending _ =>
      obtain ⟨D, hD⟩ := exists_isDraining h
      have hstep := Drains.step (g := g) support n pending
      obtain ⟨support', hrest⟩ := ih _ (hwork ▸ hstep.work_lt hD) (h.tail hstep) rfl
      exact ⟨support', .head hstep hrest⟩

/-- The algorithm finds what some order of draining leaves. -/
theorem drained_remaining (g : Graph) : g.Drained g.remaining := by
  obtain ⟨support, h⟩ := exists_drained_of_reached (g := g) .refl
  obtain rfl := Drained.eq_remaining h
  exact h

end Enclave.Graph
