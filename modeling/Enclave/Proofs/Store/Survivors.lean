import Enclave.Proofs.Store.Places
import Enclave.Store.Survival
import Mathlib.Algebra.BigOperators.Intervals
import Mathlib.Algebra.Order.BigOperators.Group.Finset

/-!
# Survivors

The nodes that survive are the largest set in which every member has what keeps it up
(`Graph.survives_iff`): a root needs nothing, a joint node needs all of its supporters and at least
one, and any other node needs one of them.

The algorithm counts. A node that starts out with a certain support has lost one unit for each edge
from a node that has fallen, and those that have none left are exactly the ones that have fallen or
are about to (`Marks`). One round of letting a node fall keeps this (`marks_withdrawAll`), and since
a node falls only once, there are enough rounds.
-/

namespace Enclave.Graph

open Finset

variable {g : Graph} {S : ℕ → Prop}

/-- A set of nodes each of which is kept up: a root by itself, a joint node by all of its supporters
together, and any other node by one supporter in the set. -/
def IsSustained (g : Graph) (S : ℕ → Prop) : Prop :=
  ∀ n, S n → n < g.size ∧ (g.isRoot n = true ∨
    if g.isJoint n then
      (∀ m < g.size, n ∈ g.successors m → S m) ∧ ∃ m < g.size, n ∈ g.successors m
    else ∃ m < g.size, S m ∧ n ∈ g.successors m)

/-- The number of edges that lead to a node from some others. -/
def edgesFrom (g : Graph) (D : Finset ℕ) (n : ℕ) : ℕ := ∑ m ∈ D, (g.successors m).count n

/-! ### Counting edges -/

/-- Counting a list of nodes adds to each node's count as often as it is listed. -/
theorem getD_bump (ms : List ℕ) (counts : Array ℕ) (n : ℕ) :
    (ms.foldl (fun counts m => counts.modify m (· + 1)) counts).getD n 0 =
      if n < counts.size then counts.getD n 0 + ms.count n else 0 := by
  induction ms generalizing counts with
  | nil =>
    by_cases hn : n < counts.size
    · simp [hn]
    · simp [hn]
  | cons m ms ih =>
    rw [List.foldl_cons, ih, Array.size_modify, getD_modify, List.count_cons]
    by_cases hn : n < counts.size
    · -- The node counted now is the one asked for, or another.
      by_cases hm : m = n
      · simp [hn, hm]
        omega
      · simp [hm]
    · simp [hn]

/-- Counting nodes makes no room for more. -/
theorem size_bump (ms : List ℕ) (counts : Array ℕ) :
    (ms.foldl (fun counts m => counts.modify m (· + 1)) counts).size = counts.size := by
  induction ms generalizing counts with
  | nil => rfl
  | cons m ms ih => rw [List.foldl_cons, ih, Array.size_modify]

/-- The edges into a node are counted from all nodes. -/
theorem getD_edgesInto (g : Graph) (n : ℕ) (hn : n < g.size) :
    g.edgesInto.getD n 0 = g.edgesFrom (range g.size) n := by
  -- each node adds its own edges to the counts so far
  have hfold : ∀ (ns : List ℕ) (counts : Array ℕ), n < counts.size →
      (ns.foldl (fun counts k =>
        (g.successors k).foldl (fun counts m => counts.modify m (· + 1)) counts) counts).getD n 0 =
      counts.getD n 0 + (ns.map fun k => (g.successors k).count n).sum := by
    intro ns
    induction ns with
    | nil => intro counts _; simp
    | cons k ns ih =>
      intro counts hsize
      rw [List.foldl_cons, ih _ (by rwa [size_bump]), getD_bump, if_pos hsize, List.map_cons,
        List.sum_cons, Nat.add_assoc]
  have hzero : (Array.replicate g.size 0).getD n 0 = 0 := by
    rw [Array.getD_eq_getD_getElem?, Array.getElem?_replicate, if_pos hn, Option.getD_some]
  rw [edgesInto, hfold _ _ (by simpa using hn), hzero, Nat.zero_add]
  rfl

/-- There is a count of edges for every node. -/
theorem size_edgesInto (g : Graph) : g.edgesInto.size = g.size := by
  -- Counting changes counts and adds none.
  have hfold : ∀ (ns : List ℕ) (counts : Array ℕ),
      (ns.foldl (fun counts k =>
        (g.successors k).foldl (fun counts m => counts.modify m (· + 1)) counts) counts).size =
      counts.size := by
    intro ns
    induction ns with
    | nil => intro counts; rfl
    | cons k ns ih => intro counts; rw [List.foldl_cons, ih, size_bump]
  rw [edgesInto, hfold, Array.size_replicate]

/-- The support of a node is what it starts out with. -/
theorem getD_support (g : Graph) (n : ℕ) (hn : n < g.size) :
    g.support.getD n 0 = g.initialSupport n (g.edgesFrom (range g.size) n) := by
  have hn' : n < g.edgesInto.size := by rwa [size_edgesInto]
  rw [← getD_edgesInto g n hn]
  simp [support, Array.getD_eq_getD_getElem?, hn']

/-- There is a support for every node. -/
theorem size_support (g : Graph) : g.support.size = g.size := by
  rw [support, Array.size_mapIdx, size_edgesInto]

/-- One more node adds its own edges. -/
theorem edgesFrom_insert {D : Finset ℕ} {m : ℕ} (hm : m ∉ D) (n : ℕ) :
    g.edgesFrom (insert m D) n = (g.successors m).count n + g.edgesFrom D n :=
  sum_insert hm

/-- More nodes have more edges. -/
theorem edgesFrom_mono {D E : Finset ℕ} (h : D ⊆ E) (n : ℕ) : g.edgesFrom D n ≤ g.edgesFrom E n :=
  sum_le_sum_of_subset h

/-- There are no edges from some nodes exactly when none of them leads to the node. -/
theorem edgesFrom_eq_zero_iff {D : Finset ℕ} {n : ℕ} :
    g.edgesFrom D n = 0 ↔ ∀ m ∈ D, n ∉ g.successors m := by
  rw [edgesFrom, sum_eq_zero_iff]
  exact forall₂_congr fun m _ => List.count_eq_zero

/-- Fewer edges come from some nodes than from all only if another node has an edge. -/
theorem exists_of_edgesFrom_lt {D E : Finset ℕ} {n : ℕ} (h : g.edgesFrom D n < g.edgesFrom E n) :
    ∃ m ∈ E, m ∉ D ∧ n ∈ g.successors m := by
  by_contra hnone
  push Not at hnone
  have hle : g.edgesFrom E n ≤ g.edgesFrom D n := by
    rw [edgesFrom, edgesFrom, ← sum_filter_add_sum_filter_not E (· ∈ D)]
    -- Nodes outside would have no edges to add.
    have hrest : ∑ m ∈ E with m ∉ D, (g.successors m).count n = 0 :=
      sum_eq_zero fun m hm => by
        rw [mem_filter] at hm
        exact List.count_eq_zero.mpr (hnone m hm.1 hm.2)
    rw [hrest, Nat.add_zero]
    exact sum_le_sum_of_subset fun m hm => (mem_filter.mp hm).2
  omega

/-- An edge from a node left out is missing from the count. -/
theorem edgesFrom_lt_of_mem {D E : Finset ℕ} {m n : ℕ} (hDE : D ⊆ E) (hm : m ∈ E) (hmD : m ∉ D)
    (hedge : n ∈ g.successors m) : g.edgesFrom D n < g.edgesFrom E n := by
  have hpos : 0 < (g.successors m).count n := List.count_pos_iff.mpr hedge
  have hinsert : g.edgesFrom (insert m D) n ≤ g.edgesFrom E n :=
    edgesFrom_mono (insert_subset hm hDE) n
  rw [edgesFrom_insert hmD] at hinsert
  omega

/-! ### One round -/

/-- The nodes without support are those that have fallen and those that are about to, each of which
is noted once. -/
structure Marks (D : Finset ℕ) (state : Array ℕ × List ℕ) : Prop where
  nodup : state.2.Nodup
  fresh : ∀ n ∈ state.2, n ∉ D
  fallen : ∀ n, n ∈ state.2 ∨ n ∈ D ↔ n < state.1.size ∧ state.1.getD n 0 = 0

/-- Withdrawing the last support of a node makes it fall. -/
theorem withdraw_of_one {support : Array ℕ} {m : ℕ} (falling : List ℕ)
    (h : support.getD m 0 = 1) :
    withdraw (support, falling) m = (support.setIfInBounds m 0, m :: falling) := by
  have hm : support[m]? = some 1 := by
    rw [Array.getD_eq_getD_getElem?] at h
    cases hm : support[m]? with
    | none => rw [hm] at h; cases h
    | some k => rw [hm] at h; exact congrArg some h
  simp only [withdraw, hm]

/-- Withdrawing support that is not the last takes one unit. -/
theorem withdraw_of_ne_one {support : Array ℕ} {m : ℕ} (falling : List ℕ)
    (h : support.getD m 0 ≠ 1) :
    withdraw (support, falling) m =
      (support.setIfInBounds m (support.getD m 0 - 1), falling) := by
  rw [Array.getD_eq_getD_getElem?] at h ⊢
  match hm : support[m]? with
  -- out of bounds, or with no support left, nothing changes
  | none =>
    have hge : support.size ≤ m := Array.getElem?_eq_none_iff.mp hm
    simp only [withdraw, hm]
    rw [Array.setIfInBounds_eq_of_size_le hge]
  | some 0 =>
    obtain ⟨hlt, hval⟩ := Array.getElem?_eq_some_iff.mp hm
    simp only [withdraw, hm, Option.getD_some, Nat.zero_sub]
    rw [← hval, Array.setIfInBounds_def, dif_pos hlt, Array.set_getElem_self]
  | some 1 => exact absurd (by rw [hm]; rfl) h
  | some (k + 2) =>
    simp only [withdraw, hm, Option.getD_some]
    rfl

theorem getD_setIfInBounds (support : Array ℕ) (m n k : ℕ) :
    (support.setIfInBounds m k).getD n 0 =
      if m = n ∧ m < support.size then k else support.getD n 0 := by
  rw [Array.getD_eq_getD_getElem?, Array.getD_eq_getD_getElem?, Array.getElem?_setIfInBounds]
  by_cases hm : m = n
  · subst hm
    by_cases hlt : m < support.size
    · simp [hlt]
    · simp [hlt]
  · simp [hm]

/-- Withdrawing support leaves a count for every node. -/
theorem size_withdraw (state : Array ℕ × List ℕ) (m : ℕ) :
    (withdraw state m).1.size = state.1.size := by
  obtain ⟨support, falling⟩ := state
  by_cases hone : support.getD m 0 = 1
  · rw [withdraw_of_one falling hone, Array.size_setIfInBounds]
  · rw [withdraw_of_ne_one falling hone, Array.size_setIfInBounds]

/-- Withdrawing support takes one unit from one node. -/
theorem getD_withdraw (state : Array ℕ × List ℕ) (m n : ℕ) :
    (withdraw state m).1.getD n 0 = state.1.getD n 0 - if m = n then 1 else 0 := by
  obtain ⟨support, falling⟩ := state
  -- Whether the node falls or not, its support is one less.
  have hset : (withdraw (support, falling) m).1 =
      support.setIfInBounds m (support.getD m 0 - 1) := by
    by_cases hone : support.getD m 0 = 1
    · rw [withdraw_of_one falling hone, hone]
    · rw [withdraw_of_ne_one falling hone]
  rw [hset, getD_setIfInBounds]
  by_cases hm : m = n
  · subst hm
    by_cases hlt : m < support.size
    · rw [if_pos ⟨rfl, hlt⟩, if_pos rfl]
    · rw [if_neg (fun h => hlt h.2), getD_of_size_le (by omega), Nat.zero_sub]
  · rw [if_neg (fun h => hm h.1), if_neg hm, Nat.sub_zero]

/-- A node is about to fall when its last support is withdrawn. -/
theorem falling_withdraw (state : Array ℕ × List ℕ) (m : ℕ) :
    (withdraw state m).2 = if state.1.getD m 0 = 1 then m :: state.2 else state.2 := by
  obtain ⟨support, falling⟩ := state
  by_cases hone : support.getD m 0 = 1
  · rw [withdraw_of_one falling hone, if_pos hone]
  · rw [withdraw_of_ne_one falling hone, if_neg hone]

/-- Withdrawing one unit keeps the marks. -/
theorem Marks.withdraw {D : Finset ℕ} {state : Array ℕ × List ℕ} (h : Marks D state) (m : ℕ) :
    Marks D (Graph.withdraw state m) := by
  by_cases hone : state.1.getD m 0 = 1
  · -- the last unit goes, and the node is noted
    have hlt : m < state.1.size := by
      by_contra hge
      rw [getD_of_size_le (by omega)] at hone
      cases hone
    have hnot : ¬(m ∈ state.2 ∨ m ∈ D) := fun hm => by
      have := ((h.fallen m).mp hm).2
      omega
    push Not at hnot
    refine ⟨?_, ?_, fun n => ?_⟩
    · rw [falling_withdraw, if_pos hone]
      exact List.nodup_cons.mpr ⟨hnot.1, h.nodup⟩
    · rw [falling_withdraw, if_pos hone]
      intro n hn
      rcases List.mem_cons.mp hn with rfl | hn
      · exact hnot.2
      · exact h.fresh n hn
    · rw [falling_withdraw, if_pos hone, size_withdraw, getD_withdraw, List.mem_cons, or_assoc,
        h.fallen n]
      by_cases hmn : m = n
      · subst hmn
        simp [hlt, hone]
      · simp [hmn, Ne.symm hmn]
  · -- otherwise nothing is noted, and no count reaches zero by it
    refine ⟨?_, ?_, fun n => ?_⟩
    · rw [falling_withdraw, if_neg hone]
      exact h.nodup
    · rw [falling_withdraw, if_neg hone]
      exact h.fresh
    · rw [falling_withdraw, if_neg hone, size_withdraw, getD_withdraw, h.fallen n]
      by_cases hmn : m = n
      · subst hmn
        rw [if_pos rfl]
        omega
      · simp [hmn]

/-- A round takes one unit from each successor for each edge, as long as there is one. -/
theorem marks_withdrawAll {D : Finset ℕ} (ms : List ℕ) {state : Array ℕ × List ℕ}
    (h : Marks D state) :
    Marks D (ms.foldl withdraw state) ∧ (ms.foldl withdraw state).1.size = state.1.size ∧
      ∀ n, (ms.foldl withdraw state).1.getD n 0 = state.1.getD n 0 - ms.count n := by
  -- the invariant and the counts are carried from one edge to the next
  induction ms generalizing state with
  | nil => exact ⟨h, rfl, fun n => by simp⟩
  | cons m ms ih =>
    obtain ⟨hmarks, hsize, hget⟩ := ih (h.withdraw m)
    refine ⟨hmarks, hsize.trans (size_withdraw _ _), fun n => ?_⟩
    rw [List.foldl_cons, hget, getD_withdraw, List.count_cons]
    by_cases hm : m = n
    · simp [hm]
      omega
    · simp [hm]

/-! ### All rounds -/

/-- The support that is left to each node after some have fallen. -/
def supportAfter (g : Graph) (D : Finset ℕ) (n : ℕ) : ℕ :=
  g.initialSupport n (g.edgesFrom (range g.size) n) - g.edgesFrom D n

/-- Where the algorithm stands when some nodes have fallen. -/
structure IsSettling (g : Graph) (D : Finset ℕ) (state : Array ℕ × List ℕ) : Prop where
  marks : Marks D state
  size : state.1.size = g.size
  support : ∀ n < g.size, state.1.getD n 0 = g.supportAfter D n

/-- Only nodes of the graph have fallen. -/
theorem IsSettling.subset {D : Finset ℕ} {state : Array ℕ × List ℕ} (h : g.IsSettling D state) :
    D ⊆ range g.size := fun n hn => by
  rw [mem_range, ← h.size]
  exact ((h.marks.fallen n).mp (Or.inr hn)).1

/-- A node that is kept up has support left, as long as no node kept up has fallen. -/
theorem supportAfter_pos {D : Finset ℕ} (hS : g.IsSustained S) (hD : D ⊆ range g.size)
    (hout : ∀ m ∈ D, ¬S m) {n : ℕ} (hn : S n) : 0 < g.supportAfter D n := by
  obtain ⟨hlt, hroot | hkept⟩ := hS n hn
  · -- a root has one support more than the edges to it
    have hle : g.edgesFrom D n ≤ g.edgesFrom (range g.size) n := edgesFrom_mono hD n
    rw [supportAfter, initialSupport, if_pos hroot]
    omega
  · unfold supportAfter initialSupport
    by_cases hroot : g.isRoot n
    · have hle : g.edgesFrom D n ≤ g.edgesFrom (range g.size) n := edgesFrom_mono hD n
      rw [if_pos hroot]
      omega
    rw [if_neg hroot]
    by_cases hjoint : g.isJoint n
    · rw [if_pos hjoint] at hkept ⊢
      obtain ⟨hall, m, hm, hedge⟩ := hkept
      -- a joint node loses its support at the first holder gone, and none of them is in `D`
      have hzero : g.edgesFrom D n = 0 := edgesFrom_eq_zero_iff.mpr fun k hk hkn =>
        hout k hk (hall k (mem_range.mp (hD hk)) hkn)
      have hpos : 0 < g.edgesFrom (range g.size) n := Nat.pos_of_ne_zero fun hz =>
        edgesFrom_eq_zero_iff.mp hz m (mem_range.mpr hm) hedge
      omega
    · rw [if_neg hjoint] at hkept ⊢
      -- any other node is left the edge from the holder that sustains it
      obtain ⟨m, hm, hSm, hedge⟩ := hkept
      have hlt := edgesFrom_lt_of_mem hD (mem_range.mpr hm) (fun hmD => hout m hmD hSm) hedge
      omega

/-- Letting the next node fall. -/
theorem IsSettling.next {D : Finset ℕ} {support : Array ℕ} {n : ℕ} {falling : List ℕ}
    (h : g.IsSettling D (support, n :: falling)) :
    g.IsSettling (insert n D) ((g.successors n).foldl withdraw (support, falling)) := by
  have hnD : n ∉ D := h.marks.fresh n (by simp)
  have hnodup := List.nodup_cons.mp h.marks.nodup
  -- the node that falls moves from those waiting to those settled
  have hmarks : Marks (insert n D) (support, falling) := by
    refine ⟨hnodup.2, fun m hm => ?_, fun m => ?_⟩
    · rw [mem_insert, not_or]
      exact ⟨fun heq => hnodup.1 (heq ▸ hm), h.marks.fresh m (List.mem_cons_of_mem _ hm)⟩
    · rw [← h.marks.fallen m, mem_insert, List.mem_cons]
      tauto
  obtain ⟨hmarks', hsize, hget⟩ := marks_withdrawAll (g.successors n) hmarks
  refine ⟨hmarks', hsize.trans h.size, fun m hm => ?_⟩
  rw [hget, h.support m hm, supportAfter, supportAfter, edgesFrom_insert hnD]
  omega

/-- When nothing more falls, each node is left with what support the fallen ones did not take, and
no node that is kept up has fallen. -/
theorem settle_spec (bound : ℕ) {D : Finset ℕ} {state : Array ℕ × List ℕ}
    (h : g.IsSettling D state) (hbound : g.size < bound + D.card)
    (hout : ∀ S, g.IsSustained S → ∀ m ∈ D, ¬S m) :
    ∃ E, g.IsSettling E (g.settle bound state, []) ∧ ∀ S, g.IsSustained S → ∀ m ∈ E, ¬S m := by
  induction bound generalizing D state with
  | zero =>
    have hcard := card_le_card h.subset
    rw [card_range] at hcard
    omega
  | succ bound ih =>
    obtain ⟨support, falling⟩ := state
    cases falling with
    | nil => exact ⟨D, h, hout⟩
    | cons n falling =>
      have hnD : n ∉ D := h.marks.fresh n (by simp)
      refine ih h.next (by rw [card_insert_of_notMem hnD]; omega) fun S hS m hm => ?_
      rcases mem_insert.mp hm with rfl | hm
      · -- the node that falls has no support left, so nothing keeps it up
        intro hSm
        have hfallen := (h.marks.fallen m).mp (Or.inl (by simp))
        have hpos := supportAfter_pos hS h.subset (hout S hS) hSm
        rw [← h.support m (h.size ▸ hfallen.1), hfallen.2] at hpos
        exact lt_irrefl 0 hpos
      · exact hout S hS m hm

/-- Before anything has fallen. -/
theorem isSettling_start (g : Graph) :
    g.IsSettling ∅ (g.support, (List.range g.size).filter fun n => g.support.getD n 0 = 0) := by
  refine ⟨⟨?_, by simp, fun n => ?_⟩, size_support g, fun n hn => ?_⟩
  · exact List.nodup_range.filter _
  · simp [size_support]
  · have hnone : g.edgesFrom ∅ n = 0 := sum_empty
    rw [getD_support g n hn, supportAfter, hnone, Nat.sub_zero]

/-- Where no more nodes are about to fall, those that have not fallen keep each other up. -/
theorem isSustained_of_fallen {D : Finset ℕ}
    (hfallen : ∀ n < g.size, n ∈ D ↔ g.supportAfter D n = 0) :
    g.IsSustained fun n => n < g.size ∧ n ∉ D := by
  rintro n ⟨hlt, hn⟩
  refine ⟨hlt, ?_⟩
  -- what has not fallen has support left, and so a holder that has not fallen either
  have hpos : 0 < g.supportAfter D n := Nat.pos_of_ne_zero fun hz => hn ((hfallen n hlt).mpr hz)
  unfold supportAfter initialSupport at hpos
  by_cases hroot : g.isRoot n
  · exact Or.inl hroot
  rw [if_neg hroot] at hpos
  refine Or.inr ?_
  by_cases hjoint : g.isJoint n
  · rw [if_pos hjoint] at hpos ⊢
    have hzero : g.edgesFrom D n = 0 := by omega
    have hnone : g.edgesFrom ∅ n = 0 := sum_empty
    have hone : g.edgesFrom ∅ n < g.edgesFrom (range g.size) n := by omega
    obtain ⟨k, hk, -, hedge⟩ := exists_of_edgesFrom_lt hone
    exact ⟨fun k hk hkn => ⟨hk, fun hkD => edgesFrom_eq_zero_iff.mp hzero k hkD hkn⟩,
      k, mem_range.mp hk, hedge⟩
  · rw [if_neg hjoint] at hpos ⊢
    obtain ⟨k, hk, hkD, hedge⟩ := exists_of_edgesFrom_lt (by omega :
      g.edgesFrom D n < g.edgesFrom (range g.size) n)
    exact ⟨k, mem_range.mp hk, ⟨mem_range.mp hk, hkD⟩, hedge⟩

/-- Where the algorithm stands at the end. -/
theorem exists_isSettling_remaining (g : Graph) :
    ∃ D, g.IsSettling D (g.remaining, []) ∧ ∀ S, g.IsSustained S → ∀ m ∈ D, ¬S m :=
  settle_spec (g.size + 1) (isSettling_start g) (by simp)
    (fun _ _ m hm => absurd hm (notMem_empty m))

/-- **Survivors.** A node survives exactly if it belongs to a set in which every member is kept
up. -/
theorem survives_iff (g : Graph) (n : ℕ) :
    survives g.remaining n = true ↔ ∃ S, g.IsSustained S ∧ S n := by
  obtain ⟨D, hD, hout⟩ := g.exists_isSettling_remaining
  have hfallen : ∀ m, m ∈ D ↔ m < g.size ∧ g.remaining.getD m 0 = 0 := fun m => by
    simpa [hD.size] using hD.marks.fallen m
  have hlt : survives g.remaining n = true → n < g.size := fun h => by
    by_contra hge
    rw [survives, getD_of_size_le (by rw [hD.size]; omega)] at h
    simp at h
  -- the nodes that have not fallen sustain each other, and every sustained set is among them
  refine ⟨fun h => ⟨_, isSustained_of_fallen (D := D) fun m hm => ?_, hlt h, ?_⟩, ?_⟩
  · rw [hfallen, ← hD.support m hm]
    exact and_iff_right hm
  · rw [hfallen]
    simp only [survives, decide_eq_true_eq] at h
    omega
  · rintro ⟨S, hS, hn⟩
    rw [survives, decide_eq_true_eq]
    refine Nat.pos_of_ne_zero fun hz => ?_
    exact hout S hS n ((hfallen n).mpr ⟨(hS n hn).1, hz⟩) hn

end Enclave.Graph
