import Enclave.Proofs.Store.Counting

/-!
# Generations of an arena

Instances are put into an arena and taken out of it in any order, with handles that are still valid
and with others. Throughout, the arena knows the number of its filled entries and its vacant places,
and a handle finds its own instance until it is removed (`InstanceArena.occupant?_runs`).

After that, it depends on how often the place has been vacated since. An entry's generation is that
number, counted in words of thirty-two bits (`InstanceArena.generation?_runs`). So the handle finds
nothing unless the place is filled and the number is a multiple of `2 ^ 32`
(`InstanceArena.handles_exact`); but then it finds what another handle was given out for
(`InstanceArena.stale_handle_wrapped`). The numbers of places would wrap around, too, but not as
long as there are no more than `2 ^ 32` instances at one time
(`InstanceArena.toNat_index_nextHandle`).
-/

namespace Enclave.InstanceArena

/-! ### Runs of an arena -/

/-- Something that is done to an arena. -/
inductive Operation
  | insert (inst : ObjectId) (table : TableId)
  | remove (h : Handle)
  deriving DecidableEq

def perform (a : InstanceArena) : Operation → InstanceArena
  | .insert inst table => a.insert inst table
  | .remove h => a.remove h

/-- The arena after some operations in order. -/
def runs (a : InstanceArena) (operations : List Operation) : InstanceArena :=
  operations.foldl perform a

variable {a : InstanceArena} {op : Operation} {operations : List Operation} {h : Handle}
  {x : Occupant} {i : Nat} {g : UInt32}

theorem runs_cons (a : InstanceArena) (op : Operation) (rest : List Operation) :
    a.runs (op :: rest) = (a.perform op).runs rest := rfl

theorem runs_append (a : InstanceArena) (before later : List Operation) :
    a.runs (before ++ later) = (a.runs before).runs later := List.foldl_append

theorem IsSound.perform (ha : a.IsSound) (op : Operation) : (a.perform op).IsSound := by
  cases op with
  | insert o table => exact ha.insert o table
  | remove h => exact ha.remove h

theorem IsSound.runs (ha : a.IsSound) (operations : List Operation) :
    (a.runs operations).IsSound := by
  induction operations generalizing a with
  | nil => exact ha
  | cons op rest ih => exact ih (ha.perform op)

theorem IsCounted.perform (ha : a.IsCounted) (hsound : a.IsSound) (op : Operation) :
    (a.perform op).IsCounted := by
  cases op with
  | insert o table => exact ha.insert hsound o table
  | remove h => exact ha.remove h

theorem IsCounted.runs (ha : a.IsCounted) (hsound : a.IsSound) (operations : List Operation) :
    (a.runs operations).IsCounted := by
  induction operations generalizing a with
  | nil => exact ha
  | cons op rest ih => exact ih (ha.perform hsound op) (hsound.perform op)

/-- One operation: what a handle finds stays, unless it is removed by this handle. -/
theorem occupant?_perform (ha : a.IsSound) (hx : a.occupant? h = some x)
    (hop : .remove h ≠ op) : (a.perform op).occupant? h = some x := by
  cases op with
  | insert o table =>
    -- the next handle finds nothing yet, so it is another one
    have hne : h ≠ a.nextHandle := by
      rintro rfl
      rw [occupant?_nextHandle ha] at hx
      cases hx
    rw [perform, occupant?_insert ha, if_neg hne, hx]
  | remove h' =>
    have hne : h ≠ h' := by
      rintro rfl
      exact hop rfl
    rw [perform, occupant?_remove, if_neg hne, hx]

/-- **A handle finds its instance until it is removed**, whatever is put in and taken out. -/
theorem occupant?_runs (ha : a.IsSound) (hx : a.occupant? h = some x)
    (hkept : .remove h ∉ operations) : (a.runs operations).occupant? h = some x := by
  induction operations generalizing a with
  | nil => exact hx
  | cons op rest ih =>
    exact ih (ha.perform op) (occupant?_perform ha hx (List.ne_of_not_mem_cons hkept))
      (List.not_mem_of_not_mem_cons hkept)

/-! ### Words of thirty-two bits

Places are natural numbers here. A word of thirty-two bits is as good as long as no more than
`2 ^ 32` instances are in the arena at one time. -/

/-- If no place is vacant, there are as many instances as entries. -/
theorem IsCounted.live_eq_size (ha : a.IsCounted) (hsound : a.IsSound) (hfree : a.free = []) :
    a.live = a.entries.size := by
  rw [isCounted_iff.mp ha, ← Array.length_toList, List.countP_eq_length]
  intro entry hmem
  obtain ⟨i, hi, hentry⟩ := List.mem_iff_getElem.mp hmem
  by_contra hvacant
  have hmem : i ∈ a.free := (hsound.vacant i).mpr ⟨entry, by
    rw [← Array.getElem?_toList, List.getElem?_eq_getElem hi, hentry], by simpa using hvacant⟩
  rw [hfree] at hmem
  cases hmem

/-- An operation makes a new place only where all others are filled, and fills that one, too. -/
theorem size_perform_le (ha : a.IsCounted) (hsound : a.IsSound) (op : Operation) :
    (a.perform op).entries.size ≤ max a.entries.size (a.perform op).live := by
  cases op with
  | insert o table =>
    change (a.insert o table).entries.size ≤ max a.entries.size (a.insert o table).live
    unfold insert
    -- A place is added only when none is free, that is, when all are filled.
    cases hfree : a.free with
    | nil =>
      rw [Array.size_push, ← ha.live_eq_size hsound hfree]
      exact Nat.le_max_right _ _
    | cons place free =>
      rw [Array.size_modify]
      exact Nat.le_max_left _ _
  | remove h =>
    refine Nat.le_trans ?_ (Nat.le_max_left _ _)
    change (a.remove h).entries.size ≤ a.entries.size
    unfold remove
    split
    · rw [Array.size_modify]
    · exact Nat.le_refl _

/-- **Places are used again**: there are never more of them than instances were in the arena at one
time. -/
theorem size_runs_le {n : Nat} (operations : List Operation)
    (hlive : ∀ before, before <+: operations → (empty.runs before).live ≤ n) :
    (empty.runs operations).entries.size ≤ n := by
  induction operations using List.reverseRecOn with
  | nil => exact Nat.zero_le n
  | append_singleton operations op ih =>
    have hlast := hlive (operations ++ [op]) List.prefix_rfl
    have hbefore := ih fun before h => hlive before (h.trans (List.prefix_append _ _))
    rw [runs_append] at hlast ⊢
    exact (size_perform_le (isCounted_empty.runs isSound_empty operations)
      (isSound_empty.runs operations) op).trans (max_le hbefore hlast)

/-- The place of a handle that is given out is the same in a word of thirty-two bits. -/
theorem toNat_index_nextHandle (operations : List Operation) (o : ObjectId) (table : TableId)
    (hlive : ∀ before, before <+: operations ++ [.insert o table] →
      (empty.runs before).live ≤ 2 ^ 32) :
    (UInt32.ofNat (empty.runs operations).nextHandle.index).toNat =
      (empty.runs operations).nextHandle.index := by
  have hsound : (empty.runs operations).IsSound := isSound_empty.runs operations
  -- The next handle is that of an entry, so its place is below the number of entries.
  have hfound : ((empty.runs operations).insert o table).occupant?
      (empty.runs operations).nextHandle = some ⟨o, table⟩ := by
    rw [occupant?_insert hsound, if_pos rfl]
  obtain ⟨entry, hentry, -⟩ := occupant?_eq_some_iff.mp hfound
  have hplace := (Array.getElem?_eq_some_iff.mp hentry).1
  have hsize := size_runs_le _ hlive
  rw [runs_append] at hsize
  rw [UInt32.toNat_ofNat', Nat.mod_eq_of_lt (Nat.lt_of_lt_of_le hplace hsize)]

/-! ### Vacating -/

/-- The place is filled. -/
def IsFilled (a : InstanceArena) (i : Nat) : Prop :=
  ∃ entry, a.entries[i]? = some entry ∧ entry.occupant.isSome = true

/-- The generation of the entry at a place. -/
def generation? (a : InstanceArena) (i : Nat) : Option UInt32 := a.entries[i]?.map (·.generation)

/-- How often an operation vacates a place. -/
def vacates (a : InstanceArena) (i : Nat) : Operation → Nat
  | .insert .. => 0
  | .remove h => if h.index = i ∧ (a.occupant? h).isSome = true then 1 else 0

/-- How often some operations vacate a place. -/
def vacations (a : InstanceArena) (i : Nat) : List Operation → Nat
  | [] => 0
  | op :: rest => a.vacates i op + (a.perform op).vacations i rest

/-- A handle finds something exactly if its place is filled and has its generation. -/
theorem isSome_occupant?_iff :
    (a.occupant? h).isSome = true ↔
      a.IsFilled h.index ∧ a.generation? h.index = some h.generation := by
  unfold occupant? IsFilled generation?
  cases hentry : a.entries[h.index]? with
  | none => simp
  | some entry => by_cases hgen : entry.generation = h.generation <;> simp [hgen]

/-- One operation: the generation counts whether the place is vacated. -/
theorem generation?_perform (hg : a.generation? i = some g) (op : Operation) :
    (a.perform op).generation? i = some (g + UInt32.ofNat (a.vacates i op)) := by
  obtain ⟨entry, hentry, rfl⟩ := Option.map_eq_some_iff.mp hg
  obtain ⟨hi, -⟩ := Array.getElem?_eq_some_iff.mp hentry
  unfold generation?
  cases op with
  -- filling a place leaves its generation
  | insert o table =>
    simp only [perform, insert, vacates]
    cases a.free with
    | nil => simp [Array.getElem?_push, hentry, Nat.ne_of_lt hi]
    | cons place free =>
      by_cases hplace : place = i <;> simp [Array.getElem?_modify, hentry, hplace]
  | remove h =>
    simp only [perform, remove, vacates]
    -- only the removal that finds an occupant in the place moves its generation on
    by_cases hfound : (a.occupant? h).isSome = true
    · by_cases hplace : h.index = i <;> simp [Array.getElem?_modify, hentry, hfound, hplace]
    · simp [hentry, hfound]

/-- **A generation is the number of vacations**, wrapping around. -/
theorem generation?_runs (hg : a.generation? i = some g) (operations : List Operation) :
    (a.runs operations).generation? i = some (g + UInt32.ofNat (a.vacations i operations)) := by
  induction operations generalizing a g with
  | nil =>
    rw [vacations, show UInt32.ofNat 0 = 0 from rfl, UInt32.add_zero]
    exact hg
  | cons op rest ih =>
    rw [vacations, UInt32.ofNat_add, ← UInt32.add_assoc]
    exact ih (generation?_perform hg op)

theorem ofNat_eq_zero_iff {n : Nat} : UInt32.ofNat n = 0 ↔ 2 ^ 32 ∣ n := by
  rw [← UInt32.toNat_inj, UInt32.toNat_ofNat', Nat.dvd_iff_mod_eq_zero]
  rfl

/-- A handle that found something once does so again exactly if its place is filled and has been
vacated a multiple of `2 ^ 32` times. -/
theorem isSome_occupant?_runs_iff (hx : (a.occupant? h).isSome = true)
    (operations : List Operation) :
    ((a.runs operations).occupant? h).isSome = true ↔
      (a.runs operations).IsFilled h.index ∧ 2 ^ 32 ∣ a.vacations h.index operations := by
  obtain ⟨-, hgen⟩ := isSome_occupant?_iff.mp hx
  rw [isSome_occupant?_iff, generation?_runs hgen, Option.some.injEq, ← ofNat_eq_zero_iff]
  exact and_congr_right fun _ => UInt32.add_eq_left

theorem remove_eq_self_iff : a.remove h = a ↔ a.occupant? h = none := by
  refine ⟨fun heq => ?_, fun hnone => ?_⟩
  · rw [← heq, occupant?_remove, if_pos rfl]
  · rw [remove, hnone]
    rfl

theorem resolve?_eq_none_iff : (∀ o, a.resolve? h o = none) ↔ a.occupant? h = none := by
  refine ⟨fun hnone => ?_, fun hnone o => ?_⟩
  · cases hx : a.occupant? h with
    | none => rfl
    | some x =>
      have hfound : a.resolve? h x.inst = some x.table := resolve?_eq_some_iff.mpr hx
      rw [hnone] at hfound
      cases hfound
  · rw [resolve?, hnone]

/-- The places of the free list are those that are not filled. -/
theorem IsSound.mem_free_iff (ha : a.IsSound) :
    i ∈ a.free ↔ i < a.entries.size ∧ ¬a.IsFilled i := by
  rw [ha.vacant]
  unfold IsFilled
  cases hentry : a.entries[i]? with
  | none => simp [Array.getElem?_eq_none_iff.mp hentry]
  | some entry => simp [(Array.getElem?_eq_some_iff.mp hentry).1]

/-- Removing what a handle finds vacates its place. -/
theorem vacations_remove (hx : a.occupant? h = some x) (rest : List Operation) :
    a.vacations h.index (.remove h :: rest) = (a.remove h).vacations h.index rest + 1 := by
  rw [vacations, vacates, hx, if_pos ⟨rfl, rfl⟩, Nat.add_comm]
  rfl

/-- **The handles of an arena.** After any operations on an arena that was empty at first, the
number it keeps is that of its filled entries, and the free list holds every vacant place once and
no filled one. Until it is removed, a handle that is given out finds its own table for its own
instance and nothing for any other. After that, whatever is done, it finds nothing and removing it
again does nothing, unless its place is filled and has been vacated a multiple of `2 ^ 32` times
since it was given out. -/
theorem handles_exact (before : List Operation) :
    let a := empty.runs before
    a.live = a.entries.toList.countP (fun entry => entry.occupant.isSome) ∧
      a.free.Nodup ∧ (∀ i, i ∈ a.free ↔ i < a.entries.size ∧ ¬a.IsFilled i) ∧
      ∀ (o : ObjectId) (table : TableId) (held : List Operation), .remove a.nextHandle ∉ held →
        let h := a.nextHandle
        let b := (a.insert o table).runs held
        (∀ o', b.resolve? h o' = if o' = o then some table else none) ∧
          ∀ rest : List Operation,
            let c := b.runs (.remove h :: rest)
            (∀ o', c.resolve? h o' = none) ∧ c.remove h = c ↔
              ¬(c.IsFilled h.index ∧ 2 ^ 32 ∣ (b.remove h).vacations h.index rest + 1) := by
  intro a
  have ha : a.IsSound := isSound_empty.runs before
  refine ⟨isCounted_iff.mp (isCounted_empty.runs isSound_empty before), ha.nodup,
    fun i => ha.mem_free_iff, ?_⟩
  intro o table held hheld h b
  have hinsert : (a.insert o table).occupant? h = some ⟨o, table⟩ := by
    rw [occupant?_insert ha, if_pos rfl]
  -- the handle is found as long as it is held: only its own removal takes it away
  have hb : b.occupant? h = some ⟨o, table⟩ := occupant?_runs (ha.insert o table) hinsert hheld
  refine ⟨fun o' => ?_, ?_⟩
  · rw [resolve?, hb]
    exact if_congr eq_comm rfl rfl
  · intro rest c
    -- after that it is found again only when the place has gone through all generations
    have hc := isSome_occupant?_runs_iff (Option.isSome_of_eq_some hb) (.remove h :: rest)
    rw [vacations_remove hb] at hc
    rw [resolve?_eq_none_iff, remove_eq_self_iff, and_self, ← hc]
    exact Option.not_isSome_iff_eq_none.symm

/-- The first place is used again, twice. The handle given out in between finds its own table at
first, and nothing when the place has been filled once more. -/
theorem handles_exact_reused :
    let a := empty.runs [.insert ⟨0⟩ ⟨0⟩, .remove ⟨0, 0⟩]
    let b := (a.insert ⟨1⟩ ⟨1⟩).runs [.insert ⟨2⟩ ⟨2⟩]
    let c := b.runs [.remove a.nextHandle, .insert ⟨3⟩ ⟨3⟩]
    b.resolve? a.nextHandle ⟨1⟩ = some ⟨1⟩ ∧ c.IsFilled 0 ∧
      (∀ o, c.resolve? a.nextHandle o = none) ∧ c.remove a.nextHandle = c := by
  intro a b c
  have hfilled : c.IsFilled 0 := ⟨⟨2, some ⟨⟨3⟩, ⟨3⟩⟩⟩, rfl, rfl⟩
  obtain ⟨-, -, -, hhandles⟩ := handles_exact [.insert ⟨0⟩ ⟨0⟩, .remove ⟨0, 0⟩]
  obtain ⟨hheld, hremoved⟩ := hhandles ⟨1⟩ ⟨1⟩ [.insert ⟨2⟩ ⟨2⟩] (by decide)
  refine ⟨hheld ⟨1⟩, hfilled, (hremoved [.insert ⟨3⟩ ⟨3⟩]).mpr ?_⟩
  -- the place has been vacated once, not a multiple of all generations
  rintro ⟨-, hdvd⟩
  exact absurd hdvd (by decide)

/-! ### A handle that is valid again -/

/-- A single place is vacant. -/
def vacantPlace (g : UInt32) : InstanceArena := ⟨#[⟨g, none⟩], [0], 0⟩

/-- The place is filled and vacated again, `n` times. -/
def reuses (n : Nat) : List Operation :=
  (List.range n).flatMap fun k => [.insert ⟨1⟩ ⟨1⟩, .remove ⟨0, UInt32.ofNat (k + 1)⟩]

theorem runs_reuses (n : Nat) :
    (vacantPlace 1).runs (reuses n) = vacantPlace (UInt32.ofNat (n + 1)) := by
  induction n with
  | zero => rfl
  | succ n ih =>
    have hreuse : reuses (n + 1) =
        reuses n ++ [.insert ⟨1⟩ ⟨1⟩, .remove ⟨0, UInt32.ofNat (n + 1)⟩] := by
      simp [reuses, List.range_succ]
    rw [hreuse, runs_append, ih, UInt32.ofNat_add (n + 1)]
    simp [runs, perform, vacantPlace, insert, remove, occupant?]

theorem runs_wrapped {n : Nat} (hn : 2 ^ 32 ∣ n + 1) :
    (vacantPlace 1).runs (reuses n ++ [.insert ⟨1⟩ ⟨1⟩]) = (vacantPlace 0).insert ⟨1⟩ ⟨1⟩ := by
  rw [runs_append, runs_reuses, ofNat_eq_zero_iff.mpr hn]
  rfl

/-- The first handle is removed, and its place is vacated `2 ^ 32 - 1` times more. Then it finds the
table of another instance, and removing it takes that one out. -/
theorem stale_handle_wrapped :
    let h := empty.nextHandle
    let c := (empty.insert ⟨0⟩ ⟨0⟩).runs
      (.remove h :: (reuses (2 ^ 32 - 1) ++ [.insert ⟨1⟩ ⟨1⟩]))
    c.resolve? h ⟨1⟩ = some ⟨1⟩ ∧ c.remove h ≠ c := by
  intro h c
  have hfirst : (empty.insert ⟨0⟩ ⟨0⟩).perform (.remove h) = vacantPlace 1 := rfl
  -- with the first removal the place is vacated `2 ^ 32` times, which is once around
  have hdvd : 2 ^ 32 ∣ 2 ^ 32 - 1 + 1 := dvd_refl _
  have hwrapped : c = (vacantPlace 0).insert ⟨1⟩ ⟨1⟩ :=
    (runs_cons _ _ _).trans (by rw [hfirst, runs_wrapped hdvd])
  have hfound : c.occupant? h = some ⟨⟨1⟩, ⟨1⟩⟩ := by
    rw [hwrapped]
    rfl
  refine ⟨resolve?_eq_some_iff.mpr hfound, fun heq => ?_⟩
  rw [remove_eq_self_iff.mp heq] at hfound
  cases hfound

end Enclave.InstanceArena
