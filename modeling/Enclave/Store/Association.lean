/-!
# Lists of keys and values

A list of pairs in which each key stands for the value of its first pair. `put` overwrites a key in
its place or adds it at the end, `remove` takes it out, and neither disturbs the order of the other
keys.

The lemmas say what `get?` gives after either (`get?_put`, `get?_remove`) and which keys there are
in which order (`keys_put`, `keys_remove`).
-/

namespace Enclave.Association

variable {α β : Type} [DecidableEq α]

/-- The value of a key. -/
def get? (key : α) : List (α × β) → Option β
  | [] => none
  | (k, v) :: rest => if k = key then some v else get? key rest

/-- Replaces the value of a key, or puts the key at the end. -/
def put (key : α) (value : β) : List (α × β) → List (α × β)
  | [] => [(key, value)]
  | (k, v) :: rest => if k = key then (k, value) :: rest else (k, v) :: put key value rest

/-- Takes a key out. -/
def remove (key : α) (entries : List (α × β)) : List (α × β) := entries.filter (·.1 ≠ key)

@[simp] theorem get?_nil (key : α) : get? key ([] : List (α × β)) = none := rfl

theorem get?_cons (key k : α) (v : β) (rest : List (α × β)) :
    get? key ((k, v) :: rest) = if k = key then some v else get? key rest := rfl

theorem put_cons (key k : α) (value v : β) (rest : List (α × β)) :
    put key value ((k, v) :: rest) =
      if k = key then (k, value) :: rest else (k, v) :: put key value rest := rfl

/-- A key that was written has the new value, and all others have their old one. -/
theorem get?_put (key other : α) (value : β) (entries : List (α × β)) :
    get? other (put key value entries) =
      if key = other then some value else get? other entries := by
  induction entries with
  | nil => rfl
  | cons entry rest ih =>
    obtain ⟨k, v⟩ := entry
    rw [put_cons]
    -- At the key's own entry the value is replaced; elsewhere the search goes on.
    by_cases hk : k = key
    · subst hk
      by_cases h : k = other <;> simp [get?_cons, h]
    · rw [if_neg hk, get?_cons, get?_cons, ih]
      by_cases h : k = other
      · subst h
        rw [if_pos rfl, if_pos rfl, if_neg (Ne.symm hk)]
      · rw [if_neg h, if_neg h]

/-- A key that was taken out has no value, and all others have their old one. -/
theorem get?_remove (key other : α) (entries : List (α × β)) :
    get? other (remove key entries) = if key = other then none else get? other entries := by
  induction entries with
  | nil => simp [remove]
  | cons entry rest ih =>
    obtain ⟨k, v⟩ := entry
    rw [remove] at ih ⊢
    -- Entries of the key are left out; others keep their place.
    by_cases hk : k = key
    · subst hk
      rw [List.filter_cons_of_neg (by simp), ih, get?_cons]
      by_cases h : k = other <;> simp [h]
    · rw [List.filter_cons_of_pos (by simpa using hk), get?_cons, get?_cons, ih]
      by_cases h : k = other
      · subst h
        rw [if_pos rfl, if_pos rfl, if_neg (Ne.symm hk)]
      · rw [if_neg h, if_neg h]

/-- A key that is there stays in its place, a new one comes last. -/
theorem keys_put (key : α) (value : β) (entries : List (α × β)) :
    (put key value entries).map (·.1) =
      if key ∈ entries.map (·.1) then entries.map (·.1) else entries.map (·.1) ++ [key] := by
  induction entries with
  | nil => rfl
  | cons entry rest ih =>
    obtain ⟨k, v⟩ := entry
    rw [put_cons, List.map_cons]
    -- A key that is there keeps its place, and a new one goes last.
    by_cases hk : k = key
    · subst hk
      simp
    · rw [if_neg hk, List.map_cons, ih]
      by_cases hmem : key ∈ rest.map (·.1)
      · rw [if_pos hmem, if_pos (List.mem_cons_of_mem _ hmem)]
      · rw [if_neg hmem, if_neg (by simpa [Ne.symm hk] using hmem)]
        rfl

/-- Taking a key out leaves the order of the others as it is. -/
theorem keys_remove (key : α) (entries : List (α × β)) :
    (remove key entries).map (·.1) = (entries.map (·.1)).filter (· ≠ key) := by
  simp [remove, List.filter_map, Function.comp_def]

/-- A key has a value exactly if it is among the keys. -/
theorem isSome_get?_iff (key : α) (entries : List (α × β)) :
    (get? key entries).isSome ↔ key ∈ entries.map (·.1) := by
  induction entries with
  | nil => simp
  | cons entry rest ih =>
    obtain ⟨k, v⟩ := entry
    rw [get?_cons, List.map_cons, List.mem_cons, ← ih]
    by_cases h : k = key
    · simp [h]
    · simp [h, Ne.symm h]

end Enclave.Association
