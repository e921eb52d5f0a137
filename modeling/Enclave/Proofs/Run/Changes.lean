import Enclave.Proofs.Run.Sound

/-!
# Changes of the world

Every operation on the world that a run makes use of is a `World.Change`, as long as it is given
things that are known and values that are admitted. Most of them are only a `World.Alters`: what
else there is, is to mint a token, to add a class and to register an object.
-/

namespace Enclave

variable {gone : Node → Prop}

/-! ### What is stored -/

/-- What is found under a key is an entry. -/
theorem Association.mem_of_get? {α β : Type} [DecidableEq α] {key : α} {value : β} :
    ∀ {entries : List (α × β)}, Association.get? key entries = some value → (key, value) ∈ entries
  | [], h => nomatch h
  | (k, v) :: rest, h => by
    rw [get?_cons] at h
    split at h
    · next heq =>
      cases h
      rw [heq]
      exact List.mem_cons_self
    · exact List.mem_cons_of_mem _ (mem_of_get? h)

/-- What a table has under a key is one of its values. -/
theorem SlotTable.mem_values_of_get? {t : SlotTable} {key : PropertyKey} {v : Value}
    (h : t.get? key = some v) : v ∈ t.values :=
  List.mem_map.mpr ⟨_, Association.mem_of_get? h, rfl⟩

/-- What a scope binds a name to is one of its values. -/
theorem Scope.mem_values_of_find? {s : Scope} {name : String} {x : Variable}
    (h : s.find? name = some x) : x.value ∈ s.bound.map (·.2.value) :=
  List.mem_map.mpr ⟨_, Association.mem_of_get? h, rfl⟩

/-- Putting a value adds no other. -/
theorem Association.mem_put {α β : Type} [DecidableEq α] {key : α} {value : β}
    {entries : List (α × β)} {x : α × β} (h : x ∈ Association.put key value entries) :
    x ∈ entries ∨ x.2 = value := by
  -- the entry of the key is replaced where it stands, or put behind the others
  induction entries with
  | nil =>
    obtain rfl := List.mem_singleton.mp h
    exact Or.inr rfl
  | cons entry entries ih =>
    rw [put_cons] at h
    split at h
    · rcases List.mem_cons.mp h with rfl | hmem
      · exact Or.inr rfl
      · exact Or.inl (List.mem_cons_of_mem _ hmem)
    · rcases List.mem_cons.mp h with rfl | hmem
      · exact Or.inl List.mem_cons_self
      · exact (ih hmem).imp_left (List.mem_cons_of_mem _)

/-- Setting a slot adds no other value. -/
theorem SlotTable.mem_values_set {t : SlotTable} {key : PropertyKey} {v x : Value}
    (h : x ∈ (t.set key v).values) : x ∈ t.values ∨ x = v := by
  obtain ⟨entry, hmem, rfl⟩ := List.mem_map.mp h
  exact (Association.mem_put hmem).imp_left fun hold => List.mem_map_of_mem hold

/-- Deleting a slot adds no value. -/
theorem SlotTable.mem_values_delete {t : SlotTable} {key : PropertyKey} {x : Value}
    (h : x ∈ (t.delete key).values) : x ∈ t.values := by
  obtain ⟨entry, hmem, rfl⟩ := List.mem_map.mp h
  exact List.mem_map_of_mem (List.mem_of_mem_filter hmem)

namespace World

variable {w w' : World}

/-! ### Alterations -/

/-- A change that neither registers an object nor makes a token or a class. -/
structure Alters (gone : Node → Prop) (w w' : World) : Prop extends Change gone w w' where
  registrations : w.SameRegistrations w'
  sameClasses : w'.classes = w.classes

section Same

variable (hs : w.Sound gone) (hsame : w.SameRegistrations w')

include hs hsame

/-- What has to be shown of an alteration that makes no function either. -/
theorem alters_of_same (hfunctions : w'.functions = w.functions) (hclasses : w'.classes = w.classes)
    (hhas : ∀ n, w.Has n → w'.Has n) (hfixed : ∀ n, w.Has n → w'.fixed n = w.fixed n)
    (hnew : ∀ n, w'.Has n → ¬w.Has n → ∀ m ∈ w'.fixed n, w.Knows gone m)
    (hstored : ∀ n, w'.Has n → ∀ v ∈ w'.stored n,
      (w.Has n ∧ v ∈ w.stored n) ∨ (¬gone n ∧ w.Admits gone v)) : Alters gone w w' := by
  have hgrows : w.Grows w' :=
    { has := hhas
      functions := fun i _ => by rw [hfunctions]
      classes := fun i _ => by rw [hclasses]
      site := fun t _ => by rw [hsame.tokenAt]
      name := fun t _ => by rw [hsame.tokenAt]
      statics := fun t _ => by rw [hsame.tokenAt]
      fixed := hfixed }
  refine
    { grows := hgrows
      lookups := fun t o _ h => (hsame.lookupInstance? t o).trans h
      registry := hsame.isRegistry hs.registry
      owned := ?owned
      fixed := hnew
      stored := ?stored
      functions := ?functions
      classes := ?classes
      tokens := ?tokens
      registrations := hsame
      sameClasses := hclasses }
  -- no registration is new, so every table owned was owned before
  case owned =>
    intro owner table h
    rw [hsame.ownedTable?] at h
    exact Or.inl h
  case stored =>
    intro n hn v hv
    exact (hstored n hn v hv).imp_right fun ⟨hnot, hadmits⟩ =>
      ⟨hnot, hadmits.grows hs.tokens hgrows⟩
  -- neither a function nor a class is new
  case functions =>
    intro i hi hi'
    rw [hfunctions] at hi'
    omega
  case classes =>
    intro i hi hi'
    rw [hclasses] at hi'
    omega
  case tokens =>
    rw [hclasses, hsame.tokens]
    exact hs.tokens

end Same

variable (hs : w.Sound gone)

include hs

/-- A new object. -/
theorem alters_newObject {proto : Option ObjectId}
    (hproto : ∀ p ∈ proto, w.Knows gone (.object p)) : Alters gone w (w.newObject proto).2 := by
  have hsize : (w.newObject proto).2.objects.size = w.objects.size + 1 := Array.size_push _
  refine alters_of_same hs (sameRegistrations_newObject w proto) rfl rfl ?has ?fixed ?new ?stored
  case has =>
    intro n hn
    cases n with
    | object o => exact Nat.lt_of_lt_of_eq (Nat.lt_succ_of_lt hn) hsize.symm
    | _ => exact hn
  case fixed =>
    intro n hn
    cases n with
    | object o =>
      replace hn : o.index < w.objects.size := hn
      -- an object that was there is not the newest
      rw [fixed, objectAt_newObject, if_neg (by omega), fixed]
    | _ => rfl
  case new =>
    intro n hn hold m hm
    -- a new object holds its prototype, which is known
    cases n with
    | object o =>
      replace hold : ¬o.index < w.objects.size := hold
      replace hn : o.index < (w.newObject proto).2.objects.size := hn
      rw [fixed, objectAt_newObject, if_pos (by omega)] at hm
      obtain ⟨p, hp, rfl⟩ : ∃ p, proto = some p ∧ .object p = m := by simpa using hm
      exact hproto p hp
    | _ => exact absurd hn hold
  -- the newest object stores nothing yet
  case stored =>
    intro n hn v hv
    cases n with
    | object o =>
      rw [stored, objectAt_newObject] at hv
      split at hv
      · cases hv
      · next hold =>
        replace hn : o.index < (w.newObject proto).2.objects.size := hn
        refine Or.inl ⟨?_, hv⟩
        change o.index < w.objects.size
        omega
    | _ => exact Or.inl ⟨hn, hv⟩

/-- Changing the properties of an object. -/
theorem alters_properties {o : ObjectId} {f : SlotTable → SlotTable} (ho : ¬gone (.object o))
    (hf : ∀ t, ∀ v ∈ (f t).values, v ∈ t.values ∨ w.Admits gone v) :
    Alters gone w
      (w.updateObject o fun object => { object with properties := f object.properties }) := by
  have hsame := sameRegistrations_updateObject w o
    (f := fun object => { object with properties := f object.properties }) fun _ => rfl
  refine alters_of_same hs hsame rfl rfl ?has ?fixed ?new ?stored
  -- no object is made or taken away
  case has =>
    intro n hn
    cases n with
    | object o' => exact Nat.lt_of_lt_of_eq hn (size_updateObject w o _).symm
    | _ => exact hn
  -- prototypes stay, so what objects are made with stays
  case fixed =>
    intro n hn
    cases n with
    | object o' =>
      rw [fixed, objectAt_updateObject, fixed]
      split <;> rfl
    | _ => rfl
  case new =>
    intro n hn hold m hm
    cases n with
    | object o' =>
      refine absurd ?_ hold
      change o'.index < (w.updateObject o _).objects.size at hn
      rwa [size_updateObject] at hn
    | _ => exact absurd hn hold
  case stored =>
    intro n hn v hv
    -- what is new in the object is admitted, and the object is not gone
    cases n with
    | object o' =>
      change o'.index < (w.updateObject o _).objects.size at hn
      rw [size_updateObject] at hn
      rw [stored, objectAt_updateObject] at hv
      split at hv
      · next heq =>
        obtain ⟨rfl, -⟩ := heq
        exact (hf _ v hv).imp (fun hold => ⟨hn, hold⟩) fun hadmits => ⟨ho, hadmits⟩
      · exact Or.inl ⟨hn, hv⟩
    | _ => exact Or.inl ⟨hn, hv⟩

/-- Setting a property of a known object alters the world. -/
theorem alters_setProperty {o : ObjectId} (ho : ¬gone (.object o)) (key : PropertyKey) {v : Value}
    (hv : w.Admits gone v) : Alters gone w (w.setProperty o key v) :=
  alters_properties hs ho fun _ x hx =>
    (SlotTable.mem_values_set hx).imp_right fun h : x = v => h ▸ hv

/-- Deleting a property of a known object alters the world. -/
theorem alters_deleteProperty {o : ObjectId} (ho : ¬gone (.object o)) (key : PropertyKey) :
    Alters gone w (w.deleteProperty o key) :=
  alters_properties hs ho fun _ _ hx => Or.inl (SlotTable.mem_values_delete hx)

/-- Changing what a table holds. -/
theorem alters_table {t : TableId} {f : SlotTable → SlotTable} (ht : ¬gone (.table t))
    (hf : ∀ t, ∀ v ∈ (f t).values, v ∈ t.values ∨ w.Admits gone v) :
    Alters gone w { w with tables := w.tables.modify t.index f } := by
  refine alters_of_same hs (sameRegistrations_tables w t f) rfl rfl ?has ?fixed ?new ?stored
  case has =>
    intro n hn
    cases n with
    | table t' => exact Nat.lt_of_lt_of_eq hn Array.size_modify.symm
    | _ => exact hn
  case fixed =>
    intro n hn
    cases n <;> rfl
  -- no node is new: a table modified is one that was there
  case new =>
    intro n hn hold m hm
    cases n <;> first | exact absurd hn hold | cases hm
  -- what the table modified holds, it held before, or is admitted
  case stored =>
    intro n hn v hv
    cases n with
    | table t' =>
      replace hn : t'.index < (w.tables.modify t.index f).size := hn
      rw [Array.size_modify] at hn
      rw [stored, tableAt_modify] at hv
      split at hv
      · next heq =>
        obtain ⟨rfl, -⟩ := heq
        exact (hf _ v hv).imp (fun hold => ⟨hn, hold⟩) fun hadmits => ⟨ht, hadmits⟩
      · exact Or.inl ⟨hn, hv⟩
    | _ => exact Or.inl ⟨hn, hv⟩

/-- Setting a slot of a known table alters the world. -/
theorem alters_setSlot {t : TableId} (ht : ¬gone (.table t)) (key : PropertyKey) {v : Value}
    (hv : w.Admits gone v) : Alters gone w (w.setSlot t key v) :=
  alters_table hs ht fun _ x hx => (SlotTable.mem_values_set hx).imp_right fun h : x = v => h ▸ hv

/-- Deleting a slot of a known table alters the world. -/
theorem alters_deleteSlot {t : TableId} (ht : ¬gone (.table t)) (key : PropertyKey) :
    Alters gone w (w.deleteSlot t key) :=
  alters_table hs ht fun _ _ hx => Or.inl (SlotTable.mem_values_delete hx)

/-! ### Functions, scopes and symbols -/

/-- A new function that fits. -/
theorem alters_newFunction (name : String) {f : Function} (hf : f.Fits w)
    (hholds : ∀ m ∈ f.holds, w.Knows gone m) : Alters gone w (w.newFunction name f).2 := by
  have hsize : (w.newFunction name f).2.functions.size = w.functions.size + 1 := Array.size_push _
  -- the new function is the last one, and the others stay where they were
  have hget : ∀ i, (w.newFunction name f).2.functions.getD i default =
      if i = w.functions.size then f else w.functions.getD i default := fun i => getD_push _ _ _ _
  have hsame : w.SameRegistrations (w.newFunction name f).2 := ⟨rfl, fun _ => rfl, Nat.le_refl _⟩
  have hgrows : w.Grows (w.newFunction name f).2 :=
    { Grows.refl w with
      has := fun n hn => by
        cases n with
        | function i => exact Nat.lt_of_lt_of_eq (Nat.lt_succ_of_lt hn) hsize.symm
        | _ => exact hn
      functions := fun i hi => by rw [hget, if_neg (by omega)]
      fixed := fun n hn => by
        cases n with
        | function i =>
          replace hn : i < w.functions.size := hn
          rw [fixed, hget, if_neg (by omega), fixed]
        | _ => rfl }
  refine
    { grows := hgrows
      lookups := fun _ _ _ h => h
      registry := hsame.isRegistry hs.registry
      owned := fun owner table h => Or.inl h
      fixed := ?fixed
      stored := ?stored
      functions := ?functions
      classes := ?classes
      tokens := hs.tokens
      registrations := hsame
      sameClasses := rfl }
  -- the only new node is that function, and what it holds is known
  case fixed =>
    intro n hn hold m hm
    cases n with
    | function i =>
      replace hold : ¬i < w.functions.size := hold
      replace hn : i < (w.newFunction name f).2.functions.size := hn
      rw [fixed, hget, if_pos (by omega)] at hm
      exact hholds m hm
    | _ => exact absurd hn hold
  case stored =>
    intro n hn v hv
    cases n with
    | function i => cases hv
    | _ => exact Or.inl ⟨hn, hv⟩
  case functions =>
    intro i hi hi'
    rw [hget, if_pos (by omega)]
    exact hf.grows hs.tokens hgrows
  -- no class has been added
  case classes =>
    intro i hi hi'
    exact absurd hi' (Nat.not_lt_of_le hi)

/-- A new scope. -/
theorem alters_childScope {parent : ScopeId} (hparent : w.Knows gone (.scope parent)) :
    Alters gone w (w.childScope parent).2 := by
  have hsize : (w.childScope parent).2.scopes.all.size = w.scopes.all.size + 1 := Array.size_push _
  have hget : ∀ s, (w.childScope parent).2.scopes.scopeAt s =
      if s.index = w.scopes.all.size then ⟨[], some parent⟩ else w.scopes.scopeAt s :=
    fun s => getD_push _ _ _ _
  have hsame : w.SameRegistrations (w.childScope parent).2 := ⟨rfl, fun _ => rfl, Nat.le_refl _⟩
  refine alters_of_same hs hsame rfl rfl ?has ?fixed ?new ?stored
  case has =>
    intro n hn
    cases n with
    | scope s => exact Nat.lt_of_lt_of_eq (Nat.lt_succ_of_lt hn) hsize.symm
    | _ => exact hn
  case fixed =>
    intro n hn
    cases n with
    | scope s =>
      replace hn : s.index < w.scopes.all.size := hn
      rw [fixed, hget, if_neg (by omega), fixed]
    | _ => rfl
  case new =>
    intro n hn hold m hm
    -- a new scope holds the scope around it, which is known
    cases n with
    | scope s =>
      replace hold : ¬s.index < w.scopes.all.size := hold
      replace hn : s.index < (w.childScope parent).2.scopes.all.size := hn
      rw [fixed, hget, if_pos (by omega)] at hm
      obtain rfl : m = .scope parent := by simpa using hm
      exact hparent
    | _ => exact absurd hn hold
  -- a new scope binds nothing yet
  case stored =>
    intro n hn v hv
    cases n with
    | scope s =>
      rw [stored, hget] at hv
      split at hv
      · cases hv
      · next hold =>
        replace hn : s.index < (w.childScope parent).2.scopes.all.size := hn
        refine Or.inl ⟨?_, hv⟩
        change s.index < w.scopes.all.size
        omega
    | _ => exact Or.inl ⟨hn, hv⟩

/-- Binding a name in a scope. -/
theorem alters_declare {s : ScopeId} (hscope : ¬gone (.scope s)) (name : String) {v : Value}
    (hv : w.Admits gone v) (isMutable : Bool) : Alters gone w (w.declare s name v isMutable) := by
  have hsize : (w.declare s name v isMutable).scopes.all.size = w.scopes.all.size :=
    Array.size_modify
  -- one scope has the name put in it, and the others are as they were
  have hget : ∀ s', (w.declare s name v isMutable).scopes.scopeAt s' =
      if s.index = s'.index ∧ s'.index < w.scopes.all.size then
        (w.scopes.scopeAt s').put name ⟨v, isMutable⟩
      else w.scopes.scopeAt s' := fun s' => getD_modify _ _ _ _ _
  have hsame : w.SameRegistrations (w.declare s name v isMutable) :=
    ⟨rfl, fun _ => rfl, Nat.le_refl _⟩
  refine alters_of_same hs hsame rfl rfl ?has ?fixed ?new ?stored
  case has =>
    intro n hn
    cases n with
    | scope s' => exact Nat.lt_of_lt_of_eq hn hsize.symm
    | _ => exact hn
  -- the parent of a scope does not change with what is bound in it
  case fixed =>
    intro n hn
    cases n with
    | scope s' =>
      rw [fixed, hget, fixed]
      split <;> rfl
    | _ => rfl
  case new =>
    intro n hn hold m hm
    cases n with
    | scope s' => exact absurd (Nat.lt_of_lt_of_eq hn hsize) hold
    | _ => exact absurd hn hold
  case stored =>
    intro n hn x hx
    cases n with
    | scope s' =>
      rw [stored, hget] at hx
      split at hx
      · next heq =>
        obtain ⟨entry, hentry, rfl⟩ := List.mem_map.mp hx
        obtain rfl : s = s' := by
          cases s
          cases s'
          exact congrArg _ heq.1
        -- a value in that scope was there before, or is the one just put in it
        refine (Association.mem_put hentry).imp (fun hold => ?_) fun hnew => ?_
        · exact ⟨heq.2, List.mem_map_of_mem hold⟩
        · rw [hnew]
          exact ⟨hscope, hv⟩
      · exact Or.inl ⟨Nat.lt_of_lt_of_eq hn hsize, hx⟩
    | _ => exact Or.inl ⟨hn, hx⟩

/-- Making a symbol alters the world: it only counts. -/
theorem alters_newSymbol (description : Option String) :
    Alters gone w (w.newSymbol description).2 := by
  have hsame : w.SameRegistrations (w.newSymbol description).2 :=
    ⟨rfl, fun _ => rfl, Nat.le_refl _⟩
  refine alters_of_same hs hsame rfl rfl ?has ?fixed ?new fun n hn v hv => Or.inl ⟨?there, ?kept⟩
  -- A symbol is no node, so each question about nodes is the same before and after.
  case has =>
    intro n hn
    cases n <;> exact hn
  case fixed =>
    intro n _
    cases n <;> rfl
  case new =>
    intro n hn hold m hm
    cases n <;> exact absurd hn hold
  case there =>
    cases n <;> exact hn
  case kept =>
    cases n <;> exact hv

/-! ### Classes -/

/-- A class for the last token that was minted. -/
theorem change_addClass {d : Class} (hlt : w.classes.size < w.tokens.size)
    (hd : d.Fits w w.classes.size) (hholds : ∀ m ∈ d.holds, w.Knows gone m) :
    Change gone w (w.addClass d) := by
  have hsize : (w.addClass d).classes.size = w.classes.size + 1 := Array.size_push _
  -- the new class is the last one, and the others stay where they were
  have hget : ∀ i, (w.addClass d).classes.getD i default =
      if i = w.classes.size then d else w.classes.getD i default := fun i => getD_push _ _ _ _
  have hsame : w.SameRegistrations (w.addClass d) := ⟨rfl, fun _ => rfl, Nat.le_refl _⟩
  have hgrows : w.Grows (w.addClass d) :=
    { Grows.refl w with
      has := fun n hn => by
        cases n with
        | «class» i => exact Nat.lt_of_lt_of_eq (Nat.lt_succ_of_lt hn) hsize.symm
        | _ => exact hn
      classes := fun i hi => by rw [hget, if_neg (by omega)]
      fixed := fun n hn => by
        cases n with
        | «class» i =>
          replace hn : i < w.classes.size := hn
          rw [fixed, hget, if_neg (by omega), fixed]
        | _ => rfl }
  refine
    { grows := hgrows
      lookups := fun _ _ _ h => h
      registry := hsame.isRegistry hs.registry
      owned := fun owner table h => Or.inl h
      fixed := ?fixed
      stored := ?stored
      functions := ?functions
      classes := ?classes
      tokens := ?tokens }
  -- the only new node is that class, and what it holds is known
  case fixed =>
    intro n hn hold m hm
    cases n with
    | «class» i =>
      replace hold : ¬i < w.classes.size := hold
      replace hn : i < (w.addClass d).classes.size := hn
      rw [fixed, hget, if_pos (by omega)] at hm
      exact hholds m hm
    | _ => exact absurd hn hold
  case stored =>
    intro n hn v hv
    cases n with
    | «class» i => cases hv
    | _ => exact Or.inl ⟨hn, hv⟩
  case functions =>
    intro i hi hi'
    exact absurd hi' (Nat.not_lt_of_le hi)
  case classes =>
    intro i hi hi'
    obtain rfl : i = w.classes.size := by omega
    rw [hget, if_pos rfl]
    exact hd.grows hs.tokens hgrows hlt
  -- a token had been minted for the class before it was added
  case tokens =>
    rw [hsize]
    exact hlt

/-! ### Tokens and registration -/

omit hs in
/-- A new table stores nothing. -/
theorem stored_newTable (htables : w'.tables = w.tables.push .empty) {t : TableId} {v : Value}
    (ht : w'.Has (.table t)) (hv : v ∈ w'.stored (.table t)) :
    w.Has (.table t) ∧ v ∈ w.stored (.table t) := by
  have hsize : w'.tables.size = w.tables.size + 1 := by rw [htables, Array.size_push]
  have hget : w'.tableAt t = if t.index = w.tables.size then .empty else w.tableAt t := by
    rw [tableAt, htables]
    exact getD_push _ _ _ _
  rw [stored, hget] at hv
  -- nothing is stored in the new table
  split at hv
  · cases hv
  · next hold =>
    replace ht : t.index < w'.tables.size := ht
    refine ⟨?_, hv⟩
    change t.index < w.tables.size
    omega

/-- A new token with a table of its own. -/
theorem change_mintToken (site : ClassSite) (name : String) :
    Change gone w (w.mintToken site name).2 := by
  have htokens : (w.mintToken site name).2.tokens.size = w.tokens.size + 1 := Array.size_push _
  have htables : (w.mintToken site name).2.tables.size = w.tables.size + 1 := Array.size_push _
  -- Tokens that were there stay as they are.
  have hold : ∀ t : TokenId, t.index < w.tokens.size →
      (w.mintToken site name).2.tokenAt t = w.tokenAt t := fun t ht => by
    rw [tokenAt_mintToken, if_neg (by omega)]
  have hgrows : w.Grows (w.mintToken site name).2 :=
    { Grows.refl w with
      has := fun n hn => by
        cases n with
        | token t => exact Nat.lt_of_lt_of_eq (Nat.lt_succ_of_lt hn) htokens.symm
        | table t => exact Nat.lt_of_lt_of_eq (Nat.lt_succ_of_lt hn) htables.symm
        | _ => exact hn
      site := fun t ht => by rw [hold t ht]
      name := fun t ht => by rw [hold t ht]
      statics := fun t ht => by rw [hold t ht]
      fixed := fun n _ => by cases n <;> rfl }
  refine
    { grows := hgrows
      lookups := fun t o _ h => (lookupInstance?_mintToken w site name t o).trans h
      registry := hs.registry.mintToken site name
      owned := ?owned
      fixed := ?fixed
      stored := ?stored
      functions := ?functions
      classes := ?classes
      tokens := ?tokens }
  case owned =>
    intro owner table h
    -- the token owns the table that is new
    rw [ownedTable?_mintToken] at h
    split at h
    · cases h
      exact Or.inr (Nat.lt_irrefl w.tables.size)
    · exact Or.inl h
  case fixed =>
    intro n hn hnew m hm
    -- neither the token nor its table was made from anything
    cases n with
    | token t => cases hm
    | table t => cases hm
    | _ => exact absurd hn hnew
  case stored =>
    intro n hn v hv
    cases n with
    | token t => cases hv
    | table t => exact Or.inl (stored_newTable rfl hn hv)
    | _ => exact Or.inl ⟨hn, hv⟩
  -- no function has been added
  case functions =>
    intro i hi hi'
    exact absurd hi' (Nat.not_lt_of_le hi)
  case classes =>
    intro i hi hi'
    exact absurd hi' (Nat.not_lt_of_le hi)
  case tokens =>
    rw [htokens]
    exact Nat.le_succ_of_le hs.tokens

section Register

variable {t : TokenId} {o : ObjectId}

omit hs in
/-- Registering fixes nothing anew. -/
theorem fixed_registerInstance (n : Node) : (w.registerInstance t o).2.fixed n = w.fixed n := by
  cases n with
  | object o' => rw [fixed, proto_registerInstance, fixed]
  | function i => rw [fixed, functions_registerInstance, fixed]
  | «class» i => rw [fixed, classes_registerInstance, fixed]
  | scope s => rw [fixed, scopes_registerInstance, fixed]
  | token t' => rfl
  | table t' => rfl

omit hs in
/-- There is one more table, and nothing else is new. -/
theorem has_registerInstance (hlookup : w.lookupInstance? t o = none) (n : Node) :
    (w.registerInstance t o).2.Has n ↔ w.Has n ∨ n = .table ⟨w.tables.size⟩ := by
  -- Registration makes a table and nothing else.
  cases n with
  | object o' => simp only [Has, objectCount_registerInstance, reduceCtorEq, or_false]
  | function i => simp only [Has, functions_registerInstance, reduceCtorEq, or_false]
  | «class» i => simp only [Has, classes_registerInstance, reduceCtorEq, or_false]
  | scope s => simp only [Has, scopes_registerInstance, reduceCtorEq, or_false]
  | token t' => simp only [Has, tokenCount_registerInstance, reduceCtorEq, or_false]
  | table t' =>
    obtain ⟨i⟩ := t'
    simp only [Has, tables_registerInstance hlookup, Array.size_push, Node.table.injEq,
      TableId.mk.injEq]
    omega

omit hs in
/-- What is stored anywhere was stored there before. -/
theorem stored_registerInstance (hlookup : w.lookupInstance? t o = none) {n : Node} {v : Value}
    (hn : (w.registerInstance t o).2.Has n) (hv : v ∈ (w.registerInstance t o).2.stored n) :
    w.Has n ∧ v ∈ w.stored n := by
  -- the new table is empty, and of the object only its brands have changed
  cases n with
  | object o' =>
    rw [stored, properties_registerInstance] at hv
    rw [Has, objectCount_registerInstance] at hn
    exact ⟨hn, hv⟩
  | scope s =>
    rw [stored, scopes_registerInstance] at hv
    rw [Has, scopes_registerInstance] at hn
    exact ⟨hn, hv⟩
  | table t' => exact stored_newTable (tables_registerInstance hlookup) hn hv
  | _ => cases hv

omit hs in
/-- Registering an object that has no table yet lets the world grow. -/
theorem grows_registerInstance (ht : w.Has (.token t)) (hlookup : w.lookupInstance? t o = none) :
    w.Grows (w.registerInstance t o).2 where
  has n hn := (has_registerInstance hlookup n).mpr (Or.inl hn)
  functions i _ := by rw [functions_registerInstance]
  classes i _ := by rw [classes_registerInstance]
  -- of a token, it is the arena alone that changes
  site t' _ := by rw [tokenAt_registerInstance ht hlookup]; split <;> simp_all
  name t' _ := by rw [tokenAt_registerInstance ht hlookup]; split <;> simp_all
  statics t' _ := by rw [tokenAt_registerInstance ht hlookup]; split <;> simp_all
  fixed n _ := fixed_registerInstance n

/-- Registering an object with a token. -/
theorem change_registerInstance (ht : w.Has (.token t)) (ho : w.Has (.object o)) :
    Change gone w (w.registerInstance t o).2 := by
  cases hlookup : w.lookupInstance? t o with
  | some table =>
    -- the object has its table, and nothing changes
    rw [registerInstance_of_some hlookup]
    exact (alters_of_same hs ⟨rfl, fun _ => rfl, Nat.le_refl _⟩ rfl rfl (fun _ hn => hn)
      (fun _ _ => rfl) (fun _ hn hnew => absurd hn hnew)
      fun _ hn _ hv => Or.inl ⟨hn, hv⟩).toChange
  | none =>
    refine
      { grows := grows_registerInstance ht hlookup
        lookups := ?lookups
        registry := hs.registry.registerInstance ht ho
        owned := ?owned
        fixed := ?fixed
        stored := fun n hn v hv => Or.inl (stored_registerInstance hlookup hn hv)
        functions := ?functions
        classes := ?classes
        tokens := ?tokens }
    -- a pair that has a table is not the one that gets it
    case lookups =>
      intro t' o' table h
      rw [lookupInstance?_registerInstance hs.registry ht ho, if_neg, h]
      rintro ⟨rfl, rfl⟩
      rw [hlookup] at h
      cases h
    case owned =>
      -- the table of the pair is new
      intro owner table h
      rw [ownedTable?_registerInstance hs.registry ht ho hlookup] at h
      split at h
      · cases h
        exact Or.inr (Nat.lt_irrefl w.tables.size)
      · exact Or.inl h
    case fixed =>
      intro n hn hnew m hm
      obtain hn | rfl := (has_registerInstance hlookup n).mp hn
      · exact absurd hn hnew
      · cases hm
    -- nothing else in the world is new
    case functions =>
      intro i hi hi'
      rw [functions_registerInstance] at hi'
      exact absurd hi' (Nat.not_lt_of_le hi)
    case classes =>
      intro i hi hi'
      rw [classes_registerInstance] at hi'
      exact absurd hi' (Nat.not_lt_of_le hi)
    case tokens =>
      rw [tokenCount_registerInstance, classes_registerInstance]
      exact hs.tokens

end Register

/-! ### What is new is known -/

/-- What is not there has not gone. -/
theorem Sound.not_gone_of_not_has {n : Node} (hn : ¬w.Has n) : ¬gone n :=
  fun hgone => hn (hs.goneMade n hgone)

/-- A new object is known. -/
theorem knows_newObject (proto : Option ObjectId) :
    (w.newObject proto).2.Knows gone (.object (w.newObject proto).1) := by
  refine ⟨?_, hs.not_gone_of_not_has (Nat.lt_irrefl w.objects.size)⟩
  exact Nat.lt_of_lt_of_eq (Nat.lt_succ_self _) (Array.size_push _).symm

/-- A new scope is known. -/
theorem knows_childScope (parent : ScopeId) :
    (w.childScope parent).2.Knows gone (.scope (w.childScope parent).1) := by
  refine ⟨?_, hs.not_gone_of_not_has (Nat.lt_irrefl w.scopes.all.size)⟩
  exact Nat.lt_of_lt_of_eq (Nat.lt_succ_self _) (Array.size_push _).symm

/-- A new function is known. -/
theorem knows_newFunction (name : String) (f : Function) :
    (w.newFunction name f).2.Knows gone (w.newFunction name f).1.node := by
  refine ⟨?_, hs.not_gone_of_not_has (Nat.lt_irrefl w.functions.size)⟩
  exact Nat.lt_of_lt_of_eq (Nat.lt_succ_self _) (Array.size_push _).symm

omit hs in
/-- A new function is found at its place. -/
theorem functionAt_newFunction (name : String) (f : Function) :
    (w.newFunction name f).2.functionAt (w.newFunction name f).1 = f :=
  (getD_push _ _ _ _).trans (if_pos rfl)

end World

end Enclave
