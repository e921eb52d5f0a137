import Enclave.Proofs.Run.Reclaiming
import Enclave.Proofs.Run.Steps

/-!
# Tidy worlds

What a script is given it may pass on, call, or construct instances of. Constructors are never given
out: they are called by the construction of an instance and by nothing else. Here is what has to be
kept track of to see this.

* A value *may be passed* if the function or class that it refers to has been made, and it is not a
  constructor (`World.Passes`).
* A world is *tidy* if all values stored in it may be passed, functions were written in classes
  whose tokens have been minted, and classes are younger than their parents (`World.IsTidy`).
* A world *extends* another if it was made from it by adding things. Constructors of the classes
  that were added were made after the old functions (`World.Extends`), so whatever may be passed in
  the old world may still be passed in the new one (`World.Passes.extends`).

Nothing here depends on what has been reclaimed or on how a script was bound.
-/

namespace Enclave

namespace World

/-- A value that may be passed around. -/
def Passes (w : World) : Value → Prop
  | .function f => f.index < w.functions.size ∧
    ∀ c : ClassRef, ∀ g ∈ (w.classAt c).constructor, g.index ≠ f.index
  | .class c => c.index < w.classes.size
  | _ => True

/-- What a function was written in: the class of a token that has been minted, under the number of
the token. -/
structure IsHome (w : World) (h : Home) : Prop where
  minted : h.token.index < w.tokens.size
  classRef : h.classRef.index = h.token.index

/-- The class at a place. -/
structure IsClassAt (w : World) (place : ℕ) (d : Class) : Prop where
  token : d.token = ⟨place⟩
  parent : ∀ p ∈ d.parent, p.index < place
  constructor : ∀ g ∈ d.constructor, g.index < w.functions.size
  methods : ∀ m ∈ d.privateMethods, w.Passes (.function m.2)

/-- What holds of the world throughout. -/
structure IsTidy (w : World) : Prop where
  registry : w.IsRegistry
  stored : ∀ n, ∀ v ∈ w.stored n, w.Passes v
  homes : ∀ i c, w.functions.getD i default = .script c → ∀ h ∈ c.home, w.IsHome h
  classes : ∀ i < w.classes.size, w.IsClassAt i (w.classes.getD i default)
  tokens : w.classes.size ≤ w.tokens.size

/-- What was made later is added to what was there. -/
structure Extends (w w' : World) : Prop where
  objects : w.objects.size ≤ w'.objects.size
  functions : w.functions.size ≤ w'.functions.size
  tokens : w.tokens.size ≤ w'.tokens.size
  classCount : w.classes.size ≤ w'.classes.size
  classes : ∀ i < w.classes.size, w'.classes.getD i default = w.classes.getD i default
  /-- A class that was added has a constructor that was added. -/
  constructors : ∀ i, w.classes.size ≤ i → ∀ g ∈ (w'.classes.getD i default).constructor,
    w.functions.size ≤ g.index
  scripts : ∀ i c, w.functions.getD i default = .script c → w'.functions.getD i default = .script c
  owners : ∀ owner table, w.ownedTable? owner = some table → w'.ownedTable? owner = some table

variable {w w' w'' : World}

/-! ### Extensions -/

/-- Every world extends itself. -/
theorem Extends.refl (w : World) : w.Extends w where
  objects := Nat.le_refl _
  functions := Nat.le_refl _
  tokens := Nat.le_refl _
  classCount := Nat.le_refl _
  classes _ _ := rfl
  -- beyond the last class there is only the default, which has no constructor
  constructors i hi g hg := by
    rw [getD_of_size_le hi] at hg
    cases hg
  scripts _ _ h := h
  owners _ _ h := h

/-- Extending is transitive. -/
theorem Extends.trans (h : w.Extends w') (h' : w'.Extends w'') : w.Extends w'' where
  objects := h.objects.trans h'.objects
  functions := h.functions.trans h'.functions
  tokens := h.tokens.trans h'.tokens
  classCount := h.classCount.trans h'.classCount
  classes i hi := (h'.classes i (hi.trans_le h.classCount)).trans (h.classes i hi)
  constructors i hi g hg := by
    -- A class that came with the first step kept its constructor through the second.
    by_cases hi' : i < w'.classes.size
    · rw [h'.classes i hi'] at hg
      exact h.constructors i hi g hg
    · exact h.functions.trans (h'.constructors i (Nat.le_of_not_lt hi') g hg)
  scripts i c hc := h'.scripts i c (h.scripts i c hc)
  owners owner table ho := h'.owners owner table (h.owners owner table ho)

/-- The classes of a world are those of every extension. -/
theorem Extends.classAt (h : w.Extends w') {c : ClassRef} (hc : c.index < w.classes.size) :
    w'.classAt c = w.classAt c :=
  h.classes c.index hc

/-- **Passing on.** What may be passed may still be passed after anything was added. -/
theorem Passes.extends {v : Value} (hv : w.Passes v) (h : w.Extends w') : w'.Passes v := by
  cases v with
  | function f =>
    refine ⟨hv.1.trans_le h.functions, fun c g hg => ?_⟩
    by_cases hc : c.index < w.classes.size
    · rw [h.classAt hc] at hg
      exact hv.2 c g hg
    · -- a constructor that was added is younger than the function
      have hnew := h.constructors c.index (Nat.le_of_not_lt hc) g hg
      exact Nat.ne_of_gt (hv.1.trans_le hnew)
  | «class» c => exact Nat.lt_of_lt_of_le hv h.classCount
  | _ => trivial

/-- A home stays one in every extension. -/
theorem IsHome.extends {h : Home} (hh : w.IsHome h) (hext : w.Extends w') : w'.IsHome h :=
  ⟨hh.minted.trans_le hext.tokens, hh.classRef⟩

/-- A class stays well formed at its place in every extension. -/
theorem IsClassAt.extends {place : ℕ} {d : Class} (hd : w.IsClassAt place d) (h : w.Extends w') :
    w'.IsClassAt place d where
  token := hd.token
  parent := hd.parent
  constructor g hg := (hd.constructor g hg).trans_le h.functions
  methods m hm := (hd.methods m hm).extends h

/-- `undefined` may be passed. -/
@[simp] theorem passes_undefined (w : World) : w.Passes .undefined := trivial

/-- Truth values may be passed. -/
@[simp] theorem passes_bool (w : World) (b : Bool) : w.Passes (.bool b) := trivial

/-- Numbers may be passed. -/
@[simp] theorem passes_number (w : World) (n : Number) : w.Passes (.number n) := trivial

/-- Strings may be passed. -/
@[simp] theorem passes_string (w : World) (s : String) : w.Passes (.string s) := trivial

/-- Symbols may be passed. -/
@[simp] theorem passes_symbol (w : World) (s : Symbol) : w.Passes (.symbol s) := trivial

/-- Objects may be passed. -/
@[simp] theorem passes_object (w : World) (o : ObjectId) : w.Passes (.object o) := trivial

/-- A value that may be missing may be passed, with `undefined` in its place. -/
theorem passes_getD {v? : Option Value} (h : ∀ v ∈ v?, w.Passes v) :
    w.Passes (v?.getD .undefined) := by
  cases v? with
  | none => trivial
  | some v => exact h v rfl

/-- The first of values that may be passed may be passed, with `undefined` if there is none. -/
theorem passes_headD {values : List Value} (h : ∀ v ∈ values, w.Passes v) :
    w.Passes (values.headD .undefined) := by
  cases values with
  | nil => trivial
  | cons v values => exact h v List.mem_cons_self

/-! ### Reading values -/

section Reading

variable (hw : w.IsTidy)

include hw

/-- What a variable holds may be passed. -/
theorem IsTidy.passes_of_lookup {s : ScopeId} {name : String} {v : Value}
    (h : w.scopes.lookup s name = some v) : w.Passes v := by
  obtain ⟨x, hx, rfl⟩ := Option.map_eq_some_iff.mp h
  obtain ⟨s', -, hfind⟩ := List.exists_of_findSome?_eq_some hx
  exact hw.stored (.scope s') _ (Scope.mem_values_of_find? hfind)

/-- What a property holds, inherited or not, may be passed. -/
theorem IsTidy.passes_of_getProperty? {o : ObjectId} {key : PropertyKey} {v : Value}
    (h : w.getProperty? o key = some v) : w.Passes v := by
  obtain ⟨o', -, hown⟩ := List.exists_of_findSome?_eq_some h
  exact hw.stored (.object o') _ (SlotTable.mem_values_of_get? hown)

/-- What a slot of a table holds may be passed. -/
theorem IsTidy.passes_of_get? {t : TableId} {key : PropertyKey} {v : Value}
    (h : (w.tableAt t).get? key = some v) : w.Passes v :=
  hw.stored (.table t) _ (SlotTable.mem_values_of_get? h)

/-- Every class of a tidy world is well formed at its place. -/
theorem IsTidy.classAt {c : ClassRef} (hc : c.index < w.classes.size) :
    w.IsClassAt c.index (w.classAt c) :=
  hw.classes c.index hc

omit hw in
/-- A class that declares something has been made. -/
theorem lt_of_field {c : ClassRef} {f : Field} (h : f ∈ (w.classAt c).fields) :
    c.index < w.classes.size := by
  by_contra hc
  rw [World.classAt, getD_of_size_le (Nat.le_of_not_lt hc)] at h
  cases h

/-- The parent of a class is older. -/
theorem IsTidy.parent_lt (c p : ClassRef) (h : (w.classAt c).parent = some p) :
    p.index < c.index := by
  by_cases hc : c.index < w.classes.size
  · exact (hw.classAt hc).parent p h
  · rw [World.classAt, getD_of_size_le (Nat.le_of_not_lt hc)] at h
    cases h

/-- The chain of a class with a parent is the class and then the parent's chain. -/
theorem IsTidy.classChain_of_some {c p : ClassRef} (h : (w.classAt c).parent = some p) :
    w.classChain c = c :: w.classChain p := by
  have hlt := hw.parent_lt c p h
  refine (lineage_of_some h _).trans (congrArg (c :: ·) ?_)
  exact lineage_eq_of_rank (·.index) hw.parent_lt p _ _ hlt (Nat.lt_succ_self _)

/-- A chain stays as it is. -/
theorem classChain_extends (hext : w.Extends w') {c : ClassRef} (hc : c.index < w.classes.size) :
    w'.classChain c = w.classChain c := by
  -- both follow the same parents, which are older than their children
  have hsame : ∀ (bound : ℕ) (c : ClassRef), c.index < w.classes.size →
      lineage (fun c => (w'.classAt c).parent) bound c =
        lineage (fun c => (w.classAt c).parent) bound c := by
    intro bound
    induction bound with
    | zero => exact fun _ _ => rfl
    | succ bound ih =>
      intro c hc
      have hat : (w'.classAt c).parent = (w.classAt c).parent := by rw [hext.classAt hc]
      cases hparent : (w.classAt c).parent with
      | none => rw [lineage_of_none (hat.trans hparent), lineage_of_none hparent]
      | some p =>
        rw [lineage_of_some (hat.trans hparent), lineage_of_some hparent]
        rw [ih p ((hw.parent_lt c p hparent).trans hc)]
  exact hsame _ c hc

/-- The classes of a chain have been made with the first of them. -/
theorem IsTidy.lt_of_mem_classChain {c d : ClassRef} (hc : c.index < w.classes.size)
    (hd : d ∈ w.classChain c) : d.index < w.classes.size :=
  of_mem_lineage (p := fun c => c.index < w.classes.size)
    (fun a b ha hparent => (hw.parent_lt a b hparent).trans ha) hc hd

/-- With a class, a chain has all its ancestors in it. -/
theorem IsTidy.classChain_subset {c d : ClassRef} (hd : d ∈ w.classChain c) :
    w.classChain d ⊆ w.classChain c := by
  refine of_mem_lineage (p := fun d => w.classChain d ⊆ w.classChain c) ?_ (List.Subset.refl _) hd
  intro a b ha hparent
  rw [hw.classChain_of_some hparent] at ha
  exact fun x hx => ha (List.mem_cons_of_mem a hx)

/-- Ancestors are older. -/
theorem IsTidy.le_of_mem_classChain {c d : ClassRef} (hd : d ∈ w.classChain c) :
    d.index ≤ c.index :=
  of_mem_lineage (p := fun d => d.index ≤ c.index)
    (fun a b ha hparent => (hw.parent_lt a b hparent).le.trans ha) (Nat.le_refl _) hd

end Reading

/-! ### What a change stores -/

/-- A declaration stores nothing but the value declared. -/
theorem stored_declare {s : ScopeId} {name : String} {v x : Value} {isMutable : Bool} {n : Node}
    (h : x ∈ (w.declare s name v isMutable).stored n) : x ∈ w.stored n ∨ x = v := by
  cases n with
  | scope s' =>
    -- only the scope declared in has another binding, and only with the value declared
    have hget : (w.declare s name v isMutable).scopes.scopeAt s' =
        if s.index = s'.index ∧ s'.index < w.scopes.all.size then
          (w.scopes.scopeAt s').put name ⟨v, isMutable⟩
        else w.scopes.scopeAt s' := getD_modify _ _ _ _ _
    rw [stored, hget] at h
    split at h
    · obtain ⟨entry, hentry, rfl⟩ := List.mem_map.mp h
      refine (Association.mem_put hentry).imp (fun hold => List.mem_map_of_mem hold) fun hnew => ?_
      rw [hnew]
    · exact Or.inl h
  | _ => exact Or.inl h

/-- A change of properties stores nothing but values that it put there. -/
theorem stored_properties {o : ObjectId} {f : SlotTable → SlotTable} {x : Value} {n : Node}
    (h : x ∈ (w.updateObject o fun object =>
      { object with properties := f object.properties }).stored n) :
    x ∈ w.stored n ∨ ∃ t, x ∈ (f t).values ∧ x ∉ t.values := by
  cases n with
  | object o' =>
    rw [stored, objectAt_updateObject] at h
    -- Only the object changed may hold a value that was not stored before.
    split at h
    · by_cases hold : x ∈ (w.objectAt o').properties.values
      · exact Or.inl hold
      · exact Or.inr ⟨_, h, hold⟩
    · exact Or.inl h
  | _ => exact Or.inl h

/-- A change of a table stores nothing but values that it put there. -/
theorem stored_table {t : TableId} {f : SlotTable → SlotTable} {x : Value} {n : Node}
    (h : x ∈ { w with tables := w.tables.modify t.index f }.stored n) :
    x ∈ w.stored n ∨ ∃ t, x ∈ (f t).values ∧ x ∉ t.values := by
  cases n with
  | table t' =>
    rw [stored, tableAt_modify] at h
    -- Only the table changed may hold a value that was not stored before.
    split at h
    · by_cases hold : x ∈ (w.tableAt t').values
      · exact Or.inl hold
      · exact Or.inr ⟨_, h, hold⟩
    · exact Or.inl h
  | _ => exact Or.inl h

/-- A new object stores nothing. -/
theorem stored_newObject {proto : Option ObjectId} {x : Value} {n : Node}
    (h : x ∈ (w.newObject proto).2.stored n) : x ∈ w.stored n := by
  cases n with
  | object o =>
    rw [stored, objectAt_newObject] at h
    split at h
    · cases h
    · exact h
  | _ => exact h

/-- A new scope stores nothing. -/
theorem stored_childScope {parent : ScopeId} {x : Value} {n : Node}
    (h : x ∈ (w.childScope parent).2.stored n) : x ∈ w.stored n := by
  cases n with
  | scope s =>
    -- The scope asked for is the new one, which is empty, or one that was there.
    have hget : (w.childScope parent).2.scopes.scopeAt s =
        if s.index = w.scopes.all.size then ⟨[], some parent⟩ else w.scopes.scopeAt s :=
      getD_push _ _ _ _
    rw [stored, hget] at h
    split at h
    · cases h
    · exact h
  | _ => exact h

/-- A table that is added is empty. -/
theorem stored_of_pushTable (htables : w'.tables = w.tables.push .empty) {t : TableId} {x : Value}
    (h : x ∈ w'.stored (.table t)) : x ∈ w.stored (.table t) := by
  have hget : w'.tableAt t = if t.index = w.tables.size then .empty else w.tableAt t := by
    rw [tableAt, htables]
    exact getD_push _ _ _ _
  rw [stored, hget] at h
  split at h
  · cases h
  · exact h

/-! ### Tidy worlds stay tidy -/

/-- What has to be shown of a change that registers no object and makes no class. -/
theorem IsTidy.change (hw : w.IsTidy) (hsame : w.SameRegistrations w')
    (hclasses : w'.classes = w.classes) (hobjects : w.objects.size ≤ w'.objects.size)
    (hfunctions : w.functions.size ≤ w'.functions.size)
    (hscripts : ∀ i c, w.functions.getD i default = .script c →
      w'.functions.getD i default = .script c)
    (hmade : ∀ i c, w'.functions.getD i default = .script c →
      w.functions.getD i default = .script c ∨ ∀ h ∈ c.home, w.IsHome h)
    (hstored : ∀ n, ∀ v ∈ w'.stored n, v ∈ w.stored n ∨ w.Passes v) :
    w'.IsTidy ∧ w.Extends w' := by
  -- registrations and classes are the same, and nothing becomes fewer
  have hext : w.Extends w' :=
    { objects := hobjects
      functions := hfunctions
      tokens := by rw [hsame.tokens]
      classCount := by rw [hclasses]
      classes := fun i _ => by rw [hclasses]
      constructors := fun i hi g hg => by
        rw [hclasses, getD_of_size_le hi] at hg
        cases hg
      scripts := hscripts
      owners := fun owner table h => by rwa [hsame.ownedTable?] }
  refine ⟨⟨hsame.isRegistry hw.registry, fun n v hv => ?_, fun i c hc h hh => ?_, fun i hi => ?_,
    ?_⟩, hext⟩
  · -- a value stored was stored before, or passes; so too the home of a function
    obtain hold | hnew := hstored n v hv
    · exact (hw.stored n v hold).extends hext
    · exact hnew.extends hext
  · obtain hold | hnew := hmade i c hc
    · exact (hw.homes i c hold h hh).extends hext
    · exact (hnew h hh).extends hext
  · rw [hclasses] at hi ⊢
    exact (hw.classes i hi).extends hext
  · rw [hclasses, hsame.tokens]
    exact hw.tokens

section Changes

variable (hw : w.IsTidy)

include hw

/-- A declaration of a value that may be passed leaves a tidy world tidy. -/
theorem IsTidy.declare (s : ScopeId) (name : String) {v : Value} (hv : w.Passes v)
    (isMutable : Bool) :
    (w.declare s name v isMutable).IsTidy ∧ w.Extends (w.declare s name v isMutable) :=
  hw.change ⟨rfl, fun _ => rfl, Nat.le_refl _⟩ rfl (Nat.le_refl _) (Nat.le_refl _)
    (fun _ _ hc => hc) (fun _ _ hc => Or.inl hc) fun _ x hx =>
      (stored_declare hx).imp_right fun h : x = v => h ▸ hv

/-- A change of properties that puts only values there that may be passed leaves a tidy world tidy.
-/
theorem IsTidy.properties (o : ObjectId) {f : SlotTable → SlotTable}
    (hf : ∀ t, ∀ v ∈ (f t).values, v ∈ t.values ∨ w.Passes v) :
    (w.updateObject o fun object => { object with properties := f object.properties }).IsTidy ∧
      w.Extends
        (w.updateObject o fun object => { object with properties := f object.properties }) := by
  refine hw.change (sameRegistrations_updateObject w o fun _ => rfl) rfl ?_ (Nat.le_refl _)
    (fun _ _ hc => hc) (fun _ _ hc => Or.inl hc) fun n x hx => (stored_properties hx).imp_right ?_
  · rw [size_updateObject]
  · rintro ⟨t, hmem, hold⟩
    exact (hf t x hmem).resolve_left hold

/-- Storing a property leaves a tidy world tidy. -/
theorem IsTidy.setProperty (o : ObjectId) (key : PropertyKey) {v : Value} (hv : w.Passes v) :
    (w.setProperty o key v).IsTidy ∧ w.Extends (w.setProperty o key v) :=
  hw.properties o fun _ x hx => (SlotTable.mem_values_set hx).imp_right fun h : x = v => h ▸ hv

/-- Deleting a property leaves a tidy world tidy. -/
theorem IsTidy.deleteProperty (o : ObjectId) (key : PropertyKey) :
    (w.deleteProperty o key).IsTidy ∧ w.Extends (w.deleteProperty o key) :=
  hw.properties o fun _ _ hx => Or.inl (SlotTable.mem_values_delete hx)

/-- A change of a table that puts only values there that may be passed leaves a tidy world tidy. -/
theorem IsTidy.table (t : TableId) {f : SlotTable → SlotTable}
    (hf : ∀ t, ∀ v ∈ (f t).values, v ∈ t.values ∨ w.Passes v) :
    { w with tables := w.tables.modify t.index f }.IsTidy ∧
      w.Extends { w with tables := w.tables.modify t.index f } := by
  refine hw.change (sameRegistrations_tables w t f) rfl (Nat.le_refl _) (Nat.le_refl _)
    (fun _ _ hc => hc) (fun _ _ hc => Or.inl hc) fun n x hx => (stored_table hx).imp_right ?_
  rintro ⟨t, hmem, hold⟩
  exact (hf t x hmem).resolve_left hold

/-- Storing in a slot leaves a tidy world tidy. -/
theorem IsTidy.setSlot (t : TableId) (key : PropertyKey) {v : Value} (hv : w.Passes v) :
    (w.setSlot t key v).IsTidy ∧ w.Extends (w.setSlot t key v) :=
  hw.table t fun _ x hx => (SlotTable.mem_values_set hx).imp_right fun h : x = v => h ▸ hv

/-- Deleting a slot leaves a tidy world tidy. -/
theorem IsTidy.deleteSlot (t : TableId) (key : PropertyKey) :
    (w.deleteSlot t key).IsTidy ∧ w.Extends (w.deleteSlot t key) :=
  hw.table t fun _ _ hx => Or.inl (SlotTable.mem_values_delete hx)

/-- A new object leaves a tidy world tidy. -/
theorem IsTidy.newObject (proto : Option ObjectId) :
    (w.newObject proto).2.IsTidy ∧ w.Extends (w.newObject proto).2 := by
  refine hw.change (sameRegistrations_newObject w proto) rfl ?_ (Nat.le_refl _)
    (fun _ _ hc => hc) (fun _ _ hc => Or.inl hc) fun _ _ hx => Or.inl (stored_newObject hx)
  change w.objects.size ≤ (w.objects.push _).size
  rw [Array.size_push]
  exact Nat.le_succ _

/-- A new scope leaves a tidy world tidy. -/
theorem IsTidy.childScope (parent : ScopeId) :
    (w.childScope parent).2.IsTidy ∧ w.Extends (w.childScope parent).2 :=
  hw.change ⟨rfl, fun _ => rfl, Nat.le_refl _⟩ rfl (Nat.le_refl _) (Nat.le_refl _)
    (fun _ _ hc => hc) (fun _ _ hc => Or.inl hc) fun _ _ hx => Or.inl (stored_childScope hx)

/-- A new symbol leaves a tidy world tidy. -/
theorem IsTidy.newSymbol (description : Option String) :
    (w.newSymbol description).2.IsTidy ∧ w.Extends (w.newSymbol description).2 := by
  refine hw.change ⟨rfl, fun _ => rfl, Nat.le_refl _⟩ rfl (Nat.le_refl _) (Nat.le_refl _)
    (fun _ _ hc => hc) (fun _ _ hc => Or.inl hc) fun n x hx => Or.inl ?_
  cases n <;> exact hx

/-- A new function, written in a class or not. -/
theorem IsTidy.newFunction (name : String) {f : Function}
    (hf : ∀ c, f = .script c → ∀ h ∈ c.home, w.IsHome h) :
    (w.newFunction name f).2.IsTidy ∧ w.Extends (w.newFunction name f).2 := by
  -- the new function is the last one, and no table, object or scope holds it
  have hget : ∀ i, (w.newFunction name f).2.functions.getD i default =
      if i = w.functions.size then f else w.functions.getD i default := fun i => getD_push _ _ _ _
  refine hw.change ⟨rfl, fun _ => rfl, Nat.le_refl _⟩ rfl (Nat.le_refl _) ?_ (fun i c hc => ?_)
    (fun i c hc => ?_) fun n x hx => Or.inl ?_
  · change w.functions.size ≤ (w.functions.push _).size
    rw [Array.size_push]
    exact Nat.le_succ _
  · rw [hget, if_neg, hc]
    rintro rfl
    rw [getD_of_size_le (Nat.le_refl _)] at hc
    cases hc
  · rw [hget] at hc
    split at hc
    · exact Or.inr (hf c hc)
    · exact Or.inl hc
  · cases n <;> exact hx

/-- A function that was just made is no constructor. -/
theorem IsTidy.passes_newFunction (name : String) (f : Function) :
    (w.newFunction name f).2.Passes (.function (w.newFunction name f).1) := by
  -- The constructors of all classes are older than the function made now.
  refine ⟨?_, fun c g hg => ?_⟩
  · change w.functions.size < (w.functions.push f).size
    rw [Array.size_push]
    exact Nat.lt_succ_self _
  · change g ∈ (w.classAt c).constructor at hg
    by_cases hc : c.index < w.classes.size
    · exact Nat.ne_of_lt ((hw.classAt hc).constructor g hg)
    · rw [World.classAt, getD_of_size_le (Nat.le_of_not_lt hc)] at hg
      cases hg

/-- Minting a token leaves a tidy world tidy. -/
theorem IsTidy.mintToken (site : ClassSite) (name : String) :
    (w.mintToken site name).2.IsTidy ∧ w.Extends (w.mintToken site name).2 := by
  have hsize : (w.mintToken site name).2.tokens.size = w.tokens.size + 1 := Array.size_push _
  have hext : w.Extends (w.mintToken site name).2 :=
    { Extends.refl w with
      tokens := by rw [hsize]; exact Nat.le_succ _
      owners := fun owner table h => by
        rw [ownedTable?_mintToken, if_neg, h]
        rintro rfl
        rw [ownedTable?, if_neg (Nat.lt_irrefl _)] at h
        cases h }
  refine ⟨⟨hw.registry.mintToken site name, fun n v hv => ?_, fun i c hc h hh => ?_, fun i hi => ?_,
    ?_⟩, hext⟩
  · refine (hw.stored n v ?_).extends hext
    -- the only new place is the table of the token, and it is empty
    cases n with
    | table t => exact stored_of_pushTable rfl hv
    | _ => exact hv
  · exact (hw.homes i c hc h hh).extends hext
  · exact (hw.classes i hi).extends hext
  · rw [hsize]
    exact hw.tokens.trans (Nat.le_succ _)

/-- An object that is registered with a token has a table of the token. -/
theorem IsTidy.registerInstance {t : TokenId} {o : ObjectId} (ht : t.index < w.tokens.size)
    (ho : o.index < w.objects.size) :
    (w.registerInstance t o).2.IsTidy ∧ w.Extends (w.registerInstance t o).2 := by
  cases h : w.lookupInstance? t o with
  -- registered already: nothing changes
  | some table =>
    rw [registerInstance_of_some h]
    exact ⟨hw, .refl w⟩
  | none =>
    have hext : w.Extends (w.registerInstance t o).2 :=
      { objects := by rw [objectCount_registerInstance]
        functions := by rw [functions_registerInstance]
        tokens := by rw [tokenCount_registerInstance]
        classCount := by rw [classes_registerInstance]
        classes := fun _ _ => by rw [classes_registerInstance]
        constructors := by
          rw [classes_registerInstance]
          exact (Extends.refl w).constructors
        scripts := by
          rw [functions_registerInstance]
          exact fun _ _ h => h
        owners := fun owner table hold => by
          rw [ownedTable?_registerInstance hw.registry ht ho h, if_neg, hold]
          rintro rfl
          cases h.symm.trans hold }
    refine ⟨⟨hw.registry.registerInstance ht ho, fun n v hv => ?_, fun i c hc x hx => ?_,
      fun i hi => ?_, ?_⟩, hext⟩
    · refine (hw.stored n v ?_).extends hext
      -- the only new place is the table registered, and it is empty
      cases n with
      | table t' => exact stored_of_pushTable (tables_registerInstance h) hv
      | object o' => rwa [World.stored, properties_registerInstance] at hv
      | scope s => rwa [World.stored, scopes_registerInstance] at hv
      | _ => exact hv
    · rw [functions_registerInstance] at hc
      exact (hw.homes i c hc x hx).extends hext
    · rw [classes_registerInstance] at hi ⊢
      exact (hw.classes i hi).extends hext
    · rw [classes_registerInstance, tokenCount_registerInstance]
      exact hw.tokens

end Changes

/-- **Defining a class.** The constructor of the class, if it has one, is made last: after the world
`w₀`, in which its methods are there already and from which on nothing is stored. -/
theorem IsTidy.addClass {w₀ : World} {d : Class} (hw₀ : w₀.IsTidy) (hw : w.IsTidy)
    (hext : w₀.Extends w) (hclasses : w.classes = w₀.classes)
    (hstored : ∀ n, ∀ v ∈ w.stored n, v ∈ w₀.stored n) (htokens : w.classes.size < w.tokens.size)
    (htoken : d.token = ⟨w.classes.size⟩) (hparent : ∀ p ∈ d.parent, p.index < w.classes.size)
    (hconstructor : ∀ g ∈ d.constructor, w₀.functions.size ≤ g.index ∧ g.index < w.functions.size)
    (hmethods : ∀ m ∈ d.privateMethods, w₀.Passes (.function m.2)) :
    (w.addClass d).IsTidy ∧ w₀.Extends (w.addClass d) := by
  have hget : ∀ i, (w.addClass d).classes.getD i default =
      if i = w.classes.size then d else w.classes.getD i default := fun i => getD_push _ _ _ _
  have hsize : (w.addClass d).classes.size = w.classes.size + 1 := Array.size_push _
  have hsame : w.SameRegistrations (w.addClass d) := ⟨rfl, fun _ => rfl, Nat.le_refl _⟩
  -- from `w₀` on, where the class came in with its constructor and its methods
  have hext' : w₀.Extends (w.addClass d) :=
    { objects := hext.objects
      functions := hext.functions
      tokens := hext.tokens
      classCount := by
        rw [hsize, hclasses]
        exact Nat.le_succ _
      classes := fun i hi => by
        rw [hget, if_neg (by rw [hclasses]; omega), hclasses]
      constructors := fun i hi g hg => by
        rw [hget] at hg
        split at hg
        · exact (hconstructor g hg).1
        · rw [getD_of_size_le (hclasses ▸ hi)] at hg
          cases hg
      scripts := hext.scripts
      owners := hext.owners }
  refine ⟨{ registry := hsame.isRegistry hw.registry, stored := ?stored, homes := ?homes,
            classes := ?classes, tokens := ?tokens }, hext'⟩
  -- what `w` stores was stored in `w₀` already, so it passes by that
  case stored =>
    intro n v hv
    have hv' : v ∈ w.stored n := by cases n <;> exact hv
    exact (hw₀.stored n v (hstored n v hv')).extends hext'
  -- the homes are those that `w` has made sure of
  case homes =>
    intro i c hc h hh
    exact ⟨(hw.homes i c hc h hh).minted, (hw.homes i c hc h hh).classRef⟩
  case classes =>
    intro i hi
    rw [hget]
    split
    · -- the class just added, or one that was there
      next heq =>
      subst heq
      exact ⟨htoken, hparent, fun g hg => (hconstructor g hg).2,
        fun m hm => (hmethods m hm).extends hext'⟩
    · next hne =>
      have hi' : i < w₀.classes.size := by
        rw [← hclasses]
        omega
      rw [hclasses]
      exact (hw₀.classes i hi').extends hext'
  case tokens =>
    rw [hsize]
    exact htokens

/-- What may be passed may still be passed after reclamation. -/
theorem passes_reclaim {v : Value} (hv : w.Passes v) (roots : List Node) :
    (w.reclaim roots).Passes v := by
  -- functions and classes are there after a reclaim as they were before
  have hsame := sameContents_reclaim w roots
  cases v with
  | function f =>
    change f.index < (w.reclaim roots).functions.size ∧ ∀ c : ClassRef,
      ∀ g ∈ ((w.reclaim roots).classes.getD c.index default).constructor, g.index ≠ f.index
    rw [hsame.functions, hsame.classes]
    exact hv
  | «class» c =>
    change c.index < (w.reclaim roots).classes.size
    rw [hsame.classes]
    exact hv
  | _ => trivial

/-- Reclaiming changes no more than which tables are kept for what is gone. -/
theorem IsTidy.reclaim (hw : w.IsTidy) (roots : List Node) : (w.reclaim roots).IsTidy := by
  -- a reclaim only forgets registrations: what the world holds is the same
  have hsame := sameContents_reclaim w roots
  refine
    { registry := hw.registry.reclaim roots
      stored := ?stored
      homes := ?homes
      classes := ?classes
      tokens := ?tokens }
  -- a value passes by what is made, and reclaiming unmakes nothing
  case stored =>
    intro n v hv
    rw [hsame.stored] at hv
    exact passes_reclaim (hw.stored n v hv) roots
  case homes =>
    intro i c hc h hh
    rw [hsame.functions] at hc
    obtain ⟨hminted, hclass⟩ := hw.homes i c hc h hh
    refine ⟨?_, hclass⟩
    rw [hsame.tokenCount]
    exact hminted
  -- constructors are compared by their functions, which are the same
  case classes =>
    intro i hi
    rw [hsame.classes] at hi ⊢
    have hd := hw.classes i hi
    refine ⟨hd.token, hd.parent, fun g hg => ?_, fun m hm => passes_reclaim (hd.methods m hm) roots⟩
    rw [hsame.functions]
    exact hd.constructor g hg
  case tokens =>
    rw [hsame.classes, hsame.tokenCount]
    exact hw.tokens

end World

/-! ### Machines -/

namespace Machine

/-- What holds of the machine throughout. -/
structure IsTidy (m : Machine) : Prop where
  world : m.world.IsTidy
  /-- No class definition is half evaluated. -/
  settled : m.world.classes.size = m.world.tokens.size
  callFunction : m.world.Passes (.function m.callFunction)
  constructions : ∀ id : ConstructionId, id.index < m.constructions.size →
    (m.constructionAt id).classRef.index < m.world.classes.size ∧
    (m.constructionAt id).inst.index < m.world.objects.size

/-- What was there is still there, and what happened has happened. -/
structure Extends (m m' : Machine) : Prop where
  world : m.world.Extends m'.world
  constructionCount : m.constructions.size ≤ m'.constructions.size
  constructions : ∀ id : ConstructionId, id.index < m.constructions.size →
    (m'.constructionAt id).classRef = (m.constructionAt id).classRef ∧
    (m'.constructionAt id).inst = (m.constructionAt id).inst
  maxDepth : m'.maxDepth = m.maxDepth
  journal : m.journal <:+ m'.journal

variable {m m' m'' : Machine}

/-- Every machine extends itself. -/
theorem Extends.refl (m : Machine) : m.Extends m where
  world := .refl m.world
  constructionCount := Nat.le_refl _
  constructions _ _ := ⟨rfl, rfl⟩
  maxDepth := rfl
  journal := List.suffix_refl _

/-- Extending is transitive. -/
theorem Extends.trans (h : m.Extends m') (h' : m'.Extends m'') : m.Extends m'' where
  world := h.world.trans h'.world
  constructionCount := h.constructionCount.trans h'.constructionCount
  constructions id hid := by
    obtain ⟨hclass, hinst⟩ := h.constructions id hid
    obtain ⟨hclass', hinst'⟩ := h'.constructions id (hid.trans_le h.constructionCount)
    exact ⟨hclass'.trans hclass, hinst'.trans hinst⟩
  maxDepth := h'.maxDepth.trans h.maxDepth
  journal := h.journal.trans h'.journal

/-- A frame in which a function may run: its receiver may be passed, and its home and construction
are there. -/
structure Suits (m : Machine) (f : Frame) : Prop where
  this : m.world.Passes f.this
  home : ∀ h ∈ f.home, m.world.IsHome h
  construction : ∀ id ∈ f.construction, id.index < m.constructions.size

/-- A frame that suits a machine suits every extension. -/
theorem Suits.extends {f : Frame} (h : m.Suits f) (hext : m.Extends m') : m'.Suits f where
  this := h.this.extends hext.world
  home x hx := (h.home x hx).extends hext.world
  construction id hid := (h.construction id hid).trans_le hext.constructionCount

/-- A machine stays tidy if its world does and constructions are not touched. -/
theorem IsTidy.next (hm : m.IsTidy) (hw : m'.world.IsTidy) (hext : m.world.Extends m'.world)
    (hsettled : m'.world.classes.size = m'.world.tokens.size)
    (hcall : m'.callFunction = m.callFunction) (hconstructions : m'.constructions = m.constructions)
    (hmax : m'.maxDepth = m.maxDepth) (hjournal : m.journal <:+ m'.journal) :
    m'.IsTidy ∧ m.Extends m' := by
  -- no construction is new, and each one is where it was
  have hat : ∀ id, m'.constructionAt id = m.constructionAt id := fun id => by
    rw [constructionAt, hconstructions, constructionAt]
  refine ⟨{ world := hw, settled := hsettled, callFunction := ?callFunction,
            constructions := ?constructions },
    { world := hext, constructionCount := ?count, constructions := ?kept, maxDepth := hmax,
      journal := hjournal }⟩
  case callFunction =>
    rw [hcall]
    exact hm.callFunction.extends hext
  case constructions =>
    intro id hid
    rw [hconstructions] at hid
    obtain ⟨hclass, hinst⟩ := hm.constructions id hid
    rw [hat]
    exact ⟨hclass.trans_le hext.classCount, hinst.trans_le hext.objects⟩
  case count =>
    rw [hconstructions]
  case kept =>
    intro id _
    rw [hat]
    exact ⟨rfl, rfl⟩

/-- Changing the world, without tokens or classes being made. -/
theorem IsTidy.alter (hm : m.IsTidy) {w : World} (h : w.IsTidy ∧ m.world.Extends w)
    (hclasses : w.classes = m.world.classes) (htokens : w.tokens.size = m.world.tokens.size) :
    { m with world := w }.IsTidy ∧ m.Extends { m with world := w } :=
  hm.next h.1 h.2 (by rw [hclasses, htokens]; exact hm.settled) rfl rfl rfl (List.suffix_refl _)

/-- Printing, and counting calls, is nothing to the world. -/
theorem IsTidy.count (hm : m.IsTidy) (depth : ℕ) (output : String) :
    { m with depth, output }.IsTidy ∧ m.Extends { m with depth, output } :=
  hm.next hm.world (.refl _) hm.settled rfl rfl rfl (List.suffix_refl _)

/-- Noting that something happened. -/
theorem IsTidy.note (hm : m.IsTidy) (e : Event) :
    { m with journal := e :: m.journal }.IsTidy ∧
      m.Extends { m with journal := e :: m.journal } :=
  hm.next hm.world (.refl _) hm.settled rfl rfl rfl (List.suffix_cons _ _)

/-- A derived constructor starts work on an instance. -/
theorem IsTidy.newConstruction (hm : m.IsTidy) {c : ClassRef} {o : ObjectId}
    (hc : c.index < m.world.classes.size) (ho : o.index < m.world.objects.size) :
    { m with constructions := m.constructions.push ⟨c, o, false⟩ }.IsTidy ∧
      m.Extends { m with constructions := m.constructions.push ⟨c, o, false⟩ } := by
  have hat := constructionAt_push (m := m) ⟨c, o, false⟩
  refine ⟨⟨hm.world, hm.settled, hm.callFunction, fun id hid => ?_⟩, .refl _, ?_, fun id hid => ?_,
    rfl, List.suffix_refl _⟩
  · -- the construction pushed is begun with a class and an object that exist
    rw [hat]
    split
    · exact ⟨hc, ho⟩
    · next hne =>
      refine hm.constructions id ?_
      change id.index < (m.constructions.push _).size at hid
      rw [Array.size_push] at hid
      omega
  · change m.constructions.size ≤ (m.constructions.push _).size
    rw [Array.size_push]
    exact Nat.le_succ _
  · rw [hat, if_neg (Nat.ne_of_lt hid)]
    exact ⟨rfl, rfl⟩

/-- A derived constructor calls the parent's. -/
theorem IsTidy.callSuper (hm : m.IsTidy) (id : ConstructionId) :
    (m.callSuper id).IsTidy ∧ m.Extends (m.callSuper id) := by
  -- The flag is all that changes in the construction; class and instance stay.
  have hat : ∀ id',
      ((m.callSuper id).constructionAt id').classRef = (m.constructionAt id').classRef ∧
        ((m.callSuper id).constructionAt id').inst = (m.constructionAt id').inst := fun id' => by
    rw [constructionAt_callSuper]
    split <;> exact ⟨rfl, rfl⟩
  have hsize : (m.callSuper id).constructions.size = m.constructions.size := Array.size_modify
  refine ⟨⟨hm.world, hm.settled, hm.callFunction, fun id' hid => ?_⟩, .refl _, ?_,
    fun id' _ => hat id', rfl, List.suffix_cons _ _⟩
  · rw [(hat id').1, (hat id').2]
    exact hm.constructions id' (hsize ▸ hid)
  · rw [hsize]

end Machine

end Enclave
