import Enclave.Proofs.Store.Places

/-!
# Nearest bindings

A name means in a scope what the nearest scope around it binds it to, and an assignment changes that
binding and no other. Here this is proved of every tree of scopes that comes about by making scopes,
declaring, assigning and looking up (`Scopes.Grown`).

What is nearest is said by following parents, one at a time (`Scopes.Meets`). In a tree that has
grown a scope is older than those inside it, so there is an end to that, and the scopes passed are
those that looking up a name goes through (`Scopes.path_eq`). After a declaration, the name means
the new value exactly in the scopes from which the way out meets the scope of the declaration before
any other binding of the name (`Scopes.redirects_declare`). An assignment is a declaration in the
scope of the nearest binding.
-/

namespace Enclave

namespace Scopes

variable {t t' : Scopes} {name : String} {s p b : ScopeId} {x y : Variable}

/-- What the scope itself binds the name to. -/
def bound? (t : Scopes) (s : ScopeId) (name : String) : Option Variable := (t.scopeAt s).find? name

def parent? (t : Scopes) (s : ScopeId) : Option ScopeId := (t.scopeAt s).parent

/-- The way out from a scope meets another scope, and no scope that it passes before binds the
name. -/
inductive Meets (t : Scopes) (name : String) : ScopeId → ScopeId → Prop
  | here (s : ScopeId) : Meets t name s s
  | outer {s p b : ScopeId} (hfree : t.bound? s name = none) (hparent : t.parent? s = some p)
      (h : Meets t name p b) : Meets t name s b

/-- The nearest binding of a name: where it is, and what it is. -/
structure Nearest (t : Scopes) (name : String) (s b : ScopeId) (x : Variable) : Prop where
  meets : t.Meets name s b
  bound : t.bound? b name = some x

/-- What is done to a tree of scopes. -/
inductive Operation
  | child (parent : ScopeId)
  | declare (s : ScopeId) (name : String) (v : Value) (isMutable : Bool)
  | assign (s : ScopeId) (name : String) (v : Value)
  | lookup (s : ScopeId) (name : String)

/-- The scope that an operation is performed in. -/
def Operation.scope : Operation → ScopeId
  | .child s | .declare s .. | .assign s .. | .lookup s _ => s

/-- The tree after an operation. An assignment that fails leaves it as it is. -/
def Operation.after (o : Operation) (t : Scopes) : Scopes :=
  match o with
  | .child s => (t.child s).2
  | .declare s name v isMutable => t.declare s name v isMutable
  | .assign s name v => (t.assign s name v).toOption.getD t
  | .lookup .. => t

/-- The trees that come about from a single scope. -/
inductive Grown : Scopes → Prop
  | root : Grown .root
  | step {t : Scopes} (h : Grown t) (o : Operation) (hscope : o.scope.index < t.all.size) :
      Grown (o.after t)

/-- A scope is older than those inside it. -/
def IsAged (t : Scopes) : Prop := ∀ s p, t.parent? s = some p → p.index < s.index

/-! ### Places after an operation -/

/-- A scope that was not made binds nothing. -/
theorem bound?_of_size_le (h : t.all.size ≤ s.index) (name : String) : t.bound? s name = none := by
  rw [bound?, scopeAt, getD_of_size_le h]
  rfl

/-- A scope with a parent was made. -/
theorem lt_of_parent (h : t.parent? s = some p) : s.index < t.all.size := by
  refine Nat.lt_of_not_le fun hle => ?_
  rw [parent?, scopeAt, getD_of_size_le hle] at h
  cases h

/-- A scope that binds a name was made. -/
theorem lt_of_bound (h : t.bound? s name = some x) : s.index < t.all.size := by
  refine Nat.lt_of_not_le fun hle => ?_
  rw [bound?_of_size_le hle] at h
  cases h

/-- A declaration changes one name of one scope. -/
theorem scopeAt_declare (t : Scopes) (b : ScopeId) (name : String) (v : Value) (isMutable : Bool)
    (s : ScopeId) : (t.declare b name v isMutable).scopeAt s =
      if b = s ∧ s.index < t.all.size then (t.scopeAt s).put name ⟨v, isMutable⟩
      else t.scopeAt s := by
  have hget := getD_modify t.all (·.put name ⟨v, isMutable⟩) default b.index s.index
  have hsame : b.index = s.index ↔ b = s := ⟨fun h => congrArg ScopeId.mk h, congrArg _⟩
  simp only [hsame] at hget
  exact hget

/-- A declaration leaves the parents as they are. -/
@[simp] theorem parent?_declare (t : Scopes) (b : ScopeId) (name : String) (v : Value)
    (isMutable : Bool) (s : ScopeId) :
    (t.declare b name v isMutable).parent? s = t.parent? s := by
  rw [parent?, scopeAt_declare]
  split <;> rfl

/-- What a scope binds after a declaration. -/
theorem bound?_declare (t : Scopes) (b s : ScopeId) (name other : String) (v : Value)
    (isMutable : Bool) : (t.declare b name v isMutable).bound? s other =
      if b = s ∧ s.index < t.all.size ∧ name = other then some ⟨v, isMutable⟩
      else t.bound? s other := by
  rw [bound?, scopeAt_declare]
  by_cases hs : b = s ∧ s.index < t.all.size
  · rw [if_pos hs, Scope.find?_put]
    by_cases hname : name = other
    · rw [if_pos hname, if_pos ⟨hs.1, hs.2, hname⟩]
    · rw [if_neg hname, if_neg fun h => hname h.2.2, bound?]
  · rw [if_neg hs, if_neg fun h => hs ⟨h.1, h.2.1⟩, bound?]

/-- A child scope is added as an empty one, and the others stay. -/
theorem scopeAt_child (t : Scopes) (p s : ScopeId) :
    (t.child p).2.scopeAt s = if s.index = t.all.size then ⟨[], some p⟩ else t.scopeAt s :=
  getD_push _ _ _ _

/-- A child scope binds nothing, and the others bind what they did. -/
theorem bound?_child (t : Scopes) (p s : ScopeId) (name : String) :
    (t.child p).2.bound? s name = t.bound? s name := by
  rw [bound?, scopeAt_child]
  split
  · next h => exact (bound?_of_size_le (Nat.le_of_eq h.symm) name).symm
  · rfl

/-- The parent of a child scope is the scope it was made in. -/
theorem parent?_child (t : Scopes) (p s : ScopeId) : (t.child p).2.parent? s =
    if s.index = t.all.size then some p else t.parent? s := by
  rw [parent?, scopeAt_child]
  split <;> rfl

/-! ### What is assigned -/

/-- An assignment that succeeds declares the name anew in the scope where it may be assigned. -/
theorem exists_of_assign {v : Value} (h : t.assign s name v = .ok t') :
    ∃ b, t.assignable s name = .ok b ∧ t' = t.declare b name v true := by
  rw [assign] at h
  -- Where the name may be assigned is decided first, and only then is anything stored.
  cases hassignable : t.assignable s name with
  | error e =>
    rw [hassignable] at h
    cases h
  | ok b =>
    rw [hassignable] at h
    cases h
    exact ⟨b, rfl, rfl⟩

/-- An assignment fails with the error that its place was looked for with. -/
theorem assignable_of_assign_error {v : Value} {e : RuntimeError}
    (h : t.assign s name v = .error e) : t.assignable s name = .error e := by
  rw [assign] at h
  cases hassignable : t.assignable s name with
  | error e' =>
    rw [hassignable] at h
    cases h
    rfl
  | ok b =>
    rw [hassignable] at h
    cases h

/-- Where an assignment takes effect, there is a variable. -/
theorem bound?_of_assignable (h : t.assignable s name = .ok b) :
    t.binder? s name = some b ∧ ∃ v, t.bound? b name = some ⟨v, true⟩ := by
  unfold assignable at h
  -- The binding scope is found first, then whether its binding is mutable.
  split at h
  · cases h
  · next hbinder =>
    split at h
    · next hbound =>
      cases h
      exact ⟨hbinder, _, hbound⟩
    · cases h

/-! ### Ages -/

/-- A declaration keeps scopes younger than their parents. -/
theorem IsAged.declare (h : t.IsAged) (b : ScopeId) (name : String) (v : Value)
    (isMutable : Bool) : (t.declare b name v isMutable).IsAged := fun s p hparent =>
  h s p ((parent?_declare t b name v isMutable s).symm.trans hparent)

/-- What is done to a tree keeps scopes older than those inside them. -/
theorem IsAged.after (h : t.IsAged) {o : Operation} (hscope : o.scope.index < t.all.size) :
    (o.after t).IsAged := by
  cases o with
  | child p =>
    intro s q hparent
    change (t.child p).2.parent? s = some q at hparent
    rw [parent?_child] at hparent
    split at hparent
    · next hnew =>
      -- the new scope is the youngest
      cases hparent
      rw [hnew]
      exact hscope
    · exact h s q hparent
  | declare s name v isMutable => exact h.declare s name v isMutable
  | assign s name v =>
    change ((t.assign s name v).toOption.getD t).IsAged
    cases hassign : t.assign s name v with
    | error e => exact h
    | ok t' =>
      obtain ⟨b, -, rfl⟩ := exists_of_assign hassign
      exact h.declare b name v true
  | lookup s name => exact h

/-- Scopes that have grown are younger than their parents. -/
theorem Grown.isAged (h : t.Grown) : t.IsAged := by
  induction h with
  | root =>
    intro s p hparent
    have hroot : Scopes.root.parent? s = none := by
      obtain ⟨_ | i⟩ := s <;> rfl
    rw [hroot] at hparent
    cases hparent
  | step _ o hscope ih => exact ih.after hscope

/-! ### The way out -/

/-- The first value found is the value at the first place where there is one. -/
theorem findSome?_eq_bind {α β : Type} (f : α → Option β) (l : List α) :
    l.findSome? f = (l.find? fun a => (f a).isSome).bind f := by
  induction l with
  | nil => rfl
  | cons a l ih =>
    rw [List.findSome?_cons, List.find?_cons]
    cases ha : f a with
    | some b => exact ha.symm
    | none => exact ih

/-- A lookup gives what the scope that binds the name binds it to. -/
theorem lookup_eq_bind (t : Scopes) (s : ScopeId) (name : String) :
    t.lookup s name = (t.binder? s name).bind fun b => (t.bound? b name).map (·.value) := by
  rw [lookup, findSome?_eq_bind]
  exact Option.map_bind

section Aged

variable (h : t.IsAged)

include h

/-- The scopes around a scope are its parent and those around that. -/
theorem path_eq (s : ScopeId) :
    t.path s = s :: (t.parent? s).elim [] t.path := by
  cases hparent : t.parent? s with
  | none => exact lineage_of_none hparent s.index
  | some p =>
    refine (lineage_of_some hparent s.index).trans (congrArg (s :: ·) ?_)
    exact lineage_eq_of_rank ScopeId.index h p _ _ (h s p hparent) (Nat.lt_succ_self _)

/-- What holds of a scope if it holds of its parent holds of all scopes. -/
theorem parent_induction {motive : ScopeId → Prop}
    (step : ∀ s, (∀ p, t.parent? s = some p → motive p) → motive s) (s : ScopeId) : motive s := by
  obtain ⟨i⟩ := s
  induction i using Nat.strongRecOn with
  | ind i ih => exact step ⟨i⟩ fun p hparent => ih p.index (h ⟨i⟩ p hparent)

/-- The scope that binds a name is the scope itself or the one that binds it for its parent. -/
theorem binder?_eq (s : ScopeId) (name : String) : t.binder? s name =
    if (t.bound? s name).isSome then some s else (t.parent? s).bind (t.binder? · name) := by
  unfold binder?
  rw [path_eq h, List.find?_cons]
  change (match (t.bound? s name).isSome with | true => some s | false => _) = _
  cases (t.bound? s name).isSome with
  | true => rfl
  | false => cases t.parent? s <;> rfl

end Aged

/-- A way out either ends where it starts, or passes a scope that does not bind the name. -/
theorem meets_iff : t.Meets name s b ↔
    s = b ∨ t.bound? s name = none ∧ ∃ p, t.parent? s = some p ∧ t.Meets name p b := by
  constructor
  · intro h
    cases h with
    | here => exact Or.inl rfl
    | outer hfree hparent h => exact Or.inr ⟨hfree, _, hparent, h⟩
  · rintro (rfl | ⟨hfree, p, hparent, h⟩)
    · exact .here s
    · exact .outer hfree hparent h

/-- From a scope that binds the name the way out meets no other. -/
theorem meets_iff_of_bound (h : t.bound? s name = some x) : t.Meets name s b ↔ s = b := by
  rw [meets_iff, h]
  simp

/-- The nearest binding is in the scope itself, or it is the nearest of the parent where the scope
has none. -/
theorem nearest_iff : t.Nearest name s b x ↔
    (s = b ∧ t.bound? s name = some x) ∨
      t.bound? s name = none ∧ ∃ p, t.parent? s = some p ∧ t.Nearest name p b x := by
  constructor
  · rintro ⟨hmeets, hbound⟩
    rcases meets_iff.mp hmeets with rfl | ⟨hfree, p, hparent, h⟩
    · exact Or.inl ⟨rfl, hbound⟩
    · exact Or.inr ⟨hfree, p, hparent, h, hbound⟩
  · rintro (⟨rfl, hbound⟩ | ⟨hfree, p, hparent, h⟩)
    · exact ⟨.here s, hbound⟩
    · exact ⟨.outer hfree hparent h.meets, h.bound⟩

/-- There is one nearest binding at most. -/
theorem Nearest.unique (h : t.Nearest name s b x) {b' : ScopeId} (h' : t.Nearest name s b' y) :
    b' = b ∧ y = x := by
  obtain ⟨hmeets, hbound⟩ := h
  -- Along the way out: it ends at the first scope that binds the name.
  induction hmeets with
  | here s =>
    obtain rfl := (meets_iff_of_bound hbound).mp h'.meets
    exact ⟨rfl, Option.some.inj (h'.bound.symm.trans hbound)⟩
  | outer hfree hparent _ ih =>
    rcases nearest_iff.mp h' with ⟨-, hbound'⟩ | ⟨-, p, hparent', hp⟩
    · rw [hfree] at hbound'
      cases hbound'
    · obtain rfl := Option.some.inj (hparent.symm.trans hparent')
      exact ih hp hbound

section Aged

variable (h : t.IsAged)

include h

/-- The scope that is found to bind a name is the nearest that does. -/
theorem binder?_eq_some_iff : t.binder? s name = some b ↔ ∃ x, t.Nearest name s b x := by
  -- out from the scope, from each to its parent, as the lookup goes
  induction s using parent_induction h with
  | step s ih =>
    rw [binder?_eq h]
    cases hbound : t.bound? s name with
    | some x =>
      rw [Option.isSome_some, if_pos rfl]
      constructor
      · intro hs
        obtain rfl := Option.some.inj hs
        exact ⟨x, .here s, hbound⟩
      · rintro ⟨y, hnearest⟩
        rw [(meets_iff_of_bound hbound).mp hnearest.meets]
    | none =>
      rw [Option.isSome_none, if_neg Bool.noConfusion, Option.bind_eq_some_iff]
      constructor
      · -- from a scope without the name, the way is that from its parent
        rintro ⟨p, hparent, hb⟩
        obtain ⟨x, hx⟩ := (ih p hparent).mp hb
        exact ⟨x, .outer hbound hparent hx.meets, hx.bound⟩
      · rintro ⟨y, hnearest⟩
        rcases nearest_iff.mp hnearest with ⟨-, hy⟩ | ⟨-, p, hparent, hp⟩
        · cases hbound.symm.trans hy
        · exact ⟨p, hparent, (ih p hparent).mpr ⟨y, hp⟩⟩

/-- A name means the value of its nearest binding. -/
theorem lookup_eq_some_iff {v : Value} :
    t.lookup s name = some v ↔ ∃ b isMutable, t.Nearest name s b ⟨v, isMutable⟩ := by
  rw [lookup_eq_bind, Option.bind_eq_some_iff]
  constructor
  · -- What is found by scopes is what is bound nearest, in both directions.
    rintro ⟨b, hb, hv⟩
    obtain ⟨x, hx⟩ := (binder?_eq_some_iff h).mp hb
    rw [hx.bound] at hv
    cases hv
    exact ⟨b, x.isMutable, hx⟩
  · rintro ⟨b, isMutable, hnearest⟩
    refine ⟨b, (binder?_eq_some_iff h).mpr ⟨_, hnearest⟩, ?_⟩
    rw [hnearest.bound]
    rfl

/-- Where no scope on the way out binds it, a name means nothing. -/
theorem binder?_eq_none_iff : t.binder? s name = none ↔ ∀ b x, ¬t.Nearest name s b x := by
  rw [Option.eq_none_iff_forall_ne_some]
  exact forall_congr' fun b => (not_congr (binder?_eq_some_iff h)).trans not_exists

/-! ### Assigning -/

/-- An assignment takes effect in the scope of the nearest binding, if it is a variable. -/
theorem assignable_of_nearest (hx : t.Nearest name s b x) : t.assignable s name =
    if x.isMutable then .ok b else .error (.type (.assignConstant name)) := by
  rw [assignable, (binder?_eq_some_iff h).mpr ⟨x, hx⟩]
  dsimp only
  rw [show (t.scopeAt b).find? name = some x from hx.bound]
  obtain ⟨v, _ | _⟩ := x <;> rfl

/-- Where nothing binds the name, an assignment has no place. -/
theorem assignable_of_none (hnone : ∀ b x, ¬t.Nearest name s b x) :
    t.assignable s name = .error (.reference name) := by
  rw [assignable, (binder?_eq_none_iff h).mpr hnone]

end Aged

section Assign

variable {v : Value}

/-- An assignment to a name whose nearest binding is a variable declares it again. -/
theorem assign_of_variable (h : t.IsAged) {w : Value} (hx : t.Nearest name s b ⟨w, true⟩) :
    t.assign s name v = .ok (t.declare b name v true) := by
  rw [assign, assignable_of_nearest h hx]
  rfl

/-- Where the nearest binding is constant, the assignment fails. -/
theorem assign_of_constant (h : t.IsAged) {w : Value} (hx : t.Nearest name s b ⟨w, false⟩) :
    t.assign s name v = .error (.type (.assignConstant name)) := by
  rw [assign, assignable_of_nearest h hx]
  rfl

/-- Where nothing binds the name, the assignment fails. -/
theorem assign_of_none (h : t.IsAged) (hnone : ∀ b x, ¬t.Nearest name s b x) :
    t.assign s name v = .error (.reference name) := by
  rw [assign, assignable_of_none h hnone]
  rfl

/-- There is a nearest binding, of a variable or of a constant, or there is none. -/
theorem nearest_cases (t : Scopes) (name : String) (s : ScopeId) :
    (∃ b v, t.Nearest name s b ⟨v, true⟩) ∨ (∃ b v, t.Nearest name s b ⟨v, false⟩) ∨
      ∀ b x, ¬t.Nearest name s b x := by
  by_cases hsome : ∃ b x, t.Nearest name s b x
  · obtain ⟨b, ⟨v, _ | _⟩, hx⟩ := hsome
    · exact Or.inr (Or.inl ⟨b, v, hx⟩)
    · exact Or.inl ⟨b, v, hx⟩
  · exact Or.inr (Or.inr fun b x hx => hsome ⟨b, x, hx⟩)

/-- An assignment succeeds exactly if the nearest binding is a variable. -/
theorem assign_eq_ok_iff (h : t.IsAged) : t.assign s name v = .ok t' ↔
    ∃ b w, t.Nearest name s b ⟨w, true⟩ ∧ t' = t.declare b name v true := by
  constructor
  · intro hassign
    -- The nearest binding is variable or constant, or there is none.
    rcases nearest_cases t name s with ⟨b, w, hx⟩ | ⟨b, w, hx⟩ | hnone
    · rw [assign_of_variable h hx] at hassign
      exact ⟨b, w, hx, (Except.ok.inj hassign).symm⟩
    · rw [assign_of_constant h hx] at hassign
      cases hassign
    · rw [assign_of_none h hnone] at hassign
      cases hassign
  · rintro ⟨b, w, hx, rfl⟩
    exact assign_of_variable h hx

/-- An assignment fails exactly if the nearest binding is a constant, or there is none. -/
theorem assign_eq_error_iff (h : t.IsAged) {e : RuntimeError} : t.assign s name v = .error e ↔
    (e = .type (.assignConstant name) ∧ ∃ b w, t.Nearest name s b ⟨w, false⟩) ∨
      (e = .reference name ∧ ∀ b x, ¬t.Nearest name s b x) := by
  constructor
  · intro hassign
    -- the nearest binding is a variable, a constant, or there is none
    rcases nearest_cases t name s with ⟨b, w, hx⟩ | ⟨b, w, hx⟩ | hnone
    · rw [assign_of_variable h hx] at hassign
      cases hassign
    · rw [assign_of_constant h hx] at hassign
      exact Or.inl ⟨(Except.error.inj hassign).symm, b, w, hx⟩
    · rw [assign_of_none h hnone] at hassign
      exact Or.inr ⟨(Except.error.inj hassign).symm, hnone⟩
  · rintro (⟨rfl, b, w, hx⟩ | ⟨rfl, hnone⟩)
    · exact assign_of_constant h hx
    · exact assign_of_none h hnone

end Assign

/-! ### Lookups after an operation -/

/-- From some scopes a name means another value than before, and nothing else changes for any name
or scope. -/
structure Redirects (t t' : Scopes) (name : String) (v : Value) (affected : ScopeId → Prop) :
    Prop where
  there : ∀ s, affected s → t'.lookup s name = some v
  others : ∀ s other, ¬(other = name ∧ affected s) → t'.lookup s other = t.lookup s other

section Aged

variable (h : t.IsAged)

include h

/-- A name bound in the scope itself is found there. -/
theorem lookup_of_bound (hbound : t.bound? s name = some x) : t.lookup s name = some x.value :=
  (lookup_eq_some_iff h).mpr ⟨s, x.isMutable, .here s, hbound⟩

/-- A name that the scope does not bind is looked up in its parent. -/
theorem lookup_of_free (hfree : t.bound? s name = none) :
    t.lookup s name = (t.parent? s).bind (t.lookup · name) := by
  rw [lookup_eq_bind, binder?_eq h, hfree, Option.isSome_none, if_neg Bool.noConfusion]
  cases t.parent? s with
  | none => rfl
  | some p => exact (lookup_eq_bind t p name).symm

/-- **Declarations** give the name its value where the way out meets the scope before any other
binding of the name. -/
theorem redirects_declare (hb : b.index < t.all.size) (name : String) (v : Value)
    (isMutable : Bool) :
    t.Redirects (t.declare b name v isMutable) name v fun s => t.Meets name s b := by
  have h' : (t.declare b name v isMutable).IsAged := h.declare b name v isMutable
  -- the scope declared in has the new binding, and no other binding changes
  have hself : (t.declare b name v isMutable).bound? b name = some ⟨v, isMutable⟩ := by
    rw [bound?_declare, if_pos ⟨rfl, hb, rfl⟩]
  have hother : ∀ s other, ¬(b = s ∧ name = other) →
      (t.declare b name v isMutable).bound? s other = t.bound? s other := fun s other hne => by
    rw [bound?_declare, if_neg fun h => hne ⟨h.1, h.2.2⟩]
  constructor
  · intro s hmeets
    induction hmeets with
    | here => exact lookup_of_bound h' hself
    | @outer s p b hfree hparent _ ih =>
      -- the way out leads on from a scope that binds nothing, unless the name is declared there now
      by_cases hs : b = s
      · subst hs
        exact lookup_of_bound h' hself
      · rw [lookup_of_free h' ((hother s name fun h => hs h.1).trans hfree), parent?_declare,
          hparent]
        exact ih hb h' hself hother
  · -- a scope that leads elsewhere finds what it found, level by level
    intro s other hnot
    induction s using parent_induction h with
    | step s ih =>
      have hsame : (t.declare b name v isMutable).bound? s other = t.bound? s other := by
        refine hother s other fun heq => hnot ⟨heq.2.symm, ?_⟩
        rw [heq.1]
        exact .here s
      cases hbound : t.bound? s other with
      | some x => rw [lookup_of_bound h' (hsame.trans hbound), lookup_of_bound h hbound]
      | none =>
        rw [lookup_of_free h' (hsame.trans hbound), lookup_of_free h hbound, parent?_declare]
        cases hparent : t.parent? s with
        | none => rfl
        | some p =>
          refine ih p hparent fun hmeets => hnot ⟨hmeets.1, ?_⟩
          rw [hmeets.1] at hbound
          exact .outer hbound hparent hmeets.2

/-- Making a scope changes no lookup, and in the new scope names mean what they mean around it. -/
theorem lookup_child (hp : p.index < t.all.size) (s : ScopeId) (name : String) :
    (t.child p).2.lookup s name =
      if s = (t.child p).1 then t.lookup p name else t.lookup s name := by
  have h' : (t.child p).2.IsAged := h.after (o := .child p) hp
  have hold : ∀ s, s ≠ (t.child p).1 → (t.child p).2.lookup s name = t.lookup s name := by
    intro s hne
    induction s using parent_induction h with
    | step s ih =>
      have hindex : s.index ≠ t.all.size := fun heq => hne (congrArg ScopeId.mk heq)
      cases hbound : t.bound? s name with
      | some x =>
        rw [lookup_of_bound h' ((bound?_child t p s name).trans hbound), lookup_of_bound h hbound]
      | none =>
        rw [lookup_of_free h' ((bound?_child t p s name).trans hbound), lookup_of_free h hbound,
          parent?_child, if_neg hindex]
        cases hparent : t.parent? s with
        | none => rfl
        | some q =>
          -- no scope is inside the new one
          refine ih q hparent fun heq => ?_
          have hlt := Nat.lt_trans (h s q hparent) (lt_of_parent hparent)
          rw [heq] at hlt
          exact absurd hlt (Nat.lt_irrefl _)
  split
  · next hs =>
    subst hs
    -- nothing is bound in the new scope, and its parent is asked
    have hfree : (t.child p).2.bound? (t.child p).1 name = none :=
      (bound?_child t p _ name).trans (bound?_of_size_le (Nat.le_refl _) name)
    have hparent : (t.child p).2.parent? (t.child p).1 = some p := by
      rw [parent?_child]
      exact if_pos rfl
    rw [lookup_of_free h' hfree, hparent]
    refine hold p fun heq => ?_
    rw [heq] at hp
    exact absurd hp (Nat.lt_irrefl _)
  · next hs => exact hold s hs

end Aged

/-- **Nearest bindings.** In every tree of scopes that has grown by operations on it, a name means
the value of its nearest binding. An assignment succeeds exactly if that is a variable, and then it
changes the value of this binding alone: what the name means changes exactly where this is the
nearest binding, and nothing else does. An assignment that fails changes nothing. A declaration
changes what the name means exactly where the way out meets its scope before any other binding, and
making a scope changes nothing. -/
theorem Grown.nearest_bindings (h : t.Grown) (s : ScopeId) (hs : s.index < t.all.size)
    (name : String) (v : Value) :
    (∀ w, t.lookup s name = some w ↔ ∃ b isMutable, t.Nearest name s b ⟨w, isMutable⟩) ∧
    ((∃ t', t.assign s name v = .ok t') ↔ ∃ b w, t.Nearest name s b ⟨w, true⟩) ∧
    (∀ t', t.assign s name v = .ok t' → ∃ b w, t.Nearest name s b ⟨w, true⟩ ∧
      (∀ u other, t'.bound? u other =
        if u = b ∧ other = name then some ⟨v, true⟩ else t.bound? u other) ∧
      (∀ u, t'.parent? u = t.parent? u) ∧
      t.Redirects t' name v fun u => ∃ x, t.Nearest name u b x) ∧
    (∀ e, t.assign s name v = .error e ↔
      (e = .type (.assignConstant name) ∧ ∃ b w, t.Nearest name s b ⟨w, false⟩) ∨
        (e = .reference name ∧ ∀ b x, ¬t.Nearest name s b x)) ∧
    (∀ e, t.assign s name v = .error e → (Operation.assign s name v).after t = t) ∧
    (∀ isMutable, t.Redirects (t.declare s name v isMutable) name v fun u => t.Meets name u s) ∧
    ∀ u other, (t.child s).2.lookup u other =
      if u = (t.child s).1 then t.lookup s other else t.lookup u other := by
  have haged := h.isAged
  refine ⟨fun w => lookup_eq_some_iff haged, ?_, ?_, fun e => assign_eq_error_iff haged, ?_,
    redirects_declare haged hs name v, fun u other => lookup_child haged hs u other⟩
  · constructor
    · -- an assignment succeeds just when the nearest binding is a variable
      rintro ⟨t', hassign⟩
      obtain ⟨b, w, hx, -⟩ := (assign_eq_ok_iff haged).mp hassign
      exact ⟨b, w, hx⟩
    · rintro ⟨b, w, hx⟩
      exact ⟨_, assign_of_variable haged hx⟩
  · -- it then changes that binding, as a declaration in its scope would
    intro t' hassign
    obtain ⟨b, w, hx, rfl⟩ := (assign_eq_ok_iff haged).mp hassign
    have hb := lt_of_bound hx.bound
    have hredirects := redirects_declare haged hb name v true
    -- the scope binds the name already, so the way out that meets it ends there
    have hends : ∀ u, t.Meets name u b ↔ ∃ x, t.Nearest name u b x := fun u =>
      ⟨fun hmeets => ⟨_, hmeets, hx.bound⟩, fun ⟨_, hnearest⟩ => hnearest.meets⟩
    refine ⟨b, w, hx, fun u other => ?_, fun u => parent?_declare t b name v true u,
      fun u hu => hredirects.there u ((hends u).mpr hu),
      fun u other hu => hredirects.others u other fun hmeets =>
        hu ⟨hmeets.1, (hends u).mp hmeets.2⟩⟩
    rw [bound?_declare]
    by_cases hsame : u = b ∧ other = name
    · rw [if_pos hsame, if_pos ⟨hsame.1.symm, hsame.1 ▸ hb, hsame.2.symm⟩]
    · rw [if_neg hsame, if_neg fun heq => hsame ⟨heq.1.symm, heq.2.2.symm⟩]
  · -- one that fails leaves the scopes as they are
    intro e hassign
    change (t.assign s name v).toOption.getD t = t
    rw [hassign]
    rfl

/-- A variable, a constant of the same name inside its scope, a scope inside that, and another one
beside it. -/
def shadowing : List Operation :=
  [.declare ⟨0⟩ "x" .null true, .child ⟨0⟩, .declare ⟨1⟩ "x" .undefined false, .child ⟨1⟩,
    .child ⟨0⟩]

/-- A variable declared inside a constant of its name: one is assigned, the other is not. -/
theorem nearest_bindings_shadowing : ∃ t : Scopes, t.Grown ∧ 2 < t.all.size ∧
    t.assign ⟨2⟩ "x" .null = .error (.type (.assignConstant "x")) ∧
    ∃ t', t.assign ⟨3⟩ "x" (.string "y") = .ok t' ∧ t'.lookup ⟨2⟩ "x" = some .undefined := by
  let t := shadowing.foldl (fun t o => o.after t) .root
  have hgrown : t.Grown :=
    ((((Grown.root.step (.declare ⟨0⟩ "x" .null true) (by decide)).step (.child ⟨0⟩)
      (by decide)).step (.declare ⟨1⟩ "x" .undefined false) (by decide)).step (.child ⟨1⟩)
      (by decide)).step (.child ⟨0⟩) (by decide)
  have hconstant : t.Nearest "x" ⟨2⟩ ⟨1⟩ ⟨.undefined, false⟩ :=
    ⟨.outer (by decide) (by decide) (.here _), by decide⟩
  have hvariable : t.Nearest "x" ⟨3⟩ ⟨0⟩ ⟨.null, true⟩ :=
    ⟨.outer (by decide) (by decide) (.here _), by decide⟩
  obtain ⟨-, -, -, hfails, -⟩ := hgrown.nearest_bindings ⟨2⟩ (by decide) "x" .null
  obtain ⟨-, hsucceeds, hchanges, -⟩ := hgrown.nearest_bindings ⟨3⟩ (by decide) "x" (.string "y")
  refine ⟨t, hgrown, by decide, (hfails _).mpr (Or.inl ⟨rfl, _, _, hconstant⟩), ?_⟩
  obtain ⟨t', hassign⟩ := hsucceeds.mpr ⟨_, _, hvariable⟩
  obtain ⟨b, w, hb, -, -, hredirects⟩ := hchanges t' hassign
  obtain ⟨rfl, -⟩ := hvariable.unique hb
  refine ⟨t', hassign, (hredirects.others ⟨2⟩ "x" ?_).trans (by decide)⟩
  -- from the innermost scope the constant is nearest
  rintro ⟨-, x, hx⟩
  cases (hconstant.unique hx).1

end Scopes

end Enclave
