import Enclave.Host
import Enclave.Proofs.Store.Registry
import Mathlib.Logic.Function.Basic

/-!
# Hosts without a store

A `Reference` does what a host does, but in place of brands, arenas and places that are used again
it has a map: each object has a table of properties, each token a static table, and each registered
pair of a token and an object a table of its own. Nothing in it is ever reclaimed.

Both are driven by the same `Action`s and give the same kind of `Answer`.
-/

namespace Enclave

/-- A value, given as such or as the object of a name. -/
inductive Operand
  | given (v : Value)
  | named (name : String)

/-- What a host is asked to do. Where an action gives a table, the table can be kept by a name. -/
inductive Action
  | create (name : String) (proto : Option String)
  | mint (name : String) (site : ClassSite) (className : String)
  | register (token object : String) (keepAs : Option String)
  | lookup (token object : String) (keepAs : Option String)
  | statics (token : String) (keepAs : Option String)
  | set (holder : String) (key : PropertyKey) (value : Operand)
  | delete (holder : String) (key : PropertyKey)
  | read (holder : String)
  | drop (name : String)

inductive Answer
  | done
  /-- A table, and the names by which the same table is kept already. -/
  | table (contents : SlotTable) (same : List String)
  | contents (t : SlotTable)
  | fault (f : HostFault)
  | noName

/-! ### Actions on a host -/

namespace Host

def operand (h : Host) : Operand → Value
  | .given v => v
  | .named name => ((h.objects.get? name).map Value.object).getD .undefined

/-- Answers with a table, and keeps it if there is a name for it. -/
def give (h : Host) (t : TableId) (keepAs : Option String) : Answer × Host :=
  (.table (h.contents (.table t)) (h.tables.namesOf t),
    match keepAs with
    | some name => h.keepTable name t
    | none => h)

def perform (h : Host) : Action → Answer × Host
  | .create name proto => (.done, (h.addObject name proto).2)
  | .mint name site className => (.done, h.addToken name site className)
  | .register token object keepAs =>
    match h.register token object with
    | .ok (t, h) => h.give t keepAs
    | .error f => (.fault f, h)
  | .lookup token object keepAs =>
    match h.lookup token object with
    | .ok t => h.give t keepAs
    | .error f => (.fault f, h)
  | .statics token keepAs =>
    match h.statics token with
    | .ok t => h.give t keepAs
    | .error f => (.fault f, h)
  | .set holder key value =>
    match h.holder? holder with
    | some place => (.done, h.set place key (h.operand value))
    | none => (.noName, h)
  | .delete holder key =>
    match h.holder? holder with
    | some place => (.done, h.delete place key)
    | none => (.noName, h)
  | .read holder =>
    match h.holder? holder with
    | some place => (.contents (h.contents place), h)
    | none => (.noName, h)
  | .drop name => (.done, h.drop name)

/-- The answers to some actions, one after another. -/
def answers (h : Host) : List Action → List Answer
  | [] => []
  | action :: rest => (h.perform action).1 :: answers (h.perform action).2 rest

end Host

/-! ### Actions on a map -/

/-- Where keys have values: the properties of an object, or the table of an owner. -/
inductive Place
  | properties (o : ObjectId)
  | table (owner : TableOwner)
  deriving DecidableEq

/-- A map from places to tables, and what is held of it. -/
structure Reference where
  objectCount : ℕ
  tokenCount : ℕ
  /-- A pair that was never registered has no table. -/
  contents : Place → Option SlotTable
  objects : Named ObjectId
  tokens : Named TokenId
  tables : Named TableOwner

namespace Reference

def empty : Reference := ⟨0, 0, fun _ => none, .empty, .empty, .empty⟩

def holder? (r : Reference) (name : String) : Option Place :=
  match r.objects.get? name with
  | some o => some (.properties o)
  | none => (r.tables.get? name).map .table

def operand (r : Reference) : Operand → Value
  | .given v => v
  | .named name => ((r.objects.get? name).map Value.object).getD .undefined

def create (r : Reference) (name : String) : Reference :=
  { r with
    objectCount := r.objectCount + 1
    contents := Function.update r.contents (.properties ⟨r.objectCount⟩) (some .empty)
    objects := r.objects.put name ⟨r.objectCount⟩ }

def mint (r : Reference) (name : String) : Reference :=
  { r with
    tokenCount := r.tokenCount + 1
    contents := Function.update r.contents (.table (.token ⟨r.tokenCount⟩)) (some .empty)
    tokens := r.tokens.put name ⟨r.tokenCount⟩ }

/-- Gives a pair an empty table unless it has one. -/
def register (r : Reference) (t : TokenId) (o : ObjectId) : Reference :=
  match r.contents (.table (.pair t o)) with
  | some _ => r
  | none =>
    { r with contents := Function.update r.contents (.table (.pair t o)) (some .empty) }

/-- Changes the table at a place. -/
def edit (r : Reference) (place : Place) (f : SlotTable → SlotTable) : Reference :=
  { r with contents := Function.update r.contents place ((r.contents place).map f) }

def keep (r : Reference) (name : String) (owner : TableOwner) : Reference :=
  { r with tables := r.tables.put name owner }

def drop (r : Reference) (name : String) : Reference :=
  { r with
    objects := r.objects.erase name
    tables := r.tables.erase name
    tokens := r.tokens.erase name }

def give (r : Reference) (owner : TableOwner) (keepAs : Option String) : Answer × Reference :=
  (.table ((r.contents (.table owner)).getD .empty) (r.tables.namesOf owner),
    match keepAs with
    | some name => r.keep name owner
    | none => r)

/-- The token and the object of two names. -/
def pair (r : Reference) (token object : String) : Except HostFault (TokenId × ObjectId) :=
  match r.tokens.get? token, r.objects.get? object with
  | some t, some o => .ok (t, o)
  | some _, none => .error .noObject
  | none, _ => .error .noToken

def perform (r : Reference) : Action → Answer × Reference
  | .create name _ => (.done, r.create name)
  | .mint name _ _ => (.done, r.mint name)
  | .register token object keepAs =>
    match r.pair token object with
    | .ok (t, o) => (r.register t o).give (.pair t o) keepAs
    | .error f => (.fault f, r)
  | .lookup token object keepAs =>
    match r.pair token object with
    | .ok (t, o) =>
      if (r.contents (.table (.pair t o))).isSome then r.give (.pair t o) keepAs
      else (.fault .notRegistered, r)
    | .error f => (.fault f, r)
  | .statics token keepAs =>
    match r.tokens.get? token with
    | some t => r.give (.token t) keepAs
    | none => (.fault .noToken, r)
  | .set holder key value =>
    match r.holder? holder with
    | some place => (.done, r.edit place (·.set key (r.operand value)))
    | none => (.noName, r)
  | .delete holder key =>
    match r.holder? holder with
    | some place => (.done, r.edit place (·.delete key))
    | none => (.noName, r)
  | .read holder =>
    match r.holder? holder with
    | some place => (.contents ((r.contents place).getD .empty), r)
    | none => (.noName, r)
  | .drop name => (.done, r.drop name)

/-- The answers to some actions, one after another. -/
def answers (r : Reference) : List Action → List Answer
  | [] => []
  | action :: rest => (r.perform action).1 :: answers (r.perform action).2 rest

/-! ### What changes -/

theorem contents_edit (r : Reference) (place other : Place) (f : SlotTable → SlotTable) :
    (r.edit place f).contents other =
      if other = place then (r.contents place).map f else r.contents other :=
  Function.update_apply _ _ _ _

theorem contents_create (r : Reference) (name : String) (place : Place) :
    (r.create name).contents place =
      if place = .properties ⟨r.objectCount⟩ then some .empty else r.contents place :=
  Function.update_apply _ _ _ _

theorem contents_mint (r : Reference) (name : String) (place : Place) :
    (r.mint name).contents place =
      if place = .table (.token ⟨r.tokenCount⟩) then some .empty else r.contents place :=
  Function.update_apply _ _ _ _

theorem contents_register (r : Reference) (t : TokenId) (o : ObjectId) (place : Place) :
    (r.register t o).contents place =
      if place = .table (.pair t o) then some ((r.contents place).getD .empty)
      else r.contents place := by
  unfold register
  -- Only the table of the pair is made, and only if there is none.
  by_cases heq : place = .table (.pair t o)
  · subst heq
    cases h : r.contents (.table (.pair t o)) with
    | none => simp
    | some table => simp [h]
  · cases h : r.contents (.table (.pair t o)) with
    | none => simp [heq]
    | some table => simp [heq]

/-- The place whose table an action may change. -/
def target (r : Reference) : Action → Option Place
  | .create _ _ => some (.properties ⟨r.objectCount⟩)
  | .mint _ _ _ => some (.table (.token ⟨r.tokenCount⟩))
  | .register token object _ =>
    (r.pair token object).toOption.map fun (t, o) => .table (.pair t o)
  | .set holder _ _ => r.holder? holder
  | .delete holder _ => r.holder? holder
  | _ => none

theorem contents_give (r : Reference) (owner : TableOwner) (keepAs : Option String) :
    (r.give owner keepAs).2.contents = r.contents := by
  cases keepAs <;> rfl

/-- **Frame.** An action changes nothing but the table at its target. -/
theorem contents_perform_of_ne (r : Reference) {action : Action} {place : Place}
    (hne : r.target action ≠ some place) :
    (r.perform action).2.contents place = r.contents place := by
  -- what an action changes is its target alone; what fails changes nothing
  cases action with
  | create name proto =>
    exact (contents_create r name place).trans (if_neg fun heq => hne (congrArg some heq.symm))
  | mint name site className =>
    exact (contents_mint r name place).trans (if_neg fun heq => hne (congrArg some heq.symm))
  -- the names given to tables are no part of the contents
  | register token object keepAs =>
    rw [perform]
    rw [target] at hne
    cases hpair : r.pair token object with
    | error f => rfl
    | ok pair =>
      obtain ⟨t, o⟩ := pair
      rw [hpair] at hne
      refine (congrFun (contents_give _ _ _) place).trans ?_
      exact (contents_register r t o place).trans (if_neg fun heq => hne (congrArg some heq.symm))
  | lookup token object keepAs =>
    rw [perform]
    cases r.pair token object with
    | error f => rfl
    | ok pair =>
      dsimp only
      split
      · exact congrFun (contents_give _ _ _) place
      · rfl
  | statics token keepAs =>
    rw [perform]
    cases r.tokens.get? token with
    | none => rfl
    | some t => exact congrFun (contents_give _ _ _) place
  -- the two edits change the table that the name stands for
  | set holder key value =>
    rw [perform]
    rw [target] at hne
    cases hholder : r.holder? holder with
    | none => rfl
    | some target =>
      rw [hholder] at hne
      exact (contents_edit r target place _).trans (if_neg fun heq => hne (congrArg some heq.symm))
  | delete holder key =>
    rw [perform]
    rw [target] at hne
    cases hholder : r.holder? holder with
    | none => rfl
    | some target =>
      rw [hholder] at hne
      exact (contents_edit r target place _).trans (if_neg fun heq => hne (congrArg some heq.symm))
  -- reading and dropping a name change no contents
  | read holder =>
    rw [perform]
    cases r.holder? holder <;> rfl
  | drop name => rfl

/-! ### Registered pairs -/

/-- The map after some actions. -/
def after (r : Reference) : List Action → Reference
  | [] => r
  | action :: rest => (r.perform action).2.after rest

/-- The action registers the object with the token. -/
def Registers (r : Reference) (action : Action) (t : TokenId) (o : ObjectId) : Prop :=
  ∃ token object keepAs, action = .register token object keepAs ∧ r.pair token object = .ok (t, o)

/-- An action that registers a pair has its table as the target. -/
theorem Registers.target {r : Reference} {action : Action} {t : TokenId} {o : ObjectId}
    (h : r.Registers action t o) : r.target action = some (.table (.pair t o)) := by
  obtain ⟨token, object, keepAs, rfl, hpair⟩ := h
  rw [Reference.target, hpair]
  rfl

/-- Where there is a table, there is one after an edit. -/
theorem isSome_contents_edit (r : Reference) (place : Place) (f : SlotTable → SlotTable) :
    ((r.edit place f).contents place).isSome = (r.contents place).isSome := by
  rw [contents_edit, if_pos rfl, Option.isSome_map]

/-- A pair gets a table when it is registered, and only then, and keeps it. -/
theorem isSome_contents_perform (r : Reference) (action : Action) (t : TokenId) (o : ObjectId) :
    ((r.perform action).2.contents (.table (.pair t o))).isSome ↔
      (r.contents (.table (.pair t o))).isSome ∨ r.Registers action t o := by
  by_cases htarget : r.target action = some (.table (.pair t o))
  · -- of the actions with that target only the registration makes a table
    cases action with
    | register token object keepAs =>
      rw [target] at htarget
      cases hpair : r.pair token object with
      | error f =>
        rw [hpair] at htarget
        cases htarget
      | ok pair =>
        obtain ⟨t', o'⟩ := pair
        rw [hpair] at htarget
        cases htarget
        refine iff_of_true ?_ (Or.inr ⟨token, object, keepAs, rfl, hpair⟩)
        rw [perform, hpair]
        dsimp only
        rw [contents_give, contents_register, if_pos rfl]
        rfl
    -- an edit is of a table that is there, and leaves one there
    | set holder key value =>
      have hnot : ¬r.Registers (.set holder key value) t o := fun ⟨_, _, _, h, _⟩ => nomatch h
      rw [target] at htarget
      rw [perform, htarget, or_iff_left hnot]
      exact iff_of_eq (congrArg (· = true) (r.isSome_contents_edit _ _))
    | delete holder key =>
      have hnot : ¬r.Registers (.delete holder key) t o := fun ⟨_, _, _, h, _⟩ => nomatch h
      rw [target] at htarget
      rw [perform, htarget, or_iff_left hnot]
      exact iff_of_eq (congrArg (· = true) (r.isSome_contents_edit _ _))
    | _ => cases htarget
  · rw [contents_perform_of_ne r htarget, or_iff_left fun h => htarget h.target]

/-- A pair has a table after a sequence of actions if it had one before, or one of the actions
registered it. -/
theorem isSome_contents_after (r : Reference) (actions : List Action) (t : TokenId)
    (o : ObjectId) :
    ((r.after actions).contents (.table (.pair t o))).isSome ↔
      (r.contents (.table (.pair t o))).isSome ∨ ∃ before action rest,
        actions = before ++ action :: rest ∧ (r.after before).Registers action t o := by
  -- Action by action: a table that is there stays, and registering makes one.
  induction actions generalizing r with
  | nil => exact (or_iff_left fun ⟨before, _, _, heq, _⟩ => by cases before <;> cases heq).symm
  | cons first actions ih =>
    rw [after, ih, isSome_contents_perform, or_assoc]
    refine or_congr_right ⟨?_, ?_⟩
    · rintro (h | ⟨before, action, rest, rfl, h⟩)
      · exact ⟨[], first, actions, rfl, h⟩
      · exact ⟨first :: before, action, rest, rfl, h⟩
    · rintro ⟨before, action, rest, heq, h⟩
      cases before with
      | nil =>
        cases heq
        exact Or.inl h
      | cons _ before =>
        cases heq
        exact Or.inr ⟨before, action, rest, rfl, h⟩

end Reference

end Enclave
