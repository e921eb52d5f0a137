import Enclave.Error
import Enclave.Store.Association
import Enclave.Store.Lineage

/-!
# Scopes

A scope binds names to values and lies inside another scope. A name means what the nearest scope
around it binds it to. `Scopes` is the tree of all scopes ever made; a scope is older than those
inside it.
-/

namespace Enclave

/-- A scope, by its place among all scopes ever made. -/
structure ScopeId where
  index : Nat
  deriving DecidableEq, Inhabited

/-- What a name is bound to, and whether it may be assigned to. -/
structure Variable where
  value : Value
  isMutable : Bool
  deriving DecidableEq

/-- The variables of one scope, and the scope around it. -/
structure Scope where
  bound : List (String × Variable)
  parent : Option ScopeId
  deriving Inhabited

namespace Scope

def find? (s : Scope) (name : String) : Option Variable := Association.get? name s.bound

/-- Binds a name, whether it was bound before or not. -/
def put (s : Scope) (name : String) (v : Variable) : Scope :=
  { s with bound := Association.put name v s.bound }

/-- A name that was bound means its variable, and all other names mean what they did. -/
theorem find?_put (s : Scope) (name other : String) (v : Variable) :
    (s.put name v).find? other = if name = other then some v else s.find? other :=
  Association.get?_put name other v s.bound

@[simp] theorem parent_put (s : Scope) (name : String) (v : Variable) :
    (s.put name v).parent = s.parent := rfl

end Scope

/-- All scopes ever made. -/
structure Scopes where
  all : Array Scope
  deriving Inhabited

namespace Scopes

/-- A single scope without bindings or parent. -/
def root : Scopes := ⟨#[⟨[], none⟩]⟩

/-- The first scope. -/
def rootId : ScopeId := ⟨0⟩

def scopeAt (s : Scopes) (id : ScopeId) : Scope := s.all.getD id.index default

/-- A new scope inside another. -/
def child (s : Scopes) (parent : ScopeId) : ScopeId × Scopes :=
  (⟨s.all.size⟩, ⟨s.all.push ⟨[], some parent⟩⟩)

/-- The scope itself and those around it, the nearest first. -/
def path (s : Scopes) (id : ScopeId) : List ScopeId :=
  lineage (fun i => (s.scopeAt i).parent) (id.index + 1) id

/-- The nearest scope that binds a name. -/
def binder? (s : Scopes) (id : ScopeId) (name : String) : Option ScopeId :=
  (s.path id).find? fun i => ((s.scopeAt i).find? name).isSome

/-- What a name means in a scope. -/
def lookup (s : Scopes) (id : ScopeId) (name : String) : Option Value :=
  ((s.path id).findSome? fun i => (s.scopeAt i).find? name).map (·.value)

/-- Binds a name in the scope itself, hiding what it meant there before. -/
def declare (s : Scopes) (id : ScopeId) (name : String) (value : Value) (isMutable : Bool) :
    Scopes :=
  ⟨s.all.modify id.index (·.put name ⟨value, isMutable⟩)⟩

/-- The scope in which an assignment to a name takes effect: the nearest that binds it, unless it
binds a constant. -/
def assignable (s : Scopes) (id : ScopeId) (name : String) : Except RuntimeError ScopeId :=
  match s.binder? id name with
  | none => .error (.reference name)
  | some binder =>
    match (s.scopeAt binder).find? name with
    | some ⟨_, true⟩ => .ok binder
    -- a constant hides a variable further out, and no assignment gets past it
    | _ => .error (.type (.assignConstant name))

/-- Gives a new value to a name where it is bound. -/
def assign (s : Scopes) (id : ScopeId) (name : String) (value : Value) :
    Except RuntimeError Scopes :=
  (s.assignable id name).map fun binder => s.declare binder name value true

end Scopes

end Enclave
