import Enclave.Inspection
import Enclave.Store.Reclaim

/-!
# Hosts

A host works on the world directly instead of running sources. It makes objects and mints definition
tokens, registers the ones with the others, and reads and writes properties and slots. Whatever it
makes or is given it holds by a name of its choice, with separate names for objects, tokens, tables
and symbols. A table that is held by name keeps its values even after its object is gone.

After every change the world reclaims what no name holds any more.
-/

namespace Enclave

/-- Things by name. A name stands for one thing at a time. -/
structure Named (α : Type) where
  entries : List (String × α)

namespace Named

variable {α : Type}

def empty : Named α := ⟨[]⟩

def get? (x : Named α) (name : String) : Option α := Association.get? name x.entries

def has (x : Named α) (name : String) : Bool := (x.get? name).isSome

/-- Lets a name stand for a thing, whatever it stood for before. -/
def put (x : Named α) (name : String) (a : α) : Named α := ⟨Association.put name a x.entries⟩

/-- Gives up a name. -/
def erase (x : Named α) (name : String) : Named α := ⟨Association.remove name x.entries⟩

def values (x : Named α) : List α := x.entries.map (·.2)

theorem get?_put (x : Named α) (name other : String) (a : α) :
    (x.put name a).get? other = if name = other then some a else x.get? other :=
  Association.get?_put name other a x.entries

theorem get?_erase (x : Named α) (name other : String) :
    (x.erase name).get? other = if name = other then none else x.get? other :=
  Association.get?_remove name other x.entries

/-- The names of a thing in ascending order. -/
def namesOf [DecidableEq α] (x : Named α) (a : α) : List String :=
  ((x.entries.filter (·.2 = a)).map (·.1)).mergeSort

end Named

/-- A world and what is held of it. -/
structure Host where
  world : World
  objects : Named ObjectId
  tokens : Named TokenId
  tables : Named TableId
  symbols : Named Symbol

/-- Why a host cannot do something with a token. -/
inductive HostFault
  | noToken
  | noObject
  /-- The object was never registered with the token. -/
  | notRegistered
  deriving DecidableEq

/-- What has properties or slots. -/
inductive Holder
  | object (o : ObjectId)
  | table (t : TableId)

namespace Host

def empty : Host := ⟨.empty, .empty, .empty, .empty, .empty⟩

/-- Everything that is held by name. -/
def roots (h : Host) : List Node :=
  -- symbols are no nodes, and keep nothing
  h.objects.values.map .object ++ h.tokens.values.map .token ++ h.tables.values.map .table

/-- Reclaims what no name holds. -/
def settle (h : Host) : Host := { h with world := h.world.reclaim h.roots }

/-- The object or else the table of a name. -/
def holder? (h : Host) (name : String) : Option Holder :=
  match h.objects.get? name with
  | some o => some (.object o)
  | none => (h.tables.get? name).map .table

/-- The object or else the symbol of a name, as a value. -/
def value? (h : Host) (name : String) : Option Value :=
  match h.objects.get? name with
  | some o => some (.object o)
  | none => (h.symbols.get? name).map .symbol

/-! ### Making things -/

def addSymbol (h : Host) (name : String) (description : Option String) : Symbol × Host :=
  let (s, world) := h.world.newSymbol description
  (s, { h with world, symbols := h.symbols.put name s })

/-- Makes an object with the object of another name as its prototype, if there is one. -/
def addObject (h : Host) (name : String) (proto : Option String) : ObjectId × Host :=
  let (o, world) := h.world.newObject (proto.bind h.objects.get?)
  (o, settle { h with world, objects := h.objects.put name o })

def addToken (h : Host) (name : String) (site : ClassSite) (className : String) : Host :=
  let (t, world) := h.world.mintToken site className
  settle { h with world, tokens := h.tokens.put name t }

/-- Holds a table by a name. -/
def keepTable (h : Host) (name : String) (t : TableId) : Host :=
  settle { h with tables := h.tables.put name t }

def addTable (h : Host) (name : String) : Host :=
  let (t, world) := h.world.newTable
  keepTable { h with world } name t

/-- Gives up a name for objects, tables and tokens. -/
def drop (h : Host) (name : String) : Host :=
  settle { h with
    objects := h.objects.erase name
    tables := h.tables.erase name
    tokens := h.tokens.erase name }

/-! ### Tokens -/

def token (h : Host) (name : String) : Except HostFault TokenId :=
  match h.tokens.get? name with
  | some t => .ok t
  | none => .error .noToken

def object (h : Host) (name : String) : Except HostFault ObjectId :=
  match h.objects.get? name with
  | some o => .ok o
  | none => .error .noObject

/-- The table of an object with a token, an empty one if it had none. -/
def register (h : Host) (tokenName objectName : String) : Except HostFault (TableId × Host) := do
  let t ← h.token tokenName
  let o ← h.object objectName
  -- whoever registers twice gets the same table again
  let (table, world) := h.world.registerInstance t o
  return (table, { h with world })

/-- The table of an object with a token. -/
def lookup (h : Host) (tokenName objectName : String) : Except HostFault TableId := do
  let t ← h.token tokenName
  let o ← h.object objectName
  match h.world.lookupInstance? t o with
  | some table => return table
  | none => throw .notRegistered

/-- The static table of a token. -/
def statics (h : Host) (tokenName : String) : Except HostFault TableId := do
  return (h.world.tokenAt (← h.token tokenName)).statics

/-! ### Properties and slots -/

/-- Changes the world. -/
def change (h : Host) (f : World → World) : Host := settle { h with world := f h.world }

/-- Sets a property or slot. -/
def set (h : Host) (holder : Holder) (key : PropertyKey) (value : Value) : Host :=
  h.change fun w =>
    match holder with
    | .object o => w.setProperty o key value
    | .table t => w.setSlot t key value

/-- Deletes an own property or a slot. -/
def delete (h : Host) (holder : Holder) (key : PropertyKey) : Host :=
  h.change fun w =>
    match holder with
    -- only what the object has itself, never what it inherits
    | .object o => w.deleteProperty o key
    | .table t => w.deleteSlot t key

/-- The own properties or the slots of a holder. -/
def contents (h : Host) : Holder → SlotTable
  | .object o => (h.world.objectAt o).properties
  | .table t => h.world.tableAt t

end Host

/-- A definition token as it is echoed. -/
def World.tokenText (w : World) (t : TokenId) : String :=
  "DefinitionToken \x7b id: TokenId(_), name: " ++ Text.quoted (w.tokenAt t).name ++
    ", live_instances: " ++ toString (w.liveInstances t) ++ " \x7d"

end Enclave
