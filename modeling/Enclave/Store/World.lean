import Enclave.CompiledUnit
import Enclave.Store.InstanceArena
import Enclave.Store.Scope
import Enclave.Store.SlotTable

/-!
# The world

Everything a script has made: objects, functions, classes, definition tokens, scopes and slot
tables. Each has a place that is never used again.

Every evaluation of a class definition mints a *definition token*. The token keeps the static table
of the class and, in an arena, a table for each object registered with it. An object remembers
where, in its *brands*. Nothing else leads from an object to a table, so who has no hold of the
token has none of the tables.
-/

namespace Enclave

/-- A definition token, by its place among all tokens ever minted. -/
structure TokenId where
  index : Nat
  deriving DecidableEq, Inhabited

/-- Where a token keeps the table of the object that bears the brand. -/
structure Brand where
  token : TokenId
  handle : Handle
  deriving DecidableEq

/-- Public properties, the object they are looked up in next, and brands. -/
structure Object where
  proto : Option ObjectId
  properties : SlotTable
  brands : List Brand
  deriving Inhabited

/-- The class a function was written in: its token, the class itself, and its parent. -/
structure Home where
  token : TokenId
  classRef : ClassRef
  parent : Option ClassRef
  deriving Inhabited

/-- A function written in a script, with the scope and the class it was written in. -/
structure Closure where
  unit : CompiledUnit
  definition : FunctionDef
  scope : ScopeId
  home : Option Home

/-- The functions that are there from the start. -/
inductive Native
  | print | assert | symbol | call
  deriving DecidableEq

inductive Function
  | native (n : Native)
  | script (c : Closure)

instance : Inhabited Function := ⟨.native .print⟩

/-- A private field of instances; without an initializer it starts out undefined. -/
structure Field where
  name : String
  initializer : Option Expr

structure Class where
  site : ClassSite
  token : TokenId
  prototype : ObjectId
  parent : Option ClassRef
  constructor : Option FunctionRef
  privateMethods : List (String × FunctionRef)
  fields : List Field
  unit : CompiledUnit
  scope : ScopeId
  deriving Inhabited

/-- What belongs to a token: the class body it was minted for, the name of the class, its static
table, and the tables of its instances. -/
structure DefinitionToken where
  site : ClassSite
  name : String
  statics : TableId
  instances : InstanceArena
  deriving Inhabited

/-- Everything ever made, each kind in order. -/
structure World where
  objects : Array Object
  functions : Array Function
  classes : Array Class
  tokens : Array DefinitionToken
  scopes : Scopes
  tables : Array SlotTable
  /-- The number of symbols made. -/
  symbols : Nat
  deriving Inhabited

namespace World

/-- Nothing but a scope without variables. -/
def empty : World := ⟨#[], #[], #[], #[], .root, #[], 0⟩

/-! ### Objects -/

def objectAt (w : World) (o : ObjectId) : Object := w.objects.getD o.index default

def updateObject (w : World) (o : ObjectId) (f : Object → Object) : World :=
  { w with objects := w.objects.modify o.index f }

/-- A new object without properties. -/
def newObject (w : World) (proto : Option ObjectId) : ObjectId × World :=
  (⟨w.objects.size⟩, { w with objects := w.objects.push ⟨proto, .empty, []⟩ })

/-- An object and those its properties are looked up in after it. -/
def protoChain (w : World) (o : ObjectId) : List ObjectId :=
  lineage (fun o => (w.objectAt o).proto) (o.index + 1) o

def getOwn? (w : World) (o : ObjectId) (key : PropertyKey) : Option Value :=
  (w.objectAt o).properties.get? key

/-- The value of a property in the first object that has it. -/
def getProperty? (w : World) (o : ObjectId) (key : PropertyKey) : Option Value :=
  -- nearest first, so that an object hides what is behind it
  (w.protoChain o).findSome? fun o => w.getOwn? o key

def hasProperty (w : World) (o : ObjectId) (key : PropertyKey) : Bool :=
  (w.protoChain o).any fun o => (w.objectAt o).properties.has key

/-- Sets a property of the object itself. -/
def setProperty (w : World) (o : ObjectId) (key : PropertyKey) (value : Value) : World :=
  w.updateObject o fun object => { object with properties := object.properties.set key value }

/-- Deletes a property of the object itself. -/
def deleteProperty (w : World) (o : ObjectId) (key : PropertyKey) : World :=
  w.updateObject o fun object => { object with properties := object.properties.delete key }

/-! ### Functions and classes -/

def functionAt (w : World) (f : FunctionRef) : Function := w.functions.getD f.index default

def newFunction (w : World) (name : String) (f : Function) : FunctionRef × World :=
  (⟨w.functions.size, name⟩, { w with functions := w.functions.push f })

def classAt (w : World) (c : ClassRef) : Class := w.classes.getD c.index default

/-- The class that will be made next. -/
def nextClass (w : World) (name : String) : ClassRef := ⟨w.classes.size, name⟩

def addClass (w : World) (c : Class) : World := { w with classes := w.classes.push c }

/-- A class and its ancestors, itself first. -/
def classChain (w : World) (c : ClassRef) : List ClassRef :=
  lineage (fun c => (w.classAt c).parent) (c.index + 1) c

/-! ### Slot tables -/

def tableAt (w : World) (t : TableId) : SlotTable := w.tables.getD t.index default

def newTable (w : World) : TableId × World :=
  (⟨w.tables.size⟩, { w with tables := w.tables.push .empty })

def setSlot (w : World) (t : TableId) (key : PropertyKey) (value : Value) : World :=
  { w with tables := w.tables.modify t.index (·.set key value) }

def deleteSlot (w : World) (t : TableId) (key : PropertyKey) : World :=
  { w with tables := w.tables.modify t.index (·.delete key) }

/-! ### Definition tokens -/

def tokenAt (w : World) (t : TokenId) : DefinitionToken := w.tokens.getD t.index default

def updateInstances (w : World) (t : TokenId) (f : InstanceArena → InstanceArena) : World :=
  { w with tokens := w.tokens.modify t.index fun d => { d with instances := f d.instances } }

/-- A new token with an empty static table and no instances. -/
def mintToken (w : World) (site : ClassSite) (name : String) : TokenId × World :=
  -- the static table comes with the token, before there is a class
  let (statics, w) := w.newTable
  (⟨w.tokens.size⟩, { w with tokens := w.tokens.push ⟨site, name, statics, .empty⟩ })

/-- The brand that an object bears of a token. -/
def brand? (w : World) (t : TokenId) (o : ObjectId) : Option Brand :=
  (w.objectAt o).brands.find? (·.token = t)

/-- The table that a token keeps for an object. -/
def lookupInstance? (w : World) (t : TokenId) (o : ObjectId) : Option TableId :=
  (w.brand? t o).bind fun brand => (w.tokenAt t).instances.resolve? brand.handle o

/-- The table that a token keeps for an object, after giving it an empty one if it had none. -/
def registerInstance (w : World) (t : TokenId) (o : ObjectId) : TableId × World :=
  match w.lookupInstance? t o with
  | some table => (table, w)
  | none =>
    let (table, w) := w.newTable
    -- the handle is taken before the place is filled
    let handle := (w.tokenAt t).instances.nextHandle
    let w := w.updateInstances t (·.insert o table)
    -- a brand that has gone stale is replaced
    (table, w.updateObject o fun object =>
      { object with brands := object.brands.filter (·.token ≠ t) ++ [⟨t, handle⟩] })

/-- The number of living objects registered with a token. -/
def liveInstances (w : World) (t : TokenId) : Nat := (w.tokenAt t).instances.live

/-! ### Scopes and symbols -/

/-- A new scope inside another. -/
def childScope (w : World) (parent : ScopeId) : ScopeId × World :=
  let (id, scopes) := w.scopes.child parent
  (id, { w with scopes })

def declare (w : World) (s : ScopeId) (name : String) (value : Value) (isMutable : Bool) : World :=
  { w with scopes := w.scopes.declare s name value isMutable }

/-- A symbol unlike all before. -/
def newSymbol (w : World) (description : Option String) : Symbol × World :=
  (⟨w.symbols, description⟩, { w with symbols := w.symbols + 1 })

end World

end Enclave
