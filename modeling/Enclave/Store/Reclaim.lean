import Enclave.Store.Survival
import Enclave.Store.World

/-!
# Reclamation

Things in the world hold one another: a scope its values and the scope around it; an object its
prototype and the values of its properties; a function its scope, and the token and parent of the
class it was written in, but not that class itself; a class its token, prototype, parent,
constructor, private methods and scope; a token its static table; a table its values. The table of
an instance is held by its token and its object together and goes with the first of them.

What nothing holds any more goes, and only that: things that hold each other in a circle stay. When
an object goes, the tokens it was registered with vacate its entries (`World.reclaim`).
-/

namespace Enclave

/-- A thing in the world; functions and classes by their places. -/
inductive Node
  | object (o : ObjectId)
  | function (place : Nat)
  | class (place : Nat)
  | token (t : TokenId)
  | scope (s : ScopeId)
  | table (t : TableId)
  deriving DecidableEq

def FunctionRef.node (f : FunctionRef) : Node := .function f.index

def ClassRef.node (c : ClassRef) : Node := .class c.index

/-- The thing that a value refers to, if it is one. -/
def Value.node? : Value → Option Node
  | .object o => some (.object o)
  | .function f => some f.node
  | .class c => some c.node
  | _ => none

/-- The things that some values refer to. -/
def nodesOf (values : List Value) : List Node := values.filterMap Value.node?

/-! ### What holds what -/

def Home.holds (h : Home) : List Node := .token h.token :: (h.parent.map ClassRef.node).toList

def Function.holds : Function → List Node
  | .native _ => []
  | .script c => .scope c.scope :: (c.home.map Home.holds).getD []

def Class.holds (c : Class) : List Node :=
  -- the static table and the fields' values are held by way of the token
  [.token c.token, .object c.prototype, .scope c.scope] ++ (c.parent.map ClassRef.node).toList ++
    (c.constructor.map FunctionRef.node).toList ++ c.privateMethods.map (·.2.node)

def DefinitionToken.holds (t : DefinitionToken) : List Node :=
  .table t.statics :: t.instances.tables.map Node.table

def Scope.holds (s : Scope) : List Node :=
  (s.parent.map Node.scope).toList ++ nodesOf (s.bound.map (·.2.value))

def SlotTable.holds (t : SlotTable) : List Node := nodesOf t.values

namespace World

/-- An object holds its tables through its brands. -/
def objectHolds (w : World) (o : ObjectId) : List Node :=
  let object := w.objectAt o
  (object.proto.map Node.object).toList ++ object.properties.holds ++
    -- a table is held by its token as well, and needs the two of them
    object.brands.filterMap fun brand =>
      ((w.tokenAt brand.token).instances.resolve? brand.handle o).map Node.table

/-! ### The world as a graph

Nodes are numbered by kind, and within a kind by place. -/

def objectsEnd (w : World) : Nat := w.objects.size

def functionsEnd (w : World) : Nat := w.objectsEnd + w.functions.size

def classesEnd (w : World) : Nat := w.functionsEnd + w.classes.size

def tokensEnd (w : World) : Nat := w.classesEnd + w.tokens.size

def scopesEnd (w : World) : Nat := w.tokensEnd + w.scopes.all.size

def nodeCount (w : World) : Nat := w.scopesEnd + w.tables.size

/-- The number of a node. -/
def nodeNumber (w : World) : Node → Nat
  | .object o => o.index
  | .function place => w.objectsEnd + place
  | .class place => w.functionsEnd + place
  | .token t => w.classesEnd + t.index
  | .scope s => w.tokensEnd + s.index
  | .table t => w.scopesEnd + t.index

/-- The node with a number. -/
def nodeAt (w : World) (n : Nat) : Node :=
  if n < w.objectsEnd then .object ⟨n⟩
  else if n < w.functionsEnd then .function (n - w.objectsEnd)
  else if n < w.classesEnd then .class (n - w.functionsEnd)
  else if n < w.tokensEnd then .token ⟨n - w.classesEnd⟩
  else if n < w.scopesEnd then .scope ⟨n - w.tokensEnd⟩
  else .table ⟨n - w.scopesEnd⟩

/-- What a node holds. -/
def heldBy (w : World) : Node → List Node
  | .object o => w.objectHolds o
  | .function place => (w.functions.getD place default).holds
  | .class place => (w.classes.getD place default).holds
  | .token t => (w.tokenAt t).holds
  | .scope s => (w.scopes.scopeAt s).holds
  | .table t => (w.tableAt t).holds

/-- Who holds what in the world, given the things that are held from outside. -/
def graph (w : World) (roots : List Node) : Graph :=
  let rootNumbers := roots.map w.nodeNumber
  let isRoot := rootNumbers.foldl (fun marks n => marks.setIfInBounds n true)
    (Array.replicate w.nodeCount false)
  { size := w.nodeCount
    successors := fun n => (w.heldBy (w.nodeAt n)).map w.nodeNumber
    -- the tables are the nodes with the greatest numbers
    isJoint := fun n => w.scopesEnd ≤ n
    isRoot := fun n => isRoot.getD n false }

/-- Whether a thing is still there, given the things that are held from outside. -/
def isAlive (w : World) (roots : List Node) (n : Node) : Bool :=
  Graph.survives (w.graph roots).remaining (w.nodeNumber n)

/-! ### Letting go -/

/-- Vacates the entries of an object that is gone. -/
def releaseObject (w : World) (o : ObjectId) : World :=
  let brands := (w.objectAt o).brands
  let w := brands.foldl
    (fun w brand => w.updateInstances brand.token (·.remove brand.handle)) w
  -- nothing leads to its tables from the object any more
  w.updateObject o fun object => { object with brands := [] }

/-- Lets go of everything that neither the roots hold nor something that stays. -/
def reclaim (w : World) (roots : List Node) : World :=
  let remaining := (w.graph roots).remaining
  let survives (n : Node) := Graph.survives remaining (w.nodeNumber n)
  -- only what is registered somewhere has anything to vacate
  let gone := ((List.range w.objects.size).map ObjectId.mk).filter fun o =>
    !(w.objectAt o).brands.isEmpty && !survives (.object o)
  gone.foldl releaseObject w

end World

end Enclave
