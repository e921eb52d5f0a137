import Enclave.Error
import Enclave.Store.Reclaim

/-!
# Running programs

What a run works on and what it may end with.

The `Machine` is everything a run changes: the world, the depth of calls, what has been printed, and
a journal of what happened to classes, instances and calls. A piece of a run is an `Eval`: it
changes the machine and either gives a value or stops. Of the ways to stop a script can catch one,
an error it raised (`Stop.raised`). A run is `Stop.broken` if it evaluates something that binding
has ruled out, and `Stop.exhausted` if it has used up the steps it was given.

A `Context` is where an expression or statement is evaluated: the running function, the scope, and
the things that are held meanwhile by evaluations that are not finished.
-/

namespace Enclave

/-- A derived constructor that has not returned yet, by its place among all of them. -/
structure ConstructionId where
  index : Nat
  deriving DecidableEq, Inhabited

/-- What a derived constructor is at: its class, the instance, and whether it has called the
parent's constructor. -/
structure Construction where
  classRef : ClassRef
  inst : ObjectId
  superCalled : Bool
  deriving Inhabited

/-- What the running function sees besides its variables. -/
structure Frame where
  unit : CompiledUnit
  this : Value
  home : Option Home
  construction : Option ConstructionId

/-- Something that happened during a run. -/
inductive Event
  /-- A class definition was evaluated. -/
  | minted (token : TokenId) (c : ClassRef)
  /-- An instance was allocated. -/
  | constructing (c : ClassRef) (inst : ObjectId)
  | registered (token : TokenId) (inst : ObjectId)
  /-- The instance was handed out. -/
  | constructed (c : ClassRef) (inst : ObjectId)
  | initializing (c : ClassRef) (inst : ObjectId)
  | initialized (c : ClassRef) (inst : ObjectId)
  /-- A class began to set up its private members of an instance. -/
  | installing (c : ClassRef) (inst : ObjectId)
  | methodStored (c : ClassRef) (inst : ObjectId) (name : String)
  | fieldStarted (c : ClassRef) (inst : ObjectId) (name : String)
  | fieldStored (c : ClassRef) (inst : ObjectId) (name : String)
  | installed (c : ClassRef) (inst : ObjectId)
  /-- The constructor of a class began to hand over to the parent. -/
  | superCalled (c : ClassRef) (inst : ObjectId)
  | superReturned (c : ClassRef) (inst : ObjectId)
  /-- An accessor reached the table that a token keeps for its target. -/
  | resolved (token : TokenId) (target : Value)
  /-- An accessor's target was not registered with the token. -/
  | rejected (token : TokenId) (target : Value)
  | invoked (f : FunctionRef) (receiver : Value)
  | returned (f : FunctionRef)
  /-- A call was refused for being too deep. -/
  | refused (f : FunctionRef)
  deriving DecidableEq

/-- Everything a run changes. -/
structure Machine where
  world : World
  constructions : Array Construction
  /-- Calls that have not returned. -/
  depth : Nat
  /-- The greatest number of calls that may be unfinished at once. -/
  maxDepth : Nat
  output : String
  /-- What happened, the latest first. -/
  journal : List Event
  /-- The function behind `f.call`. -/
  callFunction : FunctionRef

/-- What binding rules out. -/
inductive Fault
  | accessorOutsideClass
  | accessorOfOtherClass
  | superOutsideClass
  | superCallOutsideConstructor
  | noParent
  | deleteOfValue
  | invalidTarget
  deriving DecidableEq

/-- Why a run stopped without a value. -/
inductive Stop
  | raised (e : RuntimeError)
  | broken (f : Fault)
  | exhausted
  deriving DecidableEq

/-- A piece of a run. -/
abbrev Eval := EStateM Stop Machine

namespace Eval

/-- Fails with an error that a script can catch. -/
def raise {α : Type} (e : RuntimeError) : Eval α := throw (.raised e)

/-- Fails with an error about the type of a value. -/
def raiseType {α : Type} (fault : TypeFault) : Eval α := raise (.type fault)

def world : Eval World := return (← get).world

/-- Changes the world and takes something from the change. -/
def onWorld {α : Type} (f : World → α × World) : Eval α :=
  modifyGet fun m =>
    let (a, world) := f m.world
    (a, { m with world })

def changeWorld (f : World → World) : Eval Unit := modify fun m => { m with world := f m.world }

/-! #### Notes

A note goes with the operation that it is about: nothing but the three functions below writes into
the journal, besides what changes the machine and its journal at once. -/

def record (e : Event) : Eval Unit := modify fun m => { m with journal := e :: m.journal }

/-- Runs a piece and, if it comes through, notes what has been done. -/
def noting {α : Type} (x : Eval α) (e : α → Event) : Eval α := do
  let a ← x
  record (e a)
  return a

/-- Notes that a piece begins, and runs it. -/
def opening {α : Type} (e : Event) (x : Eval α) : Eval α := do
  record e
  x

/-- Notes that something is refused, and fails with an error that a script can catch. -/
def refuse {α : Type} (note : Event) (e : RuntimeError) : Eval α := do
  record note
  raise e

/-- Runs a piece and catches the error it raises, if it raises one. -/
def catching {α : Type} (x : Eval α) : Eval (Except RuntimeError α) := fun m =>
  match x m with
  | .ok a m => .ok (.ok a) m
  | .error (.raised e) m => .ok (.error e) m
  -- faults and exhaustion are not for scripts to handle
  | .error stop m => .error stop m

/-- Runs a piece and then changes the machine, however the piece ends. -/
def thenAlways {α : Type} (x : Eval α) (f : Machine → Machine) : Eval α := fun m =>
  match x m with
  | .ok a m => .ok a (f m)
  | .error stop m => .error stop (f m)

end Eval

/-- Where something is evaluated. -/
structure Context where
  frame : Frame
  scope : ScopeId
  /-- What unfinished evaluations hold. -/
  held : List Node

namespace Context

/-- The context with some more things held. -/
def holding (c : Context) (nodes : List Node) : Context := { c with held := nodes ++ c.held }

/-- The context with some values held. -/
def holdingValues (c : Context) (values : List Value) : Context := c.holding (nodesOf values)

/-- The context in another scope of the same function. -/
def within (c : Context) (scope : ScopeId) : Context := { c with scope }

/-- Everything that is held while something is evaluated in the context. -/
def nodes (c : Context) : List Node :=
  -- the scope holds what the running function can name
  .scope c.scope :: (nodesOf [c.frame.this] ++ (c.frame.home.map Home.holds).getD [] ++ c.held)

end Context

/-- How a statement ends: normally, or by returning a value from the function around it. -/
inductive Flow
  | normal
  | returned (v : Value)

/-- What evaluates the parts of a construct: expressions, statements, and calls of functions with
things held, receiver, arguments and, for a derived constructor, its construction. -/
structure Evaluator where
  eval : Context → Expr → Eval Value
  exec : Context → Stmt → Eval Flow
  invoke : List Node → FunctionRef → Value → List Value → Option ConstructionId → Eval Value
  /-- How many rounds a loop may make. -/
  rounds : Nat

/-- The value of an expression that may be left out. -/
def Eval.evalOptional (self : Evaluator) (context : Context) : Option Expr → Eval Value
  | some e => self.eval context e
  | none => return .undefined

end Enclave
