import Enclave.Eval.Evaluator
import Enclave.Inspection

/-!
# Sessions

A session runs sources one after another on one machine. Global variables last from one to the next.
When an operation has returned, everything is reclaimed that neither the globals nor the result
hold.
-/

namespace Enclave

/-- How sources are run. -/
structure Settings where
  /-- The greatest number of calls that may be unfinished at once. -/
  maxDepth : Nat
  /-- Whether the values of interactive inputs are printed. -/
  echoResults : Bool

def Settings.default : Settings := ⟨128, true⟩

/-- How an operation ends. -/
inductive Outcome
  | value (v : Value)
  /-- The source was rejected and nothing of it ran. -/
  | rejected (e : CompileError)
  | failed (e : RuntimeError)
  | broken (f : Fault)
  | exhausted

/-- The values that an outcome holds. -/
def Outcome.values : Outcome → List Value
  | .value v | .failed (.thrown v) => [v]
  | _ => []

/-- The machine on which sources are run. -/
structure Session where
  machine : Machine

/-- What the user is told about an error, if it is one. -/
def Outcome.diagnosis? (source : List UInt8) : Outcome → Option String
  | .rejected e => some (e.diagnosis source)
  | .failed e => some ("Runtime error: " ++ e.text)
  | .value _ | .broken _ | .exhausted => none

namespace Session

/-! ### Starting -/

/-- Declares a function that is there from the start as a global constant. -/
def addBuiltin (w : World) (name : String) (n : Native) : World :=
  let (f, w) := w.newFunction name (.native n)
  w.declare Scopes.rootId name (.function f) false

/-- The world before any source has run. -/
def initialWorld : World :=
  addBuiltin (addBuiltin (addBuiltin .empty "print" .print) "assert" .assert) "Symbol" .symbol

/-- A session in which no source has run. -/
def start (maxDepth : Nat) : Session :=
  -- the function behind `f.call` has no name in the global scope
  let (callFunction, world) := initialWorld.newFunction "call" (.native .call)
  ⟨{ world, constructions := #[], depth := 0, maxDepth, output := "", journal := [], callFunction }⟩

/-! ### Operations -/

/-- How many steps an operation may take, far beyond what any machine has time for. -/
def steps : Nat := 1000000000000000000

/-- Reclaims what neither the globals nor the given values hold. -/
def settle (s : Session) (held : List Value) : Session :=
  let m := s.machine
  -- the global scope is always held
  ⟨{ m with world := m.world.reclaim (.scope Scopes.rootId :: nodesOf held) }⟩

/-- The session when the result of the last operation is not held any more. -/
def rest (s : Session) : Session := s.settle []

/-- Runs something and reclaims what is not held any more. -/
def perform (s : Session) (x : Eval Value) : Outcome × Session :=
  let (outcome, m) : Outcome × Machine :=
    match x s.machine with
    | .ok v m => (.value v, m)
    | .error (.raised e) m => (.failed e, m)
    | .error (.broken f) m => (.broken f, m)
    | .error .exhausted m => (.exhausted, m)
  -- what the outcome holds has to outlast the reclaim
  (outcome, (Session.mk m).settle outcome.values)

/-- Runs a unit that has been compiled. -/
def runUnit (s : Session) (unit : CompiledUnit) : Outcome × Session :=
  s.perform (Eval.runUnit (evaluator steps) unit)

/-- Compiles a source and runs it. -/
def run (s : Session) (source : List UInt8) : Outcome × Session :=
  match compile source with
  | .ok unit => s.runUnit unit
  -- a source that is rejected does not touch the machine
  | .error e => (.rejected e, s)

/-- Calls a value with a receiver and arguments. -/
def call (s : Session) (callee this : Value) (args : List Value) : Outcome × Session :=
  s.perform (Eval.callValue (evaluator steps) [.scope Scopes.rootId] callee this args)

/-- The value of a global variable. -/
def global? (s : Session) (name : String) : Option Value :=
  s.machine.world.scopes.lookup Scopes.rootId name

/-- The text printed since it was last taken. -/
def takeOutput (s : Session) : String × Session :=
  let m := s.machine
  (m.output, ⟨{ m with output := "" }⟩)

/-- The table that a class keeps for an object. -/
def tableOf? (s : Session) (o : ObjectId) (c : ClassRef) : Option SlotTable :=
  let w := s.machine.world
  (w.lookupInstance? (w.classAt c).token o).map w.tableAt

/-- The number of living instances of a class. -/
def liveInstances (s : Session) (c : ClassRef) : Nat :=
  let w := s.machine.world
  w.liveInstances (w.classAt c).token

/-- Shows a value. -/
def inspect (s : Session) (v : Value) : Inspection := s.machine.world.inspect v

/-- Shows what a table holds. -/
def inspectTable (s : Session) (t : SlotTable) : List (PropertyKey × Inspection) :=
  s.machine.world.inspectTable t

end Session

end Enclave
