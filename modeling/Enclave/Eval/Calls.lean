import Enclave.Eval.Machine

/-!
# Calls

A call is refused when too many are unfinished already; otherwise it counts as unfinished until the
function returns or fails. A function written in a script runs its body in a new scope inside the
one it was written in, with its parameters bound to the arguments in order; missing arguments are
undefined, and spare ones are held until the function returns.
-/

namespace Enclave.Eval

/-! ### Functions and blocks -/

/-- A function written in a script, made where it is evaluated. -/
def makeFunction (unit : CompiledUnit) (definition : FunctionDef) (scope : ScopeId)
    (home : Option Home) : Eval FunctionRef :=
  onWorld (·.newFunction (definition.name.getD "") (.script ⟨unit, definition, scope, home⟩))

/-- Declares the functions among the statements of a block before any of them runs. A function
written in the body of a class has that class as its home. -/
def hoist (context : Context) : List Stmt → Eval Unit
  | [] => return ()
  | ⟨.functionDef definition, _⟩ :: rest => do
    let f ← makeFunction context.frame.unit definition context.scope context.frame.home
    changeWorld (·.declare context.scope f.name (.function f) true)
    hoist context rest
  -- only what stands in the list itself is hoisted, not what a branch may declare
  | _ :: rest => hoist context rest

/-- Runs statements in order until one returns. -/
def execAll (self : Evaluator) (context : Context) : List Stmt → Eval Flow
  | [] => return .normal
  | s :: rest => do
    match ← self.exec context s with
    -- the statements behind a return are not run
    | .returned v => return .returned v
    | .normal => execAll self context rest

/-- Runs the statements of a block in the scope of the context. -/
def execBlock (self : Evaluator) (context : Context) (body : List Stmt) : Eval Flow := do
  hoist context body
  execAll self context body

/-- A new scope inside another. -/
def newScope (parent : ScopeId) : Eval ScopeId := onWorld (·.childScope parent)

/-! ### Functions that are there from the start -/

/-- Prints the texts of its arguments on a line. -/
def print (args : List Value) : Eval Value := do
  modify fun m => { m with output := m.output ++ " ".intercalate (args.map Value.text) ++ "\n" }
  return .undefined

/-- Fails unless its first argument is truthy; the second is the message. -/
def assert (args : List Value) : Eval Value :=
  if (args.headD .undefined).isTruthy then return .undefined
  else raise (.assertion ((args.drop 1).head?.elim "assertion failed" Value.text))

/-- Makes a symbol; its argument is the description. -/
def makeSymbol (args : List Value) : Eval Value := do
  let description :=
    match args.headD .undefined with
    -- without an argument the symbol has no description
    | .undefined => none
    | v => some v.text
  return .symbol (← onWorld (·.newSymbol description))

/-- Calls the function that is its receiver, with its first argument as receiver and the others as
arguments. -/
def callReceiver (self : Evaluator) (held : List Node) (this : Value) (args : List Value) :
    Eval Value :=
  match this with
  | .function f => self.invoke (f.node :: held) f (args.headD .undefined) (args.drop 1) none
  | v => raiseType (.callReceiver v)

def runNative (self : Evaluator) (held : List Node) (n : Native) (this : Value)
    (args : List Value) : Eval Value :=
  match n with
  | .print => print args
  | .assert => assert args
  | .symbol => makeSymbol args
  | .call => callReceiver self held this args

/-! ### Functions of a script -/

/-- Binds parameters to arguments in a scope. -/
def bindParams (scope : ScopeId) : List String → List Value → Eval Unit
  | [], _ => return ()
  | name :: names, args => do
    changeWorld (·.declare scope name (args.headD .undefined) true)
    bindParams scope names (args.drop 1)

def runScript (self : Evaluator) (held : List Node) (c : Closure) (this : Value)
    (args : List Value) (construction : Option ConstructionId) : Eval Value := do
  let scope ← newScope c.scope
  bindParams scope c.definition.params args
  -- no parameter holds the arguments that are too many
  let spare := args.drop c.definition.params.length
  let context : Context := ⟨⟨c.unit, this, c.home, construction⟩, scope, nodesOf spare ++ held⟩
  match ← execBlock self context c.definition.body with
  | .returned v => return v
  | .normal => return .undefined

/-! ### Invocation -/

/-- Notes that a call has begun. -/
def enter (f : FunctionRef) (this : Value) (m : Machine) : Machine :=
  { m with depth := m.depth + 1, journal := .invoked f this :: m.journal }

/-- Notes that a call has ended. -/
def leave (f : FunctionRef) (m : Machine) : Machine :=
  { m with depth := m.depth - 1, journal := .returned f :: m.journal }

/-- Calls a function, unless too many calls are unfinished. -/
def invoke (self : Evaluator) (held : List Node) (f : FunctionRef) (this : Value)
    (args : List Value) (construction : Option ConstructionId) : Eval Value := do
  let m ← get
  if m.maxDepth ≤ m.depth then refuse (.refused f) .callDepth
  else
    modify (enter f this)
    -- the function is looked up as it was when the call began
    let body :=
      match m.world.functionAt f with
      | .native n => runNative self held n this args
      | .script c => runScript self held c this args construction
    thenAlways body (leave f)

/-- Calls a value, if it is a function. -/
def callValue (self : Evaluator) (held : List Node) (callee this : Value) (args : List Value) :
    Eval Value :=
  match callee with
  | .function f => self.invoke (f.node :: held) f this args none
  | .class c => raiseType (.classWithoutNew c)
  | v => raiseType (.notFunction v)

end Enclave.Eval
