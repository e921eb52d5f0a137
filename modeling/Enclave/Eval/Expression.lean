import Enclave.Eval.Access
import Enclave.Eval.ClassDefinition
import Enclave.Eval.Construction
import Enclave.Eval.Operators

/-!
# Expressions

One step of evaluating an expression, by its form. Operands are evaluated from left to right, and
what has been evaluated is held until the step is done.
-/

namespace Enclave.Eval

/-- The values of arguments in order. -/
def evalArgs (self : Evaluator) (context : Context) : List Expr → Eval (List Value)
  | [] => return []
  | e :: rest => do
    let v ← self.eval context e
    return v :: (← evalArgs self (context.holdingValues [v]) rest)

/-- Evaluates the properties of an object literal and stores each before the next. -/
def storeProperties (self : Evaluator) (context : Context) (o : ObjectId) :
    List Property → Eval Unit
  | [] => return ()
  | ⟨name, e⟩ :: rest => do
    let value ← self.eval context e
    changeWorld (·.setProperty o (.string name) value)
    storeProperties self context o rest

/-- An object literal. -/
def objectLiteral (self : Evaluator) (context : Context) (properties : List Property) :
    Eval Value := do
  let o ← onWorld (·.newObject none)
  -- nothing in the script can name the object yet, so it has to be held
  storeProperties self (context.holding [.object o]) o properties
  return .object o

/-- What a name means. -/
def readName (context : Context) (name : String) : Eval Value := do
  match (← world).scopes.lookup context.scope name with
  | some v => return v
  | none => raise (.reference name)

/-- Gives a name a new value where it is bound. -/
def writeName (context : Context) (name : String) (value : Value) : Eval Unit := do
  match (← world).scopes.assignable context.scope name with
  -- to declare the name again where it is bound is to assign to it
  | .ok binder => changeWorld (·.declare binder name value true)
  | .error e => raise e

/-- The two operands of an index: a value, and the key that the other one stands for. -/
def indexed (self : Evaluator) (context : Context) (e key : Expr) : Eval (Value × PropertyKey) := do
  let v ← self.eval context e
  let key ← self.eval (context.holdingValues [v]) key
  return (v, key.toKey)

/-- Deletes what an expression denotes. -/
def deleteTarget (self : Evaluator) (context : Context) (operand : Expr) : Eval Value := do
  match operand.form with
  | .member e name => deleteMember (← self.eval context e) (.string name)
  | .index e key =>
    let (v, key) ← indexed self context e key
    deleteMember v key
  | .slot accessor key => deleteSlot self context operand.id accessor key
  | _ => throw (.broken .deleteOfValue)

/-- The type of an operand; a name that means nothing is undefined. -/
def typeOf (self : Evaluator) (context : Context) (operand : Expr) : Eval Value := do
  let isUnknown ←
    match operand.form with
    | .ident name => pure ((← world).scopes.lookup context.scope name).isNone
    | _ => pure false
  -- a name is asked about without being read, which would fail
  if isUnknown then return .string "undefined"
  else return .string (← self.eval context operand).typeName

/-- A unary operator. -/
def unary (self : Evaluator) (context : Context) (op : UnaryOp) (operand : Expr) : Eval Value :=
  match op with
  | .delete => deleteTarget self context operand
  | .typeof => typeOf self context operand
  | .not => do return .bool (!(← self.eval context operand).isTruthy)
  | .negate => do negated (← self.eval context operand)

/-- Whether the left operand of a logical operator already decides it. -/
def decides (op : LogicalOp) (left : Value) : Bool :=
  match op with
  | .and => !left.isTruthy
  | .or => left.isTruthy

/-- Assigns to what an expression denotes. The target is evaluated before the value, except that a
name has nothing to evaluate. -/
def assign (self : Evaluator) (context : Context) (target e : Expr) : Eval Value := do
  match target.form with
  | .ident name =>
    -- what the name is bound to is looked up after the value is there
    let value ← self.eval context e
    writeName context name value
    return value
  | .member object name =>
    let object ← self.eval context object
    let value ← self.eval (context.holdingValues [object]) e
    setMember object (.string name) value
    return value
  | .index object key =>
    let (object, key) ← indexed self context object key
    let value ← self.eval (context.holdingValues [object]) e
    setMember object key value
    return value
  | .slot accessor key => writeSlot self context target.id accessor key e
  | _ => throw (.broken .invalidTarget)

/-- A member of the prototype of the parent class of the running function's home. -/
def superMember (context : Context) (name : String) : Eval Value := do
  match context.frame.home.bind (·.parent) with
  | none => throw (.broken .superOutsideClass)
  | some parent =>
    -- it starts at the prototype of the parent, whatever the receiver is
    let w ← world
    return (w.getProperty? (w.classAt parent).prototype (.string name)).getD .undefined

/-- The function that a callee denotes, and the receiver it is to be called with. -/
def calleeOf (self : Evaluator) (context : Context) (callee : Expr) : Eval (Value × Value) := do
  match callee.form with
  | .member e name =>
    let object ← self.eval context e
    return (← getMember object (.string name), object)
  | .index e key =>
    let (object, key) ← indexed self context e key
    return (← getMember object key, object)
  | .slot accessor key => readMethod self context callee.id accessor key
  -- a method of the parent is called on the same receiver
  | .superMember _ => return (← self.eval context callee, context.frame.this)
  -- any other callee has no receiver
  | _ => return (← self.eval context callee, .undefined)

/-- A call: callee and receiver, then the arguments, then the call itself. -/
def call (self : Evaluator) (context : Context) (callee : Expr) (args : List Expr) :
    Eval Value := do
  let (f, this) ← calleeOf self context callee
  let context := context.holdingValues [f, this]
  let args ← evalArgs self context args
  callValue self context.nodes f this args

/-- A construction: the class, then the arguments, then the instance. -/
def new (self : Evaluator) (context : Context) (callee : Expr) (args : List Expr) :
    Eval Value := do
  let callee ← self.eval context callee
  -- the arguments are evaluated even if there is no class to construct
  let args ← evalArgs self (context.holdingValues [callee]) args
  match callee with
  | .class c => construct self context.nodes c args
  | v => raiseType (.notConstructor v)

/-- Evaluates an expression, its parts by `self`. -/
def evalExpr (self : Evaluator) (context : Context) (e : Expr) : Eval Value := do
  match e.form with
  | .number n => return .number n
  | .string s => return .string s
  | .bool b => return .bool b
  | .null => return .null
  | .undefined => return .undefined
  | .ident name => readName context name
  | .this => return context.frame.this
  | .object properties => objectLiteral self context properties
  | .functionDef definition =>
    return .function
      (← makeFunction context.frame.unit definition context.scope context.frame.home)
  | .classDef definition => return .class (← defineClass self context definition)
  | .unary op operand => unary self context op operand
  | .binary op left right =>
    let left ← self.eval context left
    let right ← self.eval (context.holdingValues [left]) right
    binary op left right
  | .logical op left right =>
    let left ← self.eval context left
    if decides op left then return left
    else self.eval (context.holdingValues [left]) right
  | .assign target value => assign self context target value
  | .member object name => getMember (← self.eval context object) (.string name)
  | .index object key =>
    let (object, key) ← indexed self context object key
    getMember object key
  | .call callee args => call self context callee args
  | .new callee args => new self context callee args
  | .slot accessor key => readSlot self context e.id accessor key
  -- the key comes first, as it is written first
  | .hasSlot key accessor =>
    let key := (← self.eval context key).toKey
    hasSlot self context e.id accessor key
  | .superCall args =>
    superCall self context (← evalArgs self context args)
    return .undefined
  | .superMember name => superMember context name

end Enclave.Eval
