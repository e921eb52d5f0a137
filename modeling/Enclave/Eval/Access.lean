import Enclave.Eval.Machine

/-!
# Private and static access

Every form of accessor goes through `resolve`: it takes the token of the class that the running
function was written in, never one that could be had from the target, and asks it for a table: the
table of the receiver, the table of another target, or the static table. A target that is not
registered with the token is rejected, whoever asks.

A method that is called through an accessor gets the target as its receiver. For a static method
that is the class itself, if it is still there: a function does not hold the class it was written
in.
-/

namespace Enclave.Eval

/-- The class that the running function was written in, which must be the one that the accessor is
bound to. -/
def boundHome (context : Context) (site : ExprId) : Eval Home :=
  match context.frame.home with
  | none => throw (.broken .accessorOutsideClass)
  | some home => do
    -- the binder has the class of each accessor by its site, the token has that of the home
    if context.frame.unit.bindings.classOf? site = some ((← world).tokenAt home.token).site then
      return home
    else throw (.broken .accessorOfOtherClass)

/-- The table that a token keeps for a value. -/
def instanceTable (token : TokenId) (target : Value) : Eval TableId := do
  let w ← world
  let table? :=
    match target with
    -- only objects are ever registered
    | .object o => w.lookupInstance? token o
    | _ => none
  match table? with
  | some table => noting (pure table) fun _ => .resolved token target
  | none => refuse (.rejected token target) (.privateAccess (w.tokenAt token).name target)

/-- What an accessor reaches: the table of a target, or the static table of a class. -/
inductive Access
  | ofInstance (table : TableId) (target : Value)
  | ofClass (table : TableId) (home : Home)

def Access.table : Access → TableId
  | .ofInstance table _ | .ofClass table _ => table

/-- Finds the table that an accessor means. -/
def resolve (self : Evaluator) (context : Context) (site : ExprId) (accessor : Accessor) :
    Eval Access := do
  let home ← boundHome context site
  match accessor with
  | .ofClass _ => return .ofClass ((← world).tokenAt home.token).statics home
  | .ofReceiver _ =>
    let target := context.frame.this
    return .ofInstance (← instanceTable home.token target) target
  -- the token is that of the home here too: the target has none to give
  | .ofTarget _ e =>
    let target ← self.eval context e
    return .ofInstance (← instanceTable home.token target) target

/-- Whether a class is bound to its own name in its own scope, so that the two hold each other. -/
def holdsItself (w : World) (c : ClassRef) : Bool :=
  ((w.scopes.scopeAt (w.classAt c).scope).find? c.name).map (·.value) = some (.class c)

/-- The class that a function was written in, or undefined if nothing holds it any more. -/
def classValue (context : Context) (home : Home) : Eval Value := do
  let w ← world
  -- what is held meanwhile is all that keeps a class up, besides its own binding
  if holdsItself w home.classRef || w.isAlive context.nodes home.classRef.node then
    return .class home.classRef
  else return .undefined

/-- The receiver of a method called through an accessor. -/
def receiver (context : Context) : Access → Eval Value
  | .ofInstance _ target => return target
  | .ofClass _ home => classValue context home

/-- The key of a slot. -/
def slotKey (self : Evaluator) (context : Context) : SlotKey → Eval PropertyKey
  | .named name => return .string name
  | .computed e => return (← self.eval context e).toKey

/-- The value of a slot; what is absent is undefined. -/
def getSlot (table : TableId) (key : PropertyKey) : Eval Value :=
  return (((← world).tableAt table).get? key).getD .undefined

/-- The value of a slot. The target is held while the key is evaluated. -/
def readSlot (self : Evaluator) (context : Context) (site : ExprId) (accessor : Accessor)
    (key : SlotKey) : Eval Value := do
  let access ← resolve self context site accessor
  let key ←
    match key with
    -- a name needs no evaluation, so nothing has to be held for it
    | .named name => pure (PropertyKey.string name)
    | .computed _ =>
      let target ← receiver context access
      slotKey self ((context.holding [.table access.table]).holdingValues [target]) key
  getSlot access.table key

/-- The value of a slot, and the receiver it is to be called with. -/
def readMethod (self : Evaluator) (context : Context) (site : ExprId) (accessor : Accessor)
    (key : SlotKey) : Eval (Value × Value) := do
  let access ← resolve self context site accessor
  let target ← receiver context access
  let key ← slotKey self ((context.holding [.table access.table]).holdingValues [target]) key
  return (← getSlot access.table key, target)

/-- Sets a slot. The table and the key are found before the value is evaluated. -/
def writeSlot (self : Evaluator) (context : Context) (site : ExprId) (accessor : Accessor)
    (key : SlotKey) (e : Expr) : Eval Value := do
  let table := (← resolve self context site accessor).table
  -- a target that is not registered has been rejected by now, before key and value
  let context := context.holding [.table table]
  let key ← slotKey self context key
  let value ← self.eval context e
  changeWorld (·.setSlot table key value)
  return value

/-- Deletes a slot and says whether it was there. -/
def deleteSlot (self : Evaluator) (context : Context) (site : ExprId) (accessor : Accessor)
    (key : SlotKey) : Eval Value := do
  let table := (← resolve self context site accessor).table
  let key ← slotKey self (context.holding [.table table]) key
  let isThere := ((← world).tableAt table).has key
  changeWorld (·.deleteSlot table key)
  return .bool isThere

/-- Whether a slot is there. The key has been evaluated before the target. -/
def hasSlot (self : Evaluator) (context : Context) (site : ExprId) (accessor : Accessor)
    (key : PropertyKey) : Eval Value := do
  let table := (← resolve self context site accessor).table
  return .bool (((← world).tableAt table).has key)

end Enclave.Eval
