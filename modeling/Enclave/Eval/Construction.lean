import Enclave.Eval.Calls

/-!
# Construction

`new` allocates an instance and registers it with the tokens of its class and of every ancestor
before any code of the script runs. Then the instance is initialized from the base of the chain on:
a class installs its private methods, evaluates its private fields in order, and after that runs the
body of its constructor. A derived constructor hands over to the parent by `super(...)`, and the
private members of its own class are installed as soon as that call is done. A derived class without
a constructor initializes its parent with the same arguments and then installs its own members.
-/

namespace Enclave.Eval

/-- Stores the private methods of a class in the table of an instance. -/
def storeMethods (c : ClassRef) (inst : ObjectId) (table : TableId) :
    List (String × FunctionRef) → Eval Unit
  | [] => return ()
  | (name, f) :: rest => do
    noting (changeWorld (·.setSlot table (.string name) (.function f)))
      fun _ => .methodStored c inst name
    storeMethods c inst table rest

/-- Evaluates a field of a class and stores its value in the table of an instance. -/
def storeField (self : Evaluator) (context : Context) (c : ClassRef) (inst : ObjectId)
    (table : TableId) (field : Field) : Eval Unit :=
  opening (.fieldStarted c inst field.name) do
    let value ← evalOptional self context field.initializer
    noting (changeWorld (·.setSlot table (.string field.name) value))
      fun _ => .fieldStored c inst field.name

/-- Evaluates the fields of a class in order and stores each before the next. -/
def storeFields (self : Evaluator) (context : Context) (c : ClassRef) (inst : ObjectId)
    (table : TableId) : List Field → Eval Unit
  | [] => return ()
  | field :: rest => do
    storeField self context c inst table field
    storeFields self context c inst table rest

/-- Where the initializers of a class are evaluated. -/
def initializerContext (held : List Node) (c : ClassRef) (d : Class) (this : Value) : Context :=
  ⟨⟨d.unit, this, some ⟨d.token, c, d.parent⟩, none⟩, d.scope, held⟩

/-- Stores the private members that a class declares: first the methods, then the fields in order.
A name declared twice keeps the value stored last. -/
def storePrivate (self : Evaluator) (held : List Node) (c : ClassRef) (inst : ObjectId) :
    Eval Unit := do
  let d := (← world).classAt c
  -- the table is there since the instance was allocated, and is found again
  let table ← noting (onWorld (·.registerInstance d.token inst)) fun _ => .installing c inst
  storeMethods c inst table d.privateMethods
  storeFields self (initializerContext (.table table :: held) c d (.object inst)) c inst table
    d.fields

/-- Sets up the private members of a class in an instance. -/
def installPrivate (self : Evaluator) (held : List Node) (c : ClassRef) (inst : ObjectId) :
    Eval Unit :=
  noting (storePrivate self held c inst) fun _ => .installed c inst

/-- A new derived constructor at work. -/
def newConstruction (c : ClassRef) (inst : ObjectId) : Eval ConstructionId :=
  modifyGet fun m =>
    (⟨m.constructions.size⟩, { m with constructions := m.constructions.push ⟨c, inst, false⟩ })

def constructionAt (id : ConstructionId) : Eval Construction :=
  return (← get).constructions.getD id.index default

/-- Notes that the parent's constructor has been called. -/
def markSuperCalled (id : ConstructionId) : Eval Unit :=
  modify fun m =>
    let construction := m.constructions.getD id.index default
    { m with
      constructions := m.constructions.modify id.index ({ · with superCalled := true })
      journal := .superCalled construction.classRef construction.inst :: m.journal }

/-- Initializes an instance as one of the first class of a chain. -/
def initializeAs (self : Evaluator) (held : List Node) (inst : ObjectId) (args : List Value) :
    (chain : List ClassRef) → Eval Unit
  | [] => throw (.broken .noParent)
  | c :: ancestors =>
    opening (.initializing c inst) <| noting (do
      let d := (← world).classAt c
      match d.parent, d.constructor with
      -- a base class installs its members before its constructor runs
      | none, none => installPrivate self (nodesOf args ++ held) c inst
      | none, some f =>
        installPrivate self (nodesOf args ++ held) c inst
        let _ ← self.invoke held f (.object inst) args none
      -- without a constructor, the arguments go to the parent
      | some _, none =>
        initializeAs self held inst args ancestors
        installPrivate self held c inst
      -- otherwise the constructor has to call `super`, which installs the members
      | some _, some f =>
        let construction ← newConstruction c inst
        let _ ← self.invoke held f (.object inst) args (some construction)
        if !(← constructionAt construction).superCalled then
          raiseType (.superMissing c.name))
      fun _ => .initialized c inst

/-- `super(...)`: initializes the instance as one of the parent, then installs the private members
of the class itself. -/
def superCall (self : Evaluator) (context : Context) (args : List Value) : Eval Unit := do
  match context.frame.construction with
  | none => throw (.broken .superCallOutsideConstructor)
  | some id =>
    let construction ← constructionAt id
    if construction.superCalled then raiseType .superTwice
    -- marked before the parent is initialized, so that a call from in there is a second one
    markSuperCalled id
    noting (do
      let ancestors := ((← world).classChain construction.classRef).drop 1
      initializeAs self context.nodes construction.inst args ancestors
      installPrivate self context.nodes construction.classRef construction.inst)
      fun _ => .superReturned construction.classRef construction.inst

/-- Registers an instance with the tokens of some classes. -/
def registerAll (inst : ObjectId) : List ClassRef → Eval Unit
  | [] => return ()
  | c :: rest => do
    let token := ((← world).classAt c).token
    let _ ← noting (onWorld (·.registerInstance token inst)) fun _ => .registered token inst
    registerAll inst rest

/-- Allocates an instance of a class and registers it with the tokens of the class and of every
ancestor. -/
def allocate (c : ClassRef) : Eval ObjectId := do
  let d := (← world).classAt c
  let inst ← noting (onWorld (·.newObject (some d.prototype))) (.constructing c ·)
  -- every table is empty before any code can look for it
  registerAll inst ((← world).classChain c)
  return inst

/-- `new`: allocates an instance of a class and initializes it. -/
def construct (self : Evaluator) (held : List Node) (c : ClassRef) (args : List Value) :
    Eval Value := do
  let inst ← allocate c
  let chain := (← world).classChain c
  -- the value of the constructor is dropped: `new` gives the instance
  noting (initializeAs self (.object inst :: c.node :: held) inst args chain)
    fun _ => .constructed c inst
  return .object inst

end Enclave.Eval
