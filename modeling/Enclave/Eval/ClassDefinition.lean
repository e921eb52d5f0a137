import Enclave.Eval.Calls

/-!
# Class definitions

Evaluating a class definition mints a token and makes the prototype and the static table. The
methods are functions with the new class as their home; public ones go onto the prototype, static
ones into the static table, and private ones are kept for the instances. The scope of the class lies
inside the scope of its definition and binds the name of the class, if it has one, as a constant.
Last the static fields are evaluated in order.
-/

namespace Enclave.Eval

/-- The class that a class extends, if it extends any. -/
def parentOf (self : Evaluator) (context : Context) (c : ClassDef) : Eval (Option ClassRef) :=
  match c.superclass with
  | none => return none
  | some e => do
    match ← self.eval context e with
    -- the superclass is evaluated before the class has a token
    | .class parent => return some parent
    | v => raiseType (.cannotExtend c.displayName v)

/-- Where the members of a class that is being defined go. -/
structure ClassParts where
  unit : CompiledUnit
  scope : ScopeId
  home : Home
  prototype : ObjectId
  statics : TableId

/-- A method of a class that is being defined. -/
def makeMethod (parts : ClassParts) (definition : FunctionDef) : Eval FunctionRef :=
  makeFunction parts.unit definition parts.scope (some parts.home)

/-- Makes the methods of a class and puts those that are public or static in their places. Gives the
private ones. -/
def makeMethods (parts : ClassParts) : List Member → Eval (List (String × FunctionRef))
  | [] => return []
  | ⟨name, form, _⟩ :: rest => do
    match form with
    | .method definition =>
      let f ← makeMethod parts definition
      changeWorld (·.setProperty parts.prototype (.string name) (.function f))
      makeMethods parts rest
    | .staticMethod definition =>
      let f ← makeMethod parts definition
      changeWorld (·.setSlot parts.statics (.string name) (.function f))
      makeMethods parts rest
    | .privateMethod definition =>
      let f ← makeMethod parts definition
      return (name, f) :: (← makeMethods parts rest)
    | .privateField _ | .staticField _ => makeMethods parts rest

/-- The constructor of a class, if it has one. -/
def makeConstructor (parts : ClassParts) : Option FunctionDef → Eval (Option FunctionRef)
  | none => return none
  | some definition => do return some (← makeMethod parts definition)

/-- The private fields among some members. -/
def privateFields (members : List Member) : List Field :=
  members.filterMap fun m =>
    match m.form with
    | .privateField initializer => some ⟨m.name, initializer⟩
    | _ => none

/-- Evaluates the static fields among some members in order. -/
def storeStatics (self : Evaluator) (context : Context) (statics : TableId) :
    List Member → Eval Unit
  | [] => return ()
  | ⟨name, .staticField initializer, _⟩ :: rest => do
    let value ← evalOptional self context initializer
    changeWorld (·.setSlot statics (.string name) value)
    storeStatics self context statics rest
  | _ :: rest => storeStatics self context statics rest

/-- Makes what belongs to a class, up to the class itself. -/
def makeParts (context : Context) (c : ClassDef) (token : TokenId) (parent : Option ClassRef) :
    Eval (ClassParts × Class) := do
  let scope ← newScope context.scope
  let w ← world
  let above := parent.map fun p => (w.classAt p).prototype
  -- the class itself comes last, but its place is known, as no class can come in between
  let home : Home := ⟨token, w.nextClass c.displayName, parent⟩
  let prototype ← onWorld (·.newObject above)
  let unit := context.frame.unit
  let parts : ClassParts := ⟨unit, scope, home, prototype, (w.tokenAt token).statics⟩
  let privateMethods ← makeMethods parts c.members
  let constructor ← makeConstructor parts c.constructor
  return (parts, ⟨c.site, token, prototype, parent, constructor, privateMethods,
    privateFields c.members, unit, scope⟩)

/-- Makes a class. Its static fields are still to be evaluated. -/
def makeClass (context : Context) (c : ClassDef) (parent : Option ClassRef) : Eval ClassParts := do
  let token ← onWorld (·.mintToken c.site c.displayName)
  let (parts, d) ← makeParts context c token parent
  noting (changeWorld (·.addClass d)) fun _ => .minted token parts.home.classRef
  return parts

/-- Evaluates a class definition. -/
def defineClass (self : Evaluator) (context : Context) (c : ClassDef) : Eval ClassRef := do
  let parent ← parentOf self context c
  let ⟨unit, scope, home, _, statics⟩ ← makeClass context c parent
  -- the static fields see the name, and nothing can assign to it
  if let some name := c.name then
    changeWorld (·.declare scope name (.class home.classRef) false)
  let initializers : Context :=
    ⟨⟨unit, .class home.classRef, some home, none⟩, scope, context.nodes⟩
  storeStatics self initializers statics c.members
  return home.classRef

end Enclave.Eval
