import Enclave.Store.World

/-!
# Looking into values

A value with everything that can be seen of it from outside: the own properties of an object, the
static table and the prototype of a class, and what those contain in turn. What has been shown
before is only named again.
-/

namespace Enclave

/-- A value and what can be seen of it. -/
inductive Inspection
  | plain (v : Value)
  | object (number : Nat) (own : List (PropertyKey × Inspection)) (proto : Option Nat)
  | objectAgain (number : Nat)
  /-- A function; `home` is the name of the class it was written in. -/
  | function (f : FunctionRef) (home : Option String)
  | class (c : ClassRef) (site : ClassSite) (chain : List String) (live : Nat)
    (statics : List (PropertyKey × Inspection)) (prototype : Inspection)
  | classAgain (c : ClassRef)

namespace Inspection

/-- What has been shown. -/
structure Shown where
  objects : List ObjectId
  classes : List ClassRef

/-- The name of the class that a function was written in. -/
def homeName (w : World) (f : FunctionRef) : Option String :=
  match w.functionAt f with
  | .script c => c.home.map fun home => (w.tokenAt home.token).name
  | .native _ => none

/-- Shows the values of a table one after another. -/
def showEntries (showValue : Value → StateM Shown Inspection) :
    List (PropertyKey × Value) → StateM Shown (List (PropertyKey × Inspection))
  | [] => return []
  | (key, v) :: rest => do
    let shown ← showValue v
    return (key, shown) :: (← showEntries showValue rest)

/-- Shows a value, objects and classes inside one another up to `bound`. -/
def showValue (w : World) : (bound : Nat) → Value → StateM Shown Inspection
  | _, .function f => return .function f (homeName w f)
  | 0, .object o => return .objectAgain o.number
  | bound + 1, .object o => do
    if (← get).objects.contains o then return .objectAgain o.number
    modify fun s => { s with objects := o :: s.objects }
    let object := w.objectAt o
    let own ← showEntries (showValue w bound) object.properties.entries
    return .object o.number own (object.proto.map (·.number))
  | 0, .class c => return .classAgain c
  | bound + 1, .class c => do
    if (← get).classes.contains c then return .classAgain c
    modify fun s => { s with classes := c :: s.classes }
    let d := w.classAt c
    let statics ← showEntries (showValue w bound)
      (w.tableAt (w.tokenAt d.token).statics).entries
    let prototype ← showValue w bound (.object d.prototype)
    let chain := (w.classChain c).map (·.name)
    return .class c d.site chain (w.liveInstances d.token) statics prototype
  | _, v => return .plain v

end Inspection

namespace World

/-- How deep things can lie inside one another when each object and class is opened once. -/
def depthBound (w : World) : Nat := w.objects.size + w.classes.size + 1

/-- Shows a value. -/
def inspect (w : World) (v : Value) : Inspection :=
  (Inspection.showValue w w.depthBound v ⟨[], []⟩).1

/-- Shows what a table holds, one value after another. -/
def inspectTable (w : World) (t : SlotTable) : List (PropertyKey × Inspection) :=
  (Inspection.showEntries (Inspection.showValue w w.depthBound) t.entries ⟨[], []⟩).1

end World

end Enclave
