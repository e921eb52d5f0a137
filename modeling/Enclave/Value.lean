import Enclave.Number.Text
import Enclave.Syntax.Tree
import Enclave.Text.Character

/-!
# Values

What a script computes with. Objects, functions and classes are known by their place in the store;
functions and classes carry their name along, which never changes. Every value has a text, and every
value can be used as the key of a property: strings and symbols stand for themselves, all others for
their text.

`Value.strictEquals` compares primitives by value and everything else by identity.
-/

namespace Enclave

/-- A symbol is equal to itself alone, whatever its description. -/
structure Symbol where
  id : Nat
  description : Option String
  deriving DecidableEq

def Symbol.text (s : Symbol) : String := "Symbol(" ++ s.description.getD "" ++ ")"

/-- The key of a property or slot. -/
inductive PropertyKey
  | string (name : String)
  | symbol (s : Symbol)
  deriving DecidableEq

def PropertyKey.text : PropertyKey → String
  | .string name => name
  | .symbol s => s.text

/-- An object, by its place among all objects ever made. -/
structure ObjectId where
  index : Nat
  deriving DecidableEq, Inhabited

/-- Objects are numbered from one. -/
def ObjectId.number (o : ObjectId) : Nat := o.index + 1

/-- A function, by its place among all functions ever made, and its name. -/
structure FunctionRef where
  index : Nat
  name : String
  deriving DecidableEq, Inhabited

/-- The name of a function as it is shown. -/
def FunctionRef.displayName (f : FunctionRef) : String :=
  if f.name.isEmpty then anonymousName else f.name

/-- A class, by its place among all classes ever made, and its name. -/
structure ClassRef where
  index : Nat
  name : String
  deriving DecidableEq, Inhabited

/-- The values of the language. -/
inductive Value
  | undefined
  | null
  | bool (b : Bool)
  | number (n : Number)
  | string (s : String)
  | symbol (s : Symbol)
  | object (o : ObjectId)
  | function (f : FunctionRef)
  | class (c : ClassRef)
  deriving DecidableEq, Inhabited

namespace Value

/-- Whether a condition holds for the value. -/
def isTruthy : Value → Bool
  | .undefined | .null => false
  | .bool b => b
  | .number n => !n.isZero && !n.isNaN
  | .string s => !s.isEmpty
  | .symbol _ | .object _ | .function _ | .class _ => true

/-- The result of `typeof`. -/
def typeName : Value → String
  | .undefined => "undefined"
  | .null | .object _ => "object"
  | .bool _ => "boolean"
  | .number _ => "number"
  | .string _ => "string"
  | .symbol _ => "symbol"
  | .function _ | .class _ => "function"

/-- The result of `==`. -/
def strictEquals : Value → Value → Bool
  | .number a, .number b => a.equals b
  | .number _, _ | _, .number _ => false
  | a, b => a = b

/-- The text of a value. -/
def text : Value → String
  | .undefined => "undefined"
  | .null => "null"
  | .bool b => if b then "true" else "false"
  | .number n => n.text
  | .string s => s
  | .symbol s => s.text
  | .object _ => "[object Object]"
  | .function f => "[function " ++ f.displayName ++ "]"
  | .class c => "[class " ++ c.name ++ "]"

/-- The value as messages call it: `5`, `"id"`, `object #3`. -/
def describe : Value → String
  | .string s => Text.quoted s
  | .object o => "object #" ++ toString o.number
  | .function f => "function " ++ f.displayName
  | .class c => "class " ++ c.name
  | v => v.text

/-- The value as it is echoed: `5`, `"id"`, `Object(#3)`. -/
def echo : Value → String
  | .string s => Text.quoted s
  | .object o => "Object(#" ++ toString o.number ++ ")"
  | .function f => "Function(" ++ f.displayName ++ ")"
  | .class c => "Class(" ++ c.name ++ ")"
  | v => v.text

/-- The key that a value stands for in `o[v]` and `private[v]`. -/
def toKey : Value → PropertyKey
  | .string s => .string s
  | .symbol s => .symbol s
  | v => .string v.text

def isObject : Value → Bool
  | .object _ => true
  | _ => false

end Value

end Enclave
