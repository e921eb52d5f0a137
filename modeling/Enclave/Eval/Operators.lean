import Enclave.Eval.Machine
import Enclave.Number.Arithmetic

/-!
# Operators

Operators on values. Arithmetic takes numbers only, except that `+` joins texts if one side is a
string; order compares two numbers or two strings; nothing is converted silently.
-/

namespace Enclave

/-- How two values that are in order lie to each other. -/
inductive Comparison
  | lt | ltEq | gt | gtEq

def Comparison.sign : Comparison → String
  | .lt => "<"
  | .ltEq => "<="
  | .gt => ">"
  | .gtEq => ">="

/-- Whether two numbers compare like this; NaN compares with nothing. -/
def Comparison.ofNumbers (c : Comparison) (a b : Number) : Bool :=
  match c with
  | .lt => a.below b
  | .ltEq => a.below b || a.equals b
  | .gt => b.below a
  | .gtEq => b.below a || a.equals b

/-- Whether two texts compare like this, by their characters' numbers. -/
def Comparison.ofStrings (c : Comparison) (a b : String) : Bool :=
  match c with
  | .lt => a < b
  | .ltEq => !decide (b < a)
  | .gt => b < a
  | .gtEq => !decide (a < b)

namespace Eval

/-- An operator on two numbers. -/
def arithmetic (sign : String) (op : Number → Number → Number) (left right : Value) : Eval Value :=
  match left, right with
  | .number a, .number b => return .number (op a b)
  | _, _ => raiseType (.cannotApply sign left right)

/-- `+`: the sum of numbers, or the joined texts if one side is a string. -/
def plus (left right : Value) : Eval Value :=
  match left, right with
  | .number a, .number b => return .number (a.add b)
  -- a symbol is never turned into text silently, also not next to a string
  | .symbol _, _ | _, .symbol _ => raiseType .symbolAsText
  | .string _, _ | _, .string _ => return .string (left.text ++ right.text)
  | _, _ => raiseType (.cannotApply "+" left right)

/-- Order of two numbers or two strings. -/
def order (c : Comparison) (left right : Value) : Eval Value :=
  match left, right with
  | .number a, .number b => return .bool (c.ofNumbers a b)
  | .string a, .string b => return .bool (c.ofStrings a b)
  | _, _ => raiseType (.cannotCompare c.sign left right)

/-- `key in object`, over public properties. -/
def hasKey (key container : Value) : Eval Value := do
  match container with
  | .object o => return .bool ((← world).hasProperty o key.toKey)
  | v => raiseType (.cannotSearch v)

/-- A binary operator on two values. -/
def binary (op : BinaryOp) (left right : Value) : Eval Value :=
  match op with
  | .eq => return .bool (left.strictEquals right)
  | .notEq => return .bool (!left.strictEquals right)
  | .add => plus left right
  | .sub => arithmetic "-" Number.subtract left right
  | .mul => arithmetic "*" Number.multiply left right
  | .div => arithmetic "/" Number.divide left right
  | .rem => arithmetic "%" Number.remainder left right
  | .lt => order .lt left right
  | .ltEq => order .ltEq left right
  | .gt => order .gt left right
  | .gtEq => order .gtEq left right
  | .hasKey => hasKey left right

/-- The number with its sign turned. -/
def negated : Value → Eval Value
  | .number n => return .number n.negate
  | v => raiseType (.cannotNegate v)

/-! ### Public properties -/

/-- A member that a function has: its name and the function that calls it. -/
def functionMember (f : FunctionRef) (key : PropertyKey) : Eval Value := do
  match key with
  | .string "name" => return .string f.name
  | .string "call" => return .function (← get).callFunction
  | _ => return .undefined

/-- A member that a class has: its name and its prototype. -/
def classMember (c : ClassRef) (key : PropertyKey) : Eval Value := do
  match key with
  | .string "name" => return .string c.name
  | .string "prototype" => return .object ((← world).classAt c).prototype
  | _ => return .undefined

/-- The value of a member. What is absent is undefined, but undefined and null have no members. -/
def getMember (v : Value) (key : PropertyKey) : Eval Value := do
  match v with
  | .object o => return ((← world).getProperty? o key).getD .undefined
  | .function f => functionMember f key
  | .class c => classMember c key
  | .string s =>
    if key = .string "length" then return .number (.ofNat s.length) else return .undefined
  -- these two fail, where the others just have no such member
  | .undefined | .null => raiseType (.cannotRead key v)
  | .bool _ | .number _ | .symbol _ => return .undefined

/-- Sets a property of an object; nothing else has properties that can be set. -/
def setMember (v : Value) (key : PropertyKey) (value : Value) : Eval Unit := do
  match v with
  | .object o => changeWorld (·.setProperty o key value)
  | _ => raiseType (.cannotSet key v)

/-- Deletes a property of an object and says whether it was there. -/
def deleteMember (v : Value) (key : PropertyKey) : Eval Value := do
  match v with
  | .object o =>
    -- only own properties are deleted, and only they count
    let isThere := ((← world).objectAt o).properties.has key
    changeWorld (·.deleteProperty o key)
    return .bool isThere
  | .undefined | .null => raiseType (.cannotDelete key v)
  | _ => return .bool true

end Eval

end Enclave
