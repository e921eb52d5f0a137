import Enclave.Value

/-!
# Runtime errors

What evaluation can fail with. A script sees the name and the message of an error; a message to the
user shows both, except for thrown values, which are shown as themselves.
-/

namespace Enclave

/-- What an operation cannot be applied to. -/
inductive TypeFault
  | notConstructor (v : Value)
  | notFunction (v : Value)
  | classWithoutNew (c : ClassRef)
  | cannotExtend (name : String) (v : Value)
  | cannotRead (key : PropertyKey) (v : Value)
  | cannotSet (key : PropertyKey) (v : Value)
  | cannotDelete (key : PropertyKey) (v : Value)
  | cannotApply (op : String) (left right : Value)
  | cannotCompare (op : String) (left right : Value)
  | cannotSearch (v : Value)
  | cannotNegate (v : Value)
  | symbolAsText
  | assignConstant (name : String)
  | superMissing (name : String)
  | superTwice
  | callReceiver (v : Value)
  deriving DecidableEq

/-- The wording of a fault. -/
def TypeFault.message : TypeFault → String
  | .notConstructor v => v.describe ++ " is not a constructor"
  | .notFunction v => v.describe ++ " is not a function"
  | .classWithoutNew c => "class " ++ c.name ++ " cannot be invoked without `new`"
  | .cannotExtend name v => "class " ++ name ++ " cannot extend " ++ v.describe
  | .cannotRead key v => "cannot read property `" ++ key.text ++ "` of " ++ v.text
  | .cannotSet key v => "cannot set property `" ++ key.text ++ "` on " ++ v.describe
  | .cannotDelete key v => "cannot delete property `" ++ key.text ++ "` of " ++ v.text
  | .cannotApply op left right =>
    "cannot apply `" ++ op ++ "` to " ++ left.describe ++ " and " ++ right.describe
  | .cannotCompare op left right =>
    "cannot compare " ++ left.describe ++ " and " ++ right.describe ++ " with `" ++ op ++ "`"
  | .cannotSearch v => "cannot use `in` to search " ++ v.describe
  | .cannotNegate v => "cannot negate " ++ v.describe
  | .symbolAsText => "cannot convert a symbol to a string"
  | .assignConstant name => "assignment to constant `" ++ name ++ "`"
  | .superMissing name => "constructor of " ++ name ++ " must call super(...)"
  | .superTwice => "`super(...)` called twice"
  | .callReceiver v => "`call` expects a function receiver, got " ++ v.describe

/-- What a script can fail with, and catch. -/
inductive RuntimeError
  | privateAccess (construct : String) (receiver : Value)
  | type (fault : TypeFault)
  | reference (name : String)
  | assertion (message : String)
  | callDepth
  | thrown (v : Value)
  deriving DecidableEq

namespace RuntimeError

/-- The name of an error in a script. -/
def name : RuntimeError → String
  | .privateAccess .. => "PrivateAccessError"
  | .type _ => "TypeError"
  | .reference _ => "ReferenceError"
  | .assertion _ => "AssertionError"
  | .callDepth => "RangeError"
  | .thrown _ => "Error"

/-- The message of an error in a script. -/
def message : RuntimeError → String
  | .privateAccess construct receiver =>
    receiver.describe ++ " was not constructed by class " ++ construct
  | .type fault => fault.message
  | .reference name => "`" ++ name ++ "` is not defined"
  | .assertion message => message
  | .callDepth => "maximum call depth exceeded"
  | .thrown v => v.text

/-- An error that no script has caught. -/
def text : RuntimeError → String
  | .thrown v => "uncaught " ++ v.describe
  | e => e.name ++ ": " ++ e.message

def isPrivateAccess : RuntimeError → Bool
  | .privateAccess .. => true
  | _ => false

end RuntimeError

end Enclave
