import Enclave.Number.Basic
import Enclave.Source.Position

/-!
# Syntax trees

A program is a list of statements. Every expression, function and class carries a number of its own,
handed out in the order in which the nodes are completed, so that what is found out about a node can
be kept beside the tree. It also carries its *height*, the length of the longest path down to a leaf
through nested functions and classes, which bounds how deep any walk over the tree can go. Numbers
are not bounded here; words of thirty-two bits would do for up to `2 ^ 32` nodes of a kind.

The four spellings `private.k`, `private["k"]`, `private(x).k` and `private(x)["k"]` are one form,
`ExprForm.slot`, with an `Accessor` that says whose table is meant and a `SlotKey` that says which
slot.
-/

namespace Enclave

/-- The number of an expression in its program. -/
structure ExprId where
  index : Nat
  deriving DecidableEq

/-- The number of a function in its program. -/
structure FunctionSite where
  index : Nat
  deriving DecidableEq

/-- The number of a class body in its program. -/
structure ClassSite where
  index : Nat
  deriving DecidableEq, Inhabited

inductive UnaryOp
  | not | negate | typeof | delete
  deriving DecidableEq

/-- Operators that always evaluate both operands; `hasKey` is `in` over public properties. -/
inductive BinaryOp
  | add | sub | mul | div | rem | eq | notEq | lt | ltEq | gt | gtEq | hasKey
  deriving DecidableEq

/-- Operators that may leave out the right operand. -/
inductive LogicalOp
  | and | or
  deriving DecidableEq

/-- Where a function stands. -/
inductive FunctionKind
  | plain | method | constructor | privateMethod | staticMethod
  deriving DecidableEq

mutual

/-- An expression. -/
structure Expr where
  id : ExprId
  span : Span
  height : Nat
  form : ExprForm

inductive ExprForm
  | number (value : Number)
  | string (value : String)
  | bool (value : Bool)
  | null
  | undefined
  | ident (name : String)
  | this
  | object (properties : List Property)
  | functionDef (definition : FunctionDef)
  | classDef (definition : ClassDef)
  | unary (op : UnaryOp) (operand : Expr)
  | binary (op : BinaryOp) (left right : Expr)
  | logical (op : LogicalOp) (left right : Expr)
  | assign (target value : Expr)
  | member (object : Expr) (name : String)
  | index (object index : Expr)
  | call (callee : Expr) (args : List Expr)
  | new (callee : Expr) (args : List Expr)
  | slot (accessor : Accessor) (key : SlotKey)
  | hasSlot (key : Expr) (accessor : Accessor)
  | superCall (args : List Expr)
  | superMember (name : String)

/-- A property of an object literal. -/
structure Property where
  name : String
  value : Expr

/-- Whose table an expression reaches into: that of the receiver (`private`), that of the value of
an expression (`private(x)`), or that of the class (`static`). -/
inductive Accessor
  | ofReceiver (span : Span)
  | ofTarget (span : Span) (target : Expr)
  | ofClass (span : Span)

/-- Which slot of the table is meant. -/
inductive SlotKey
  | named (name : String)
  | computed (key : Expr)

structure FunctionDef where
  site : FunctionSite
  name : Option String
  kind : FunctionKind
  params : List String
  body : List Stmt
  span : Span
  height : Nat

structure ClassDef where
  site : ClassSite
  name : Option String
  superclass : Option Expr
  constructor : Option FunctionDef
  members : List Member
  span : Span
  height : Nat

/-- A declaration in a class body. -/
structure Member where
  name : String
  form : MemberForm
  span : Span

inductive MemberForm
  | method (definition : FunctionDef)
  | privateMethod (definition : FunctionDef)
  | staticMethod (definition : FunctionDef)
  | privateField (initializer : Option Expr)
  | staticField (initializer : Option Expr)

structure Stmt where
  form : StmtForm
  span : Span

inductive StmtForm
  | declare (name : String) (isMutable : Bool) (initializer : Option Expr)
  | expr (e : Expr)
  | block (body : List Stmt)
  | cond (test : Expr) (yes : Stmt) (no : Option Stmt)
  | loop (test : Expr) (body : Stmt)
  | ret (value : Option Expr)
  | raise (value : Expr)
  | attempt (body : List Stmt) (param : String) (handler : List Stmt)
  | functionDef (definition : FunctionDef)
  | classDef (definition : ClassDef)

end

/-- What an accessor is written with. -/
def Accessor.keyword : Accessor → String
  | .ofReceiver _ | .ofTarget .. => "private"
  | .ofClass _ => "static"

/-- The region of the keyword and, if there is one, of the target in parentheses. -/
def Accessor.span : Accessor → Span
  | .ofReceiver span | .ofTarget span _ | .ofClass span => span

/-- How a class without a name is shown. -/
def anonymousName : String := "<anonymous>"

def ClassDef.displayName (c : ClassDef) : String := c.name.getD anonymousName

/-- Whether an expression may stand on the left of an assignment. -/
def ExprForm.isAssignable : ExprForm → Bool
  | .ident _ | .member .. | .index .. | .slot .. => true
  | _ => false

/-- Whether an expression may be the operand of `delete`. -/
def ExprForm.isMember : ExprForm → Bool
  | .member .. | .index .. | .slot .. => true
  | _ => false

/-- A whole program, with the numbers of expressions and classes handed out while reading it. -/
structure Program where
  body : List Stmt
  exprCount : Nat
  functionCount : Nat
  classCount : Nat

end Enclave
