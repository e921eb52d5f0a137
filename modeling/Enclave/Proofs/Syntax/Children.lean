import Enclave.Proofs.Syntax.Nodes
import Enclave.Source.Token

/-!
# Nodes and their children

A syntax tree as a tree of nodes of several kinds (`SyntaxNode`), each with a region and with
children. A property holds everywhere in a tree if it holds of the node at the top and everywhere
below its children (`SyntaxNode.Everywhere`).

What the grammar demands of a node beyond the kinds of its children is `SyntaxNode.IsRegular`:
`delete` and assignments have operands that fit them, declarations have the names they need, and no
`if` could take the `else` of one around it.
-/

namespace Enclave

/-- A node of a syntax tree. -/
inductive SyntaxNode
  | stmt (s : Stmt)
  | expr (e : Expr)
  | accessor (a : Accessor)
  | function (f : FunctionDef)
  | class (c : ClassDef)
  | member (m : Member)

/-! ### Children -/

def Accessor.children : Accessor → List SyntaxNode
  | .ofReceiver _ | .ofClass _ => []
  | .ofTarget _ target => [.expr target]

def SlotKey.children : SlotKey → List SyntaxNode
  | .named _ => []
  | .computed key => [.expr key]

def ExprForm.children : ExprForm → List SyntaxNode
  | .number _ | .string _ | .bool _ | .null | .undefined | .ident _ | .this | .superMember _ => []
  | .object properties => properties.map (.expr ·.value)
  | .functionDef f => [.function f]
  | .classDef c => [.class c]
  | .unary _ operand => [.expr operand]
  | .binary _ left right | .logical _ left right => [.expr left, .expr right]
  | .assign target value => [.expr target, .expr value]
  | .member e _ => [.expr e]
  | .index e key => [.expr e, .expr key]
  | .call callee args | .new callee args => .expr callee :: args.map .expr
  | .slot accessor key => .accessor accessor :: key.children
  | .hasSlot key accessor => [.expr key, .accessor accessor]
  | .superCall args => args.map .expr

def StmtForm.children : StmtForm → List SyntaxNode
  | .declare _ _ initializer => initializer.toList.map .expr
  | .expr e | .raise e => [.expr e]
  | .block body => body.map .stmt
  | .cond test yes no => .expr test :: .stmt yes :: no.toList.map .stmt
  | .loop test body => [.expr test, .stmt body]
  | .ret value => value.toList.map .expr
  | .attempt body _ handler => body.map .stmt ++ handler.map .stmt
  | .functionDef f => [.function f]
  | .classDef c => [.class c]

def MemberForm.children : MemberForm → List SyntaxNode
  | .method f | .privateMethod f | .staticMethod f => [.function f]
  | .privateField initializer | .staticField initializer => initializer.toList.map .expr

def ClassDef.children (c : ClassDef) : List SyntaxNode :=
  c.superclass.toList.map .expr ++ c.constructor.toList.map .function ++ c.members.map .member

namespace SyntaxNode

def children : SyntaxNode → List SyntaxNode
  | .stmt s => s.form.children
  | .expr e => e.form.children
  | .accessor a => a.children
  | .function f => f.body.map .stmt
  | .class c => c.children
  | .member m => m.form.children

/-- The region of a node. -/
def span : SyntaxNode → Span
  | .stmt s => s.span
  | .expr e => e.span
  | .accessor a => a.span
  | .function f => f.span
  | .class c => c.span
  | .member m => m.span

/-- A property of a node and of all nodes below it. -/
inductive Everywhere (P : SyntaxNode → Prop) : SyntaxNode → Prop
  | intro {n : SyntaxNode} (here : P n) (below : ∀ k ∈ n.children, Everywhere P k) :
    Everywhere P n

theorem Everywhere.imp {P Q : SyntaxNode → Prop} {n : SyntaxNode} (h : n.Everywhere P)
    (himp : ∀ n, P n → Q n) : n.Everywhere Q := by
  induction h with
  | intro here _ ih => exact .intro (himp _ here) ih

end SyntaxNode

/-! ### Regular nodes -/

mutual

/-- Whether an `else` right behind the statement would belong to an `if` in it. -/
def Stmt.endsOpen : Stmt → Bool
  | ⟨form, _⟩ => form.endsOpen

def StmtForm.endsOpen : StmtForm → Bool
  | .cond _ _ none => true
  | .cond _ _ (some no) => no.endsOpen
  | .loop _ body => body.endsOpen
  | _ => false

end

def ExprForm.IsRegular (form : ExprForm) : Prop :=
  form.IsProper ∧ ∀ f, form = .functionDef f → f.kind = .plain

def StmtForm.IsRegular : StmtForm → Prop
  | .declare _ isMutable initializer => isMutable = true ∨ initializer.isSome
  | .cond _ yes no => no.isSome → yes.endsOpen = false
  | .functionDef f => f.name.isSome ∧ f.kind = .plain
  | .classDef c => c.name.isSome
  | _ => True

/-- The words that begin a declaration of their own in a class body. -/
def Keyword.beginsMember : Keyword → Bool
  | .kwConstructor | .kwPrivate | .kwStatic => true
  | _ => false

/-- Methods are called what they are declared as, and no public method like a word that begins
another declaration. -/
def MemberForm.IsRegular (name : String) : MemberForm → Prop
  | .method f => f.name = some name ∧ f.kind = .method ∧
    ∀ word ∈ Keyword.ofSpelling? name, word.beginsMember = false
  | .privateMethod f => f.name = some name ∧ f.kind = .privateMethod
  | .staticMethod f => f.name = some name ∧ f.kind = .staticMethod
  | .privateField _ | .staticField _ => True

/-- What the grammar demands of a node. -/
def SyntaxNode.IsRegular : SyntaxNode → Prop
  | .stmt s => s.form.IsRegular
  | .expr e => e.form.IsRegular
  | .accessor _ => True
  | .function f => f.params.Nodup
  | .class c => ∀ f ∈ c.constructor, f.name = some "constructor" ∧ f.kind = .constructor
  | .member m => m.form.IsRegular m.name

end Enclave
