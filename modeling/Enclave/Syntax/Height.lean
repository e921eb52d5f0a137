import Enclave.Syntax.Tree

/-!
# Heights

The height of a node is one more than the greatest height below it. Expressions, functions and
classes carry theirs, so the height of a new node is read off its immediate children; only nested
statements are walked.
-/

namespace Enclave

/-- The greatest of some heights. -/
def greatest (heights : List Nat) : Nat := heights.foldr max 0

/-- The height below an accessor. -/
def Accessor.heightBelow : Accessor → Nat
  | .ofTarget _ target => target.height
  | .ofReceiver _ | .ofClass _ => 0

/-- The height below a key. -/
def SlotKey.heightBelow : SlotKey → Nat
  | .named _ => 0
  | .computed key => key.height

/-- The height below an initializer. -/
def initializerHeight : Option Expr → Nat
  | some e => e.height
  | none => 0

/-- The height below an expression of this form. -/
def ExprForm.heightBelow : ExprForm → Nat
  | .number _ | .string _ | .bool _ | .null | .undefined | .ident _ | .this | .superMember _ => 0
  | .object properties => greatest (properties.map (·.value.height))
  | .functionDef f => f.height
  | .classDef c => c.height
  | .unary _ operand => operand.height
  | .binary _ left right | .logical _ left right => max left.height right.height
  | .assign target value => max target.height value.height
  | .member e _ => e.height
  | .index e key => max e.height key.height
  | .call callee args | .new callee args => max callee.height (greatest (args.map (·.height)))
  | .slot accessor key => max accessor.heightBelow key.heightBelow
  | .hasSlot key accessor => max key.height accessor.heightBelow
  | .superCall args => greatest (args.map (·.height))

mutual

/-- The height of a statement. -/
def Stmt.height : Stmt → Nat
  | ⟨form, _⟩ => 1 + form.heightBelow

/-- The height below a statement of this form. -/
def StmtForm.heightBelow : StmtForm → Nat
  | .declare _ _ initializer => initializerHeight initializer
  | .expr e | .raise e => e.height
  | .ret value => initializerHeight value
  | .block body => heightOfAll body
  | .cond test yes none => max test.height yes.height
  | .cond test yes (some no) => max (max test.height yes.height) no.height
  | .loop test body => max test.height body.height
  | .attempt body _ handler => max (heightOfAll body) (heightOfAll handler)
  | .functionDef f => f.height
  | .classDef c => c.height

/-- The greatest height among statements. -/
def heightOfAll : List Stmt → Nat
  | [] => 0
  | s :: rest => max s.height (heightOfAll rest)

end

/-- The height below a declaration in a class body. -/
def MemberForm.heightBelow : MemberForm → Nat
  | .method f | .privateMethod f | .staticMethod f => f.height
  | .privateField initializer | .staticField initializer => initializerHeight initializer

/-- The height below a class with these parts. -/
def classHeightBelow (superclass : Option Expr) (constructor : Option FunctionDef)
    (members : List Member) : Nat :=
  max (initializerHeight superclass)
    (max (constructor.elim 0 (·.height)) (greatest (members.map (·.form.heightBelow))))

end Enclave
