import Enclave.Source.Token
import Enclave.Syntax.Tree

/-!
# Printing trees

`printed` writes a tree as tokens. Each form has a tier (`ExprForm.tier`): an assignment is the
loosest, then come the six tiers of connectives, unary operators, members, indexes and calls, and
what is read as one piece. An operand is put in parentheses if its tier is looser than its place
allows (`within`), and nothing else is but

- what follows `new`, if the arguments of a call in it would be taken for those of the construction,
- an expression statement that would begin like a block, a function or a class.

Optional commas, semicolons and arguments are written in one way: no comma behind the last item, a
semicolon behind every statement and field that may have one, and parentheses behind every `new`.
-/

namespace Enclave

/-! ### Tokens -/

namespace TokenKind

/-- The token that a word is, which may be reserved. -/
def word (name : String) : TokenKind :=
  match Keyword.ofSpelling? name with
  | some word => .keyword word
  | none => .identifier name

/-- The text that names and reserved words have. -/
def wordText : TokenKind → String
  | .identifier name => name
  | .keyword word => word.spelling
  | _ => ""

/-- Whether a statement that begins with the token is no expression. -/
def beginsOther : TokenKind → Bool
  | .mark .leftBrace | .keyword .kwFunction | .keyword .kwClass => true
  | _ => false

end TokenKind

/-- Tokens between parentheses. -/
def inParens (tokens : List TokenKind) : List TokenKind :=
  .mark .leftParen :: (tokens ++ [.mark .rightParen])

/-- Tokens of an expression of some tier, in a place where it must be `least` or tighter. -/
def within (least tier : Nat) (tokens : List TokenKind) : List TokenKind :=
  if tier < least then inParens tokens else tokens

/-- Items with a comma between any two of them. -/
def separated : List (List TokenKind) → List TokenKind
  | [] => []
  | [item] => item
  | item :: rest => item ++ .mark .comma :: separated rest

/-- Tokens of an expression where a statement begins. -/
def asStatement (tokens : List TokenKind) : List TokenKind :=
  if (tokens.headD .endOfInput).beginsOther then inParens tokens else tokens

def UnaryOp.kind : UnaryOp → TokenKind
  | .not => .operator .not
  | .negate => .operator .minus
  | .typeof => .keyword .kwTypeof
  | .delete => .keyword .kwDelete

def BinaryOp.kind : BinaryOp → TokenKind
  | .add => .operator .plus
  | .sub => .operator .minus
  | .mul => .operator .star
  | .div => .operator .slash
  | .rem => .operator .percent
  | .eq => .operator .eq
  | .notEq => .operator .notEq
  | .lt => .operator .lt
  | .ltEq => .operator .ltEq
  | .gt => .operator .gt
  | .gtEq => .operator .gtEq
  | .hasKey => .keyword .kwIn

def LogicalOp.kind : LogicalOp → TokenKind
  | .and => .operator .and
  | .or => .operator .or

/-! ### Tiers -/

def BinaryOp.tier : BinaryOp → Nat
  | .eq | .notEq => 3
  | .lt | .ltEq | .gt | .gtEq | .hasKey => 4
  | .add | .sub => 5
  | .mul | .div | .rem => 6

def LogicalOp.tier : LogicalOp → Nat
  | .or => 1
  | .and => 2

/-- How tightly a form binds. -/
def ExprForm.tier : ExprForm → Nat
  | .assign .. => 0
  | .binary op _ _ => op.tier
  | .logical op _ _ => op.tier
  | .hasSlot .. => 4
  | .unary .. => 7
  | .member .. | .index .. | .call .. => 8
  | _ => 9

mutual

/-- Whether the arguments behind `new` and the expression are those of the construction. -/
def Expr.isCallee : Expr → Bool
  | ⟨_, _, _, form⟩ => form.isCallee

def ExprForm.isCallee : ExprForm → Bool
  | .member e _ | .index e _ => e.isCallee
  | .call .. => false
  | _ => true

end

/-! ### Trees -/

/-- The name of a function or class, if it has one. -/
def printedName (name : Option String) : List TokenKind := name.toList.map .identifier

/-- The names of parameters, in parentheses. -/
def printedParams (params : List String) : List TokenKind :=
  inParens (separated (params.map fun name => [.identifier name]))

mutual

def Expr.printed : Expr → List TokenKind
  | ⟨_, _, _, form⟩ => form.printed

def ExprForm.printed : ExprForm → List TokenKind
  | .number value => [.number value]
  | .string value => [.string value]
  | .bool value => [.keyword (if value then .kwTrue else .kwFalse)]
  | .null => [.keyword .kwNull]
  | .undefined => [.keyword .kwUndefined]
  | .ident name => [.identifier name]
  | .this => [.keyword .kwThis]
  | .object properties =>
    .mark .leftBrace :: (separated (propertiesPrinted properties) ++ [.mark .rightBrace])
  | .functionDef f => .keyword .kwFunction :: (printedName f.name ++ f.printed)
  | .classDef c => .keyword .kwClass :: c.printed
  | .unary op operand => op.kind :: within 7 operand.form.tier operand.printed
  | .binary op left right =>
    within op.tier left.form.tier left.printed ++
      op.kind :: within (op.tier + 1) right.form.tier right.printed
  | .logical op left right =>
    within op.tier left.form.tier left.printed ++
      op.kind :: within (op.tier + 1) right.form.tier right.printed
  | .assign target value =>
    within 1 target.form.tier target.printed ++ .mark .assign :: value.printed
  | .member e name => within 8 e.form.tier e.printed ++ [.mark .dot, .word name]
  | .index e key =>
    within 8 e.form.tier e.printed ++
      .mark .leftBracket :: (key.printed ++ [.mark .rightBracket])
  | .call callee args =>
    within 8 callee.form.tier callee.printed ++ inParens (separated (exprsPrinted args))
  | .new callee args =>
    .keyword .kwNew ::
      ((if callee.isCallee then within 8 callee.form.tier callee.printed
        else inParens callee.printed) ++
      inParens (separated (exprsPrinted args)))
  | .slot accessor key => accessor.printed ++ key.printed
  | .hasSlot key accessor =>
    within 4 key.form.tier key.printed ++ .keyword .kwIn :: accessor.printed
  | .superCall args => .keyword .kwSuper :: inParens (separated (exprsPrinted args))
  | .superMember name => [.keyword .kwSuper, .mark .dot, .word name]

def propertiesPrinted : List Property → List (List TokenKind)
  | [] => []
  | ⟨name, value⟩ :: rest =>
    (.string name :: .mark .colon :: value.printed) :: propertiesPrinted rest

def Accessor.printed : Accessor → List TokenKind
  | .ofReceiver _ => [.keyword .kwPrivate]
  | .ofTarget _ target => .keyword .kwPrivate :: inParens target.printed
  | .ofClass _ => [.keyword .kwStatic]

def SlotKey.printed : SlotKey → List TokenKind
  | .named name => [.mark .dot, .word name]
  | .computed key => .mark .leftBracket :: (key.printed ++ [.mark .rightBracket])

def exprsPrinted : List Expr → List (List TokenKind)
  | [] => []
  | e :: rest => e.printed :: exprsPrinted rest

/-- An initializer with its sign of assignment. -/
def initializerPrinted : Option Expr → List TokenKind
  | none => []
  | some e => .mark .assign :: e.printed

/-- A function from its parameters on. -/
def FunctionDef.printed : FunctionDef → List TokenKind
  | ⟨_, _, _, params, body, _, _⟩ =>
    printedParams params ++ .mark .leftBrace :: (stmtsPrinted body ++ [.mark .rightBrace])

/-- A class from its name on. -/
def ClassDef.printed : ClassDef → List TokenKind
  | ⟨_, name, superclass, constructor, members, _, _⟩ =>
    printedName name ++ superclassPrinted superclass ++
      .mark .leftBrace ::
        (constructorPrinted constructor ++ membersPrinted members ++ [.mark .rightBrace])

def superclassPrinted : Option Expr → List TokenKind
  | none => []
  | some e => .keyword .kwExtends :: within 8 e.form.tier e.printed

def constructorPrinted : Option FunctionDef → List TokenKind
  | none => []
  | some f => .keyword .kwConstructor :: f.printed

def membersPrinted : List Member → List TokenKind
  | [] => []
  | m :: rest => m.printed ++ membersPrinted rest

def Member.printed : Member → List TokenKind
  | ⟨name, form, _⟩ => form.printed name

def MemberForm.printed (name : String) : MemberForm → List TokenKind
  | .method f => .word name :: f.printed
  | .privateMethod f => .keyword .kwPrivate :: .word name :: f.printed
  | .staticMethod f => .keyword .kwStatic :: .word name :: f.printed
  | .privateField initializer =>
    .keyword .kwPrivate :: .word name :: (initializerPrinted initializer ++ [.mark .semicolon])
  | .staticField initializer =>
    .keyword .kwStatic :: .word name :: (initializerPrinted initializer ++ [.mark .semicolon])

def Stmt.printed : Stmt → List TokenKind
  | ⟨form, _⟩ => form.printed

def StmtForm.printed : StmtForm → List TokenKind
  | .declare name isMutable initializer =>
    .keyword (if isMutable then .kwLet else .kwConst) :: .identifier name ::
      (initializerPrinted initializer ++ [.mark .semicolon])
  | .expr e => asStatement e.printed ++ [.mark .semicolon]
  | .block body => .mark .leftBrace :: (stmtsPrinted body ++ [.mark .rightBrace])
  | .cond test yes none => .keyword .kwIf :: (inParens test.printed ++ yes.printed)
  | .cond test yes (some no) =>
    .keyword .kwIf :: (inParens test.printed ++ yes.printed ++ .keyword .kwElse :: no.printed)
  | .loop test body => .keyword .kwWhile :: (inParens test.printed ++ body.printed)
  | .ret none => [.keyword .kwReturn, .mark .semicolon]
  | .ret (some value) => .keyword .kwReturn :: (value.printed ++ [.mark .semicolon])
  | .raise value => .keyword .kwThrow :: (value.printed ++ [.mark .semicolon])
  | .attempt body param handler =>
    .keyword .kwTry :: .mark .leftBrace ::
      (stmtsPrinted body ++ .mark .rightBrace :: .keyword .kwCatch ::
        (inParens [.identifier param] ++
          .mark .leftBrace :: (stmtsPrinted handler ++ [.mark .rightBrace])))
  | .functionDef f => .keyword .kwFunction :: (printedName f.name ++ f.printed)
  | .classDef c => .keyword .kwClass :: c.printed

def stmtsPrinted : List Stmt → List TokenKind
  | [] => []
  | s :: rest => s.printed ++ stmtsPrinted rest

end

/-- The tokens of a program, with the end of the input behind them. -/
def Program.printed (p : Program) : List TokenKind := stmtsPrinted p.body ++ [.endOfInput]

/-! ### Lists -/

theorem exprsPrinted_eq (es : List Expr) : exprsPrinted es = es.map Expr.printed := by
  induction es with
  | nil => rfl
  | cons e rest ih => rw [exprsPrinted, ih, List.map_cons]

/-- A property with its name as a string. -/
def Property.printed (p : Property) : List TokenKind :=
  .string p.name :: .mark .colon :: p.value.printed

theorem propertiesPrinted_eq (ps : List Property) :
    propertiesPrinted ps = ps.map Property.printed := by
  induction ps with
  | nil => rfl
  | cons p rest ih =>
    obtain ⟨name, value⟩ := p
    rw [propertiesPrinted, ih, List.map_cons, Property.printed]

end Enclave
