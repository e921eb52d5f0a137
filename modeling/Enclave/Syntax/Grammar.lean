import Enclave.Number.Text
import Enclave.Syntax.Cursor

/-!
# The grammar

One parser for each construct. Where a construct contains another that may contain it in turn, the
inner one is read one level deeper: a `Level` holds the four parsers through which all nesting goes,
`Level.over` builds those of a level from those of the next, and `Level.ofRoom n` still has room
for `n` levels. Without room, each of the four fails at the token ahead.

From tightest to loosest an expression is a primary, followed by members, indexes and calls; a unary
operator; binary operators in six tiers, each grouping to the left; an assignment, grouping to the
right.
-/

namespace Enclave

/-- The parsers of one level of nesting. -/
structure Level where
  assignment : Parser Expr
  unary : Parser Expr
  primary : Parser Expr
  statement : Parser Stmt

namespace Parser

/-! ### Entering the next level -/

/-- An expression, one level deeper. -/
def expression (deeper : Level) : Parser Expr := deeper.assignment

/-- A statement, one level deeper. -/
def statement (deeper : Level) : Parser Stmt := do
  -- statements do not carry their heights, so it is asked for here
  let s ← deeper.statement
  if maxNesting < s.height then fail .nestedTooDeeply s.span
  return s

/-! ### Lists in brackets -/

/-- Statements between braces. -/
def block (deeper : Level) : Parser (List Stmt) := do
  let _ ← expectMark .leftBrace
  repeatStep (fun body => do
    if ← isAtMark .rightBrace then
      let _ ← next
      return .done body.reverse
    -- a block that is never closed is an error at the end
    else if ← isAtEnd then unexpected (.mark .rightBrace)
    else return .again ((← statement deeper) :: body)) []

/-- The names of parameters between parentheses, with a comma after each but perhaps the last. -/
def params : Parser (List String) := do
  let _ ← expectMark .leftParen
  let names ← repeatStep (fun names => do
    if ← isAtMark .rightParen then return .done names
    let (name, span) ← expectIdentifier
    -- the place of the error is the second of the two names
    if names.contains name then fail (.duplicateParameter name) span
    if ← skipMark .comma then return .again (names ++ [name])
    else return .done (names ++ [name])) []
  let _ ← expectMark .rightParen
  return names

/-- Expressions between parentheses, with a comma after each but perhaps the last. -/
def args (deeper : Level) : Parser (List Expr) := do
  let _ ← expectMark .leftParen
  let es ← repeatStep (fun es => do
    if ← isAtMark .rightParen then return .done es
    let e ← expression deeper
    if ← skipMark .comma then return .again (es ++ [e])
    else return .done (es ++ [e])) []
  let _ ← expectMark .rightParen
  return es

/-! ### Functions and classes -/

/-- Parameters and body of a function whose head starts at `start`. -/
def functionRest (deeper : Level) (name : Option String) (kind : FunctionKind) (start : Span) :
    Parser FunctionDef := do
  let params ← params
  let body ← block deeper
  newFunction name kind params body (start.merge (← lastSpan))

/-- The name of a function or class, which only an expression may leave out. -/
def definedName (missing : Expectation) (isRequired : Bool) : Parser (Option String) := do
  match ← peek with
  | .identifier _ => return some (← expectIdentifier).1
  | _ => if isRequired then unexpected missing else return none

/-- A function from its keyword on. -/
def functionDef (deeper : Level) (isNameRequired : Bool) : Parser FunctionDef := do
  let start := (← expectKeyword .kwFunction).span
  let name ← definedName .functionName isNameRequired
  functionRest deeper name .plain start

/-- A member, an index or a call that follows an expression, if one does. -/
def postfixStep (deeper : Level) (e : Expr) : Parser (Step Expr Expr) := do
  match ← peek with
  | .mark .dot =>
    let _ ← next
    let (name, nameSpan) ← expectPropertyName
    return .again (← newExpr (.member e name) (e.span.merge nameSpan))
  | .mark .leftBracket =>
    let _ ← next
    let key ← expression deeper
    let stop := (← expectMark .rightBracket).span
    return .again (← newExpr (.index e key) (e.span.merge stop))
  -- an argument list closes the call, whose region ends with it
  | .mark .leftParen =>
    let args ← args deeper
    return .again (← newExpr (.call e args) (e.span.merge (← lastSpan)))
  | _ => return .done e

/-- Members, indexes and calls that follow an expression. -/
def postfixTail (deeper : Level) (e : Expr) : Parser Expr := repeatStep (postfixStep deeper) e

/-- A private or static declaration from its keyword on: a method if a parenthesis follows the name,
else a field. -/
def declaredMember (deeper : Level) (isPrivate : Bool) : Parser Member := do
  let start := (← next).span
  let (name, _) ← expectPropertyName
  let form ←
    -- no name is reserved, so only what follows tells the two apart
    if ← isAtMark .leftParen then do
      if isPrivate then
        pure (.privateMethod (← functionRest deeper (some name) .privateMethod start))
      else pure (.staticMethod (← functionRest deeper (some name) .staticMethod start))
    else do
      let initializer ← if ← skipMark .assign then some <$> expression deeper else pure none
      endStatement
      if isPrivate then pure (.privateField initializer) else pure (.staticField initializer)
  return ⟨name, form, start.merge (← lastSpan)⟩

/-- A public method from its name on. -/
def publicMethod (deeper : Level) : Parser Member := do
  let (name, start) ← expectPropertyName
  let f ← functionRest deeper (some name) .method start
  return ⟨name, .method f, start.merge (← lastSpan)⟩

/-- What has been read of a class body: its constructor and its other members. -/
structure ClassBody where
  constructor : Option FunctionDef
  members : List Member

/-- A declaration of a class, a semicolon between declarations, or the closing brace. -/
def classStep (deeper : Level) (body : ClassBody) : Parser (Step ClassBody ClassBody) := do
  match ← peek with
  | .mark .rightBrace =>
    let _ ← next
    return .done body
  | .mark .semicolon =>
    let _ ← next
    return .again body
  | .endOfInput => unexpected (.mark .rightBrace)
  -- this word is no name for a method
  | .keyword .kwConstructor =>
    let t ← next
    if body.constructor.isSome then fail .secondConstructor t.span
    let f ← functionRest deeper (some "constructor") .constructor t.span
    return .again { body with constructor := some f }
  | .keyword .kwPrivate =>
    let member ← declaredMember deeper true
    return .again { body with members := body.members ++ [member] }
  | .keyword .kwStatic =>
    let member ← declaredMember deeper false
    return .again { body with members := body.members ++ [member] }
  -- any other word is
  | .identifier _ | .keyword _ =>
    let member ← publicMethod deeper
    return .again { body with members := body.members ++ [member] }
  | _ => unexpected .classMember

/-- The declarations of a class, up to and including the closing brace. -/
def classBody (deeper : Level) : Parser ClassBody := repeatStep (classStep deeper) ⟨none, []⟩

/-- A class from its keyword on. -/
def classDef (deeper : Level) (isNameRequired : Bool) : Parser ClassDef := do
  let start := (← expectKeyword .kwClass).span
  let name ← definedName .className isNameRequired
  let superclass ←
    if ← isAtKeyword .kwExtends then do
      let _ ← next
      -- no operators, but members and calls
      some <$> postfixTail deeper (← deeper.primary)
    else pure none
  let _ ← expectMark .leftBrace
  let body ← classBody deeper
  newClass name superclass body.constructor body.members (start.merge (← lastSpan))

/-! ### Primary expressions -/

/-- An accessor from its keyword on, without the member that may follow. -/
def accessorHead (deeper : Level) : Parser Accessor := do
  let t ← next
  if t.kind = .keyword .kwStatic then return .ofClass t.span
  -- only `private` can have a target
  else if ← skipMark .leftParen then
    let target ← expression deeper
    let stop := (← expectMark .rightParen).span
    return .ofTarget (t.span.merge stop) target
  else return .ofReceiver t.span

/-- The member of an accessor, if one follows. -/
def accessorMember? (deeper : Level) (accessor : Accessor) : Parser (Option Expr) := do
  match ← peek with
  | .mark .dot =>
    let _ ← next
    let (name, nameSpan) ← expectPropertyName
    some <$> newExpr (.slot accessor (.named name)) (accessor.span.merge nameSpan)
  | .mark .leftBracket =>
    let _ ← next
    let key ← expression deeper
    let stop := (← expectMark .rightBracket).span
    some <$> newExpr (.slot accessor (.computed key)) (accessor.span.merge stop)
  -- it is up to the caller whether that is an error
  | _ => return none

/-- An accessor with its member. -/
def slot (deeper : Level) : Parser Expr := do
  let accessor ← accessorHead deeper
  match ← accessorMember? deeper accessor with
  | some e => return e
  -- the token behind is complained of without being read
  | none => fail (.accessorAlone accessor.keyword (← peek)) (← peekSpan)

/-- The name of a property in an object literal: a string, a number, or a word. -/
def propertyName : Parser String := do
  match ← peek with
  | .string s =>
    let _ ← next
    return s
  | .number n =>
    let _ ← next
    return n.literalKey
  | _ => return (← expectPropertyName).1

/-- An object literal. -/
def objectLiteral (deeper : Level) : Parser Expr := do
  let start := (← expectMark .leftBrace).span
  let properties ← repeatStep (fun properties => do
    if ← isAtMark .rightBrace then return .done properties
    let name ← propertyName
    let _ ← expectMark .colon
    let property := ⟨name, ← expression deeper⟩
    if ← skipMark .comma then return .again (properties ++ [property])
    else return .done (properties ++ [property])) []
  let stop := (← expectMark .rightBrace).span
  newExpr (.object properties) (start.merge stop)

/-- A member or an index that follows the expression behind `new`, if one does. -/
def newCalleeStep (deeper : Level) (callee : Expr) : Parser (Step Expr Expr) := do
  match ← peek with
  | .mark .dot =>
    let _ ← next
    let (name, nameSpan) ← expectPropertyName
    return .again (← newExpr (.member callee name) (callee.span.merge nameSpan))
  | .mark .leftBracket =>
    let _ ← next
    let key ← expression deeper
    let stop := (← expectMark .rightBracket).span
    return .again (← newExpr (.index callee key) (callee.span.merge stop))
  | _ => return .done callee

/-- The members and indexes between `new` and the arguments. -/
def newCalleeTail (deeper : Level) (callee : Expr) : Parser Expr :=
  repeatStep (newCalleeStep deeper) callee

/-- A construction; its arguments may be left out. -/
def construction (deeper : Level) : Parser Expr := do
  let start := (← next).span
  let callee ← newCalleeTail deeper (← deeper.primary)
  -- a call behind the arguments is one of the instance
  let args ← if ← isAtMark .leftParen then args deeper else pure []
  newExpr (.new callee args) (start.merge (← lastSpan))

/-- `super` with arguments or with a member. -/
def superForm (deeper : Level) : Parser ExprForm := do
  let _ ← next
  if ← isAtMark .leftParen then return .superCall (← args deeper)
  else if ← skipMark .dot then return .superMember (← expectPropertyName).1
  else unexpected .superSuffix

/-- A literal, a name, or a form that begins with a word or a bracket of its own. -/
def primary (deeper : Level) : Parser Expr := do
  let start ← peekSpan
  let literal (form : ExprForm) : Parser Expr := do
    let _ ← next
    newExpr form (start.merge (← lastSpan))
  match ← peek with
  | .number n => literal (.number n)
  | .string s => literal (.string s)
  | .identifier name => literal (.ident name)
  | .keyword .kwTrue => literal (.bool true)
  | .keyword .kwFalse => literal (.bool false)
  | .keyword .kwNull => literal .null
  | .keyword .kwUndefined => literal .undefined
  | .keyword .kwThis => literal .this
  | .keyword .kwFunction =>
    let f ← functionDef deeper false
    newExpr (.functionDef f) (start.merge (← lastSpan))
  | .keyword .kwClass =>
    let c ← classDef deeper false
    newExpr (.classDef c) (start.merge (← lastSpan))
  | .keyword .kwNew => construction deeper
  | .keyword .kwPrivate | .keyword .kwStatic => slot deeper
  | .keyword .kwSuper =>
    let form ← superForm deeper
    newExpr form (start.merge (← lastSpan))
  -- parentheses leave no trace in the tree
  | .mark .leftParen =>
    let _ ← next
    let e ← expression deeper
    let _ ← expectMark .rightParen
    return e
  | .mark .leftBrace => objectLiteral deeper
  | _ => unexpected .expression

/-! ### Operators -/

/-- A primary expression with what follows it. -/
def postfixed (deeper : Level) : Parser Expr := do postfixTail deeper (← primary deeper)

/-- The unary operator that a token is. -/
def unaryOp? : TokenKind → Option UnaryOp
  | .operator .not => some .not
  | .operator .minus => some .negate
  | .keyword .kwTypeof => some .typeof
  | .keyword .kwDelete => some .delete
  | _ => none

/-- Unary operators and their operand, which only `delete` restricts. -/
def unary (deeper : Level) : Parser Expr := do
  match unaryOp? (← peek) with
  | none => postfixed deeper
  | some op =>
    let start := (← next).span
    let operand ← deeper.unary
    -- what may be deleted is known only after it has been read
    if op = .delete ∧ !operand.form.isMember then fail .deleteOfValue operand.span
    newExpr (.unary op operand) (start.merge operand.span)

/-- What stands between two operands. -/
inductive Connective
  | binary (op : BinaryOp)
  | logical (op : LogicalOp)

/-- The connective that a token is, and its tier, the loosest being the first. -/
def connective? : TokenKind → Option (Connective × Nat)
  | .operator .or => some (.logical .or, 1)
  | .operator .and => some (.logical .and, 2)
  | .operator .eq => some (.binary .eq, 3)
  | .operator .notEq => some (.binary .notEq, 3)
  | .operator .lt => some (.binary .lt, 4)
  | .operator .ltEq => some (.binary .ltEq, 4)
  | .operator .gt => some (.binary .gt, 4)
  | .operator .gtEq => some (.binary .gtEq, 4)
  | .keyword .kwIn => some (.binary .hasKey, 4)
  | .operator .plus => some (.binary .add, 5)
  | .operator .minus => some (.binary .sub, 5)
  | .operator .star => some (.binary .mul, 6)
  | .operator .slash => some (.binary .div, 6)
  | .operator .percent => some (.binary .rem, 6)
  | _ => none

/-- The number of tiers of connectives. -/
def tierCount : Nat := 6

/-- Two operands with a connective between them. -/
def join (connective : Connective) (left right : Expr) : Parser Expr :=
  let span := left.span.merge right.span
  match connective with
  | .binary op => newExpr (.binary op left right) span
  | .logical op => newExpr (.logical op left right) span

/-- Whether the next token begins an accessor. -/
def isAtAccessor : Parser Bool := do
  match ← peek with
  | .keyword .kwPrivate | .keyword .kwStatic => return true
  | _ => return false

/-- What follows a connective: an operand, or the whole expression if the connective was `in` and a
bare accessor follows. -/
inductive RightSide
  | operand (e : Expr)
  | whole (e : Expr)

/-- Reads what follows a connective and the left operand, up to the next connective. -/
def rightSide (deeper : Level) (connective : Connective) (left : Expr) : Parser RightSide := do
  match connective with
  | .binary .hasKey =>
    -- only here can an accessor stand without a member
    if ← isAtAccessor then
      let accessor ← accessorHead deeper
      match ← accessorMember? deeper accessor with
      | some e => return .operand (← postfixTail deeper e)
      | none => return .whole (← newExpr (.hasSlot left accessor) (left.span.merge accessor.span))
    else return .operand (← unary deeper)
  | _ => return .operand (← unary deeper)

/-- A connective of tier `least` or tighter and its right operand, if they follow. The operand takes
in what `tail` reads of the connectives that are tighter still. -/
def binaryStep (deeper : Level) (tail : (least : Nat) → Expr → Parser Expr) (least : Nat)
    (left : Expr) : Parser (Step Expr Expr) := do
  match connective? (← peek) with
  | none => return .done left
  | some (connective, tier) =>
    -- left for a loop further out
    if tier < least then return .done left
    let _ ← next
    match ← rightSide deeper connective left with
    | .whole e => return .again e
    | .operand right =>
      -- so that operators of one tier group to the left
      let right ← tail (tier + 1) right
      return .again (← join connective left right)

/-- Connectives of tier `least` or tighter, and their right operands, after a left operand. A right
operand takes only tighter connectives, so no more than the remaining `tiers` are ever nested. -/
def binaryTail (deeper : Level) : (tiers : Nat) → (least : Nat) → Expr → Parser Expr
  | 0, _, left => return left
  | tiers + 1, least, left => repeatStep (binaryStep deeper (binaryTail deeper tiers) least) left

/-- Operands with connectives of any tier. -/
def binary (deeper : Level) : Parser Expr := do
  binaryTail deeper tierCount 1 (← unary deeper)

/-- An assignment, or an expression that is none. -/
def assignment (deeper : Level) : Parser Expr := do
  let target ← binary deeper
  if ← isAtMark .assign then
    let sign ← next
    if !target.form.isAssignable then fail .invalidTarget sign.span
    -- so that assignments group to the right
    let value ← deeper.assignment
    newExpr (.assign target value) (target.span.merge value.span)
  else return target

/-! ### Statements -/

/-- A declaration of a variable from its keyword on; a constant needs an initializer. -/
def declaration (deeper : Level) (isMutable : Bool) : Parser StmtForm := do
  let _ ← next
  let (name, nameSpan) ← expectIdentifier
  let initializer ←
    if ← skipMark .assign then some <$> expression deeper
    -- only a variable may be left undefined
    else if isMutable then pure none
    else fail (.missingInitializer name) nameSpan
  endStatement
  return .declare name isMutable initializer

/-- An expression in parentheses. -/
def condition (deeper : Level) : Parser Expr := do
  let _ ← expectMark .leftParen
  let e ← expression deeper
  let _ ← expectMark .rightParen
  return e

/-- `if` with one branch or two. -/
def conditional (deeper : Level) : Parser StmtForm := do
  let _ ← next
  let test ← condition deeper
  let yes ← statement deeper
  let no ←
    -- an `else` belongs to the nearest `if`
    if ← isAtKeyword .kwElse then do
      let _ ← next
      some <$> statement deeper
    else pure none
  return .cond test yes no

/-- `while`. -/
def whileLoop (deeper : Level) : Parser StmtForm := do
  let _ ← next
  let test ← condition deeper
  return .loop test (← statement deeper)

/-- `return`, with or without a value. -/
def returnStatement (deeper : Level) : Parser StmtForm := do
  let _ ← next
  let value ←
    match ← peek with
    | .mark .semicolon | .mark .rightBrace | .endOfInput => pure none
    | _ => some <$> expression deeper
  endStatement
  return .ret value

/-- `throw`. -/
def throwStatement (deeper : Level) : Parser StmtForm := do
  let _ ← next
  let value ← expression deeper
  endStatement
  return .raise value

/-- `try` with its handler. -/
def tryStatement (deeper : Level) : Parser StmtForm := do
  let _ ← next
  let body ← block deeper
  let _ ← expectKeyword .kwCatch
  let _ ← expectMark .leftParen
  let (param, _) ← expectIdentifier
  let _ ← expectMark .rightParen
  return .attempt body param (← block deeper)

/-- An expression as a statement. -/
def expressionStatement (deeper : Level) : Parser StmtForm := do
  let e ← expression deeper
  endStatement
  return .expr e

/-- The form of a statement, by its first token. -/
def statementForm (deeper : Level) : Parser StmtForm := do
  match ← peek with
  | .keyword .kwLet => declaration deeper true
  | .keyword .kwConst => declaration deeper false
  | .keyword .kwFunction => return .functionDef (← functionDef deeper true)
  | .keyword .kwClass => return .classDef (← classDef deeper true)
  | .keyword .kwIf => conditional deeper
  | .keyword .kwWhile => whileLoop deeper
  | .keyword .kwReturn => returnStatement deeper
  | .keyword .kwThrow => throwStatement deeper
  | .keyword .kwTry => tryStatement deeper
  | .mark .leftBrace => return .block (← block deeper)
  -- an empty statement is an empty block
  | .mark .semicolon =>
    let _ ← next
    return .block []
  | _ => expressionStatement deeper

/-- A statement and its region. -/
def statementBody (deeper : Level) : Parser Stmt := do
  let start ← peekSpan
  let form ← statementForm deeper
  return ⟨form, start.merge (← lastSpan)⟩

end Parser

/-! ### Levels -/

/-- The parsers of a level whose inner constructs are read by the next. -/
def Level.over (deeper : Level) : Level where
  assignment := Parser.assignment deeper
  unary := Parser.unary deeper
  primary := Parser.primary deeper
  statement := Parser.statementBody deeper

/-- The level at which there is no room left. -/
def Level.full : Level :=
  let tooDeep {α : Type} : Parser α := do Parser.fail .nestedTooDeeply (← Parser.peekSpan)
  ⟨tooDeep, tooDeep, tooDeep, tooDeep⟩

/-- The level with room for so many more. -/
def Level.ofRoom : Nat → Level
  | 0 => .full
  | room + 1 => .over (ofRoom room)

end Enclave
