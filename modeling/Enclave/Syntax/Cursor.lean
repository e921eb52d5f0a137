import Enclave.Source.Token
import Enclave.Syntax.Height

/-!
# Reading tokens

A `Parser` reads from a `Cursor`: the tokens ahead without their comments, the region of the last
one read, and the numbers to be handed out next. A failing parser leaves the cursor where it failed,
so that reading can go on behind the error, and numbers once handed out are not taken back.

Loops are run by `repeatStep`, which gives up when it has made more rounds than there were tokens
ahead. A round that reads a token can never bring that about.
-/

namespace Enclave

/-- What would have been right at a place. -/
inductive Expectation
  | mark (sign : Mark)
  | keyword (word : Keyword)
  | identifier
  | propertyName
  | functionName
  | className
  | classMember
  | expression
  | superSuffix
  deriving DecidableEq

/-- How messages call what was expected. -/
def Expectation.text : Expectation → String
  | .mark sign => (TokenKind.mark sign).name
  | .keyword word => (TokenKind.keyword word).name
  | .identifier => "identifier"
  | .propertyName => "property name"
  | .functionName => "function name"
  | .className => "class name"
  | .classMember => "class member"
  | .expression => "expression"
  | .superSuffix => "`(` or `.` after `super`"

/-- The greatest height of a tree, and the greatest depth of nesting while reading it. -/
def maxNesting : Nat := 128

/-- What can be wrong with the tokens of a program. -/
inductive SyntaxFault
  | expected (what : Expectation) (found : TokenKind)
  | lexical (error : LexicalError)
  | missingInitializer (name : String)
  | duplicateParameter (name : String)
  | secondConstructor
  | invalidTarget
  | deleteOfValue
  | accessorAlone (keyword : String) (found : TokenKind)
  | nestedTooDeeply
  | stalled
  deriving DecidableEq

/-- The wording of a fault. -/
def SyntaxFault.message : SyntaxFault → String
  | .expected what found => "expected " ++ what.text ++ ", found " ++ found.name
  | .lexical error => error.message
  | .missingInitializer name => "`const " ++ name ++ "` needs an initializer"
  | .duplicateParameter name => "duplicate parameter `" ++ name ++ "`"
  | .secondConstructor => "a class may only have one constructor"
  | .invalidTarget => "invalid assignment target"
  | .deleteOfValue => "`delete` needs a member expression"
  | .accessorAlone keyword found =>
    "expected `.` or `[` after `" ++ keyword ++ "` accessor, found " ++ found.name
  | .nestedTooDeeply =>
    "program nested too deeply (limit " ++ toString maxNesting ++ " levels)"
  | .stalled => "no progress"

/-- A fault and where it lies. -/
structure SyntaxError where
  fault : SyntaxFault
  span : Span
  deriving DecidableEq

/-- A fault with its place in front. -/
def SyntaxError.text (e : SyntaxError) : String := e.span.text ++ ": " ++ e.fault.message

/-- The tokens ahead and what is remembered of those read. -/
structure Cursor where
  tokens : List Token
  /-- The region of the last token read. -/
  last : Span
  /-- Whether the end of the input has been read. -/
  finished : Bool
  exprs : Nat
  functions : Nat
  classes : Nat

/-- Before the first of the given tokens. -/
def Cursor.ofTokens (tokens : List Token) : Cursor where
  tokens := tokens.filter (!·.isComment)
  last := .point .origin
  finished := false
  exprs := 0
  functions := 0
  classes := 0

/-- Reads tokens from a cursor and gives a value or an error, in both cases with the cursor behind
what was read. -/
abbrev Parser := EStateM SyntaxError Cursor

namespace Parser

/-- One round of a loop: another one from here, or the result. -/
inductive Step (α β : Type)
  | again (state : α)
  | done (result : β)

def fail {α : Type} (fault : SyntaxFault) (span : Span) : Parser α := throw ⟨fault, span⟩

/-! ### Single tokens -/

/-- What the next token is; behind the last one lies the end of the input. -/
def peek : Parser TokenKind := do
  match (← get).tokens with
  | t :: _ => return t.kind
  | [] => return .endOfInput

/-- Where the next token stands. -/
def peekSpan : Parser Span := do
  let c ← get
  match c.tokens with
  | t :: _ => return t.span
  -- there is a token ahead unless the end has been read
  | [] => return c.last

/-- The region of the last token read. -/
def lastSpan : Parser Span := return (← get).last

/-- Reads a token. -/
def next : Parser Token := do
  let c ← get
  match c.tokens with
  | t :: rest =>
    set { c with tokens := rest, last := t.span, finished := c.finished || t.isEndOfInput }
    return t
  | [] =>
    -- reading at the end gives the end once more
    set { c with finished := true }
    return ⟨.endOfInput, c.last, ""⟩

/-- Whether the next token is this mark. -/
def isAtMark (sign : Mark) : Parser Bool := return (← peek) = .mark sign

/-- Whether the next token is this keyword. -/
def isAtKeyword (word : Keyword) : Parser Bool := return (← peek) = .keyword word

/-- Whether no token is left. -/
def isAtEnd : Parser Bool := return (← peek) = .endOfInput

/-- Reads the next token and complains of it; a malformed token has a complaint of its own. -/
def unexpected {α : Type} (what : Expectation) : Parser α := do
  -- the token is read, so that an error never leaves reading where it was
  let t ← next
  match t.kind with
  | .malformed error => fail (.lexical error) t.span
  | found => fail (.expected what found) t.span

/-- Reads this mark if it is the next token, and says whether it was. -/
def skipMark (sign : Mark) : Parser Bool := do
  if ← isAtMark sign then
    let _ ← next
    return true
  else return false

/-- Reads this mark. -/
def expectMark (sign : Mark) : Parser Token := do
  if ← isAtMark sign then next else unexpected (.mark sign)

/-- Reads this keyword. -/
def expectKeyword (word : Keyword) : Parser Token := do
  if ← isAtKeyword word then next else unexpected (.keyword word)

/-- Reads a name. -/
def expectIdentifier : Parser (String × Span) := do
  match ← peek with
  | .identifier name => return (name, (← next).span)
  | _ => unexpected .identifier

/-- Reads the name of a property, which may be a reserved word. -/
def expectPropertyName : Parser (String × Span) := do
  match ← peek with
  | .identifier _ | .keyword _ =>
    let t ← next
    return (t.lexeme, t.span)
  | _ => unexpected .propertyName

/-- A semicolon ends a statement. It may be left out before a closing brace and at the end of the
input. -/
def endStatement : Parser Unit := do
  if ← skipMark .semicolon then return
  match ← peek with
  -- the closing token itself is left for others to read
  | .mark .rightBrace | .endOfInput => return
  | _ => unexpected (.mark .semicolon)

/-! ### Loops -/

/-- Repeats a step until it is done, at most one round more than there are tokens in `budget`. -/
def repeatWithin {α β : Type} (step : α → Parser (Step α β)) : (budget : List Token) → α → Parser β
  | [], state => do
    match ← step state with
    | .done result => return result
    -- no tokens are left that a further round could read
    | .again _ => fail .stalled (← peekSpan)
  | _ :: budget, state => do
    match ← step state with
    | .done result => return result
    | .again state => repeatWithin step budget state

/-- Repeats a step until it is done. Every round but the last reads a token, so the tokens ahead
bound their number. -/
def repeatStep {α β : Type} (step : α → Parser (Step α β)) (state : α) : Parser β := do
  repeatWithin step (← get).tokens state

/-! ### New nodes -/

/-- A new expression, unless it would be too high. -/
def newExpr (form : ExprForm) (span : Span) : Parser Expr := do
  let c ← get
  let e : Expr := ⟨⟨c.exprs⟩, span, 1 + form.heightBelow, form⟩
  -- the number is handed out even if the expression is refused
  set { c with exprs := c.exprs + 1 }
  if maxNesting < e.height then fail .nestedTooDeeply span
  return e

/-- A new function, unless it would be too high. -/
def newFunction (name : Option String) (kind : FunctionKind) (params : List String)
    (body : List Stmt) (span : Span) : Parser FunctionDef := do
  let c ← get
  let f : FunctionDef := ⟨⟨c.functions⟩, name, kind, params, body, span, 1 + heightOfAll body⟩
  set { c with functions := c.functions + 1 }
  if maxNesting < f.height then fail .nestedTooDeeply span
  return f

/-- A new class, unless it would be too high. -/
def newClass (name : Option String) (superclass : Option Expr) (constructor : Option FunctionDef)
    (members : List Member) (span : Span) : Parser ClassDef := do
  let c ← get
  let d : ClassDef := ⟨⟨c.classes⟩, name, superclass, constructor, members, span,
    1 + classHeightBelow superclass constructor members⟩
  set { c with classes := c.classes + 1 }
  if maxNesting < d.height then fail .nestedTooDeeply span
  return d

end Parser

end Enclave
