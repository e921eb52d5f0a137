import Enclave.Source.Lexer
import Enclave.Syntax.Grammar

/-!
# Reading programs

`Program.read` reads a whole source and reports every error it can find: after an error it goes on
behind the next semicolon or at the next declaration. `statements` reads one statement after another
and goes on where it stopped.
-/

namespace Enclave

namespace Parser

/-- A statement outside all others. -/
def topStatement : Parser Stmt := statement (Level.ofRoom maxNesting)

/-- The next statement, unless the end of the input has been reached. -/
def nextStatement? (c : Cursor) : Option (EStateM.Result SyntaxError Cursor Stmt) :=
  match c.finished, c.tokens with
  | true, _ | false, [] => none
  | false, t :: _ => if t.isEndOfInput then none else some (topStatement c)

/-- Leaves out tokens up to a place where a statement may begin: behind a semicolon, or before a
declaration or the end of the input. -/
def synchronize (last : Span) : List Token → List Token × Span
  | [] => ([], last)
  | t :: rest =>
    match t.kind with
    -- a declaration stays to be read, a semicolon does not
    | .endOfInput | .keyword .kwClass | .keyword .kwFunction | .keyword .kwLet
    | .keyword .kwConst => (t :: rest, last)
    | .mark .semicolon => (rest, t.span)
    | _ => synchronize t.span rest

/-- The cursor at the place where reading goes on after an error. -/
def recover (c : Cursor) : Cursor :=
  let (tokens, last) := synchronize c.last c.tokens
  { c with tokens, last }

/-- One statement after another, without leaving out any token, at most `limit` of them. -/
def statements : (limit : Nat) → Cursor → List (Except SyntaxError Stmt)
  | 0, _ => []
  | limit + 1, c =>
    match nextStatement? c with
    | none => []
    | some (.ok s c) => .ok s :: statements limit c
    | some (.error e c) => .error e :: statements limit c

/-- Statements and errors up to the end of the input, and the cursor there. A round reads at least
one token, so there are no more rounds than tokens in `budget`. -/
def readWithin : (budget : List Token) → Cursor → List Stmt × List SyntaxError × Cursor
  | [], c => ([], [], c)
  | _ :: budget, c =>
    match nextStatement? c with
    | none => ([], [], c)
    | some (.ok s c) =>
      let (body, errors, c) := readWithin budget c
      (s :: body, errors, c)
    -- the error is kept, and reading goes on behind it
    | some (.error e c) =>
      let (body, errors, c) := readWithin budget (recover c)
      (body, e :: errors, c)

end Parser

/-- Reads a program from tokens, or reports every error found. -/
def Program.ofTokens (tokens : List Token) : Except (List SyntaxError) Program :=
  let start := Cursor.ofTokens tokens
  let (body, errors, c) := Parser.readWithin start.tokens start
  if errors.isEmpty then .ok ⟨body, c.exprs, c.functions, c.classes⟩ else .error errors

/-- Reads a program from its source. -/
def Program.read (source : List UInt8) : Except (List SyntaxError) Program :=
  Program.ofTokens (Lexer.tokens source)

end Enclave
