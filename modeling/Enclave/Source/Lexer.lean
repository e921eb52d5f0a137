import Enclave.Number.Reading
import Enclave.Source.Token
import Enclave.Text.Utf8

/-!
# From bytes to tokens

`tokens` splits a sequence of bytes, well-formed text or not, into tokens. Blanks separate tokens
and belong to none; everything else does, if only to one that says why it is malformed. The last
token, and no other, is the end of the input.

`scan` finds the token at the head of the input by its first bytes: comments, strings and numbers
have scanners of their own, marks and operators are looked up longest first, and what begins with a
letter is a word.
-/

namespace Enclave.Lexer

/-- The six blanks that may separate tokens. -/
def isSpace (b : UInt8) : Bool :=
  b = 0x20 || b = 0x09 || b = 0x0A || b = 0x0D || b = 0x0B || b = 0x0C

/-- A token found at the head of the input: what it is, its text, and how many bytes it takes after
its first. -/
structure Lexeme where
  kind : TokenKind
  text : String
  more : Nat

/-! ### Comments -/

/-- What stands between the opening of a comment and the closing that matches it, given how many
comments inside it are still open. -/
def commentBody? (nested : Nat) : List UInt8 → Option (List UInt8)
  -- brackets are counted, and an opening one comes first in `/*/`
  | 0x2F :: 0x2A :: rest => (commentBody? (nested + 1) rest).map ([0x2F, 0x2A] ++ ·)
  | 0x2A :: 0x2F :: rest =>
    match nested with
    | 0 => some []
    | nested + 1 => (commentBody? nested rest).map ([0x2A, 0x2F] ++ ·)
  | b :: rest => (commentBody? nested rest).map (b :: ·)
  | [] => none

/-- A comment up to the end of the line, given the bytes after its two slashes. -/
def lineComment (body : List UInt8) : Lexeme :=
  let bytes := body.takeWhile (· ≠ 0x0A)
  let text := Text.decodeLossy bytes
  ⟨.lineComment text, "//" ++ text, 1 + bytes.length⟩

/-- A comment between brackets, given the bytes after the opening one. -/
def blockComment (body : List UInt8) : Lexeme :=
  match commentBody? 0 body with
  | some bytes =>
    let text := Text.decodeLossy bytes
    ⟨.blockComment text, "/*" ++ text ++ "*/", 3 + bytes.length⟩
  | none => ⟨.malformed .unterminatedComment, "/*", 1 + body.length⟩

/-! ### Strings -/

/-- The byte that a backslash and this byte stand for. -/
def unescape (b : UInt8) : UInt8 :=
  if b = 0x6E then 0x0A else if b = 0x74 then 0x09 else if b = 0x72 then 0x0D
  else if b = 0x30 then 0x00 else b

/-- The value of a string and the bytes up to and including the closing quote. -/
def stringBody (quote : UInt8) : List UInt8 → Except LexicalError (List UInt8 × Nat)
  | [] => .error .unterminatedString
  | [b] =>
    if b = quote then .ok ([], 1)
    else if b = 0x5C then .error .unterminatedEscape
    else .error .unterminatedString
  | b :: e :: rest =>
    if b = quote then .ok ([], 1)
    else if b = 0x5C then
      (stringBody quote rest).map fun (value, width) => (unescape e :: value, width + 2)
    else (stringBody quote (e :: rest)).map fun (value, width) => (b :: value, width + 1)

/-- A string, given the bytes after its opening quote. -/
def string (quote : UInt8) (body : List UInt8) : Lexeme :=
  match stringBody quote body with
  | .ok (bytes, width) =>
    -- the lexeme is put together from the value, with escapes already replaced
    let value := Text.decodeLossy bytes
    let mark := String.singleton (Char.ofNat quote.toNat)
    ⟨.string value, mark ++ value ++ mark, width⟩
  | .error error => ⟨.malformed error, "", body.length⟩

/-! ### Numbers -/

/-- Digits, or the underscore that may stand between them. -/
def isDigitOrGap (b : UInt8) : Bool := Number.isDigit b || b = 0x5F

/-- The fraction at the head of the input: a point, a digit, and what continues it. -/
def fraction (input : List UInt8) : List UInt8 :=
  match input with
  | 0x2E :: d :: rest =>
    if Number.isDigit d then 0x2E :: (d :: rest).takeWhile isDigitOrGap else []
  | _ => []

/-- The power of ten at the head of the input: the letter, an optional sign, a digit, and what
continues it. -/
def power (input : List UInt8) : List UInt8 :=
  match input with
  | e :: rest =>
    if e = 0x65 ∨ e = 0x45 then
      let sign := (rest.take 1).filter fun b => b = 0x2B || b = 0x2D
      let digits := (rest.drop sign.length).takeWhile isDigitOrGap
      -- an underscore cannot be the first digit
      if (digits.take 1).any Number.isDigit then e :: (sign ++ digits) else []
    else []
  | [] => []

/-- The bytes of the number at the head of the input. A point that no digit follows is not part of
it. -/
def numberBytes (input : List UInt8) : List UInt8 :=
  let whole := input.takeWhile isDigitOrGap
  let input := input.drop whole.length
  let fraction := fraction input
  let input := input.drop fraction.length
  whole ++ fraction ++ power input

/-- A number, given the input from its first byte on. -/
def number (input : List UInt8) : Lexeme :=
  let bytes := numberBytes input
  let text := Text.decodeLossy bytes
  -- underscores only separate
  match Number.ofDecimalText? (bytes.filter (· ≠ 0x5F)) with
  | some value => ⟨.number value, text, bytes.length - 1⟩
  | none => ⟨.malformed .malformedNumber, text, bytes.length - 1⟩

/-! ### Words -/

/-- Whether a word can begin with the character. -/
def beginsWord (c : Char) : Bool := Text.isLetter c || c = '_' || c = '$'

/-- Whether a word can go on with the character. -/
def continuesWord (c : Char) : Bool := beginsWord c || Text.isNumeral c

/-- The characters of the word at the head of the input and the bytes they take, after the rest of a
character of which `skipped` bytes are left. -/
def wordSkipping (skipped : Nat) : List UInt8 → List Char × Nat
  | [] => ([], 0)
  | b :: rest =>
    match skipped with
    | skipped + 1 =>
      let (word, width) := wordSkipping skipped rest
      (word, width + 1)
    | 0 =>
      -- bytes that spell no character read as one that no word goes on with
      let (c, more) := Text.leadingChar b rest
      if continuesWord c then
        let (word, width) := wordSkipping more rest
        (c :: word, width + 1)
      else ([], 0)

/-- A keyword or a name, given the input from its first byte on. -/
def word (input : List UInt8) : Lexeme :=
  let (cs, width) := wordSkipping 0 input
  let text := String.ofList cs
  match Keyword.ofSpelling? text with
  | some keyword => ⟨.keyword keyword, text, width - 1⟩
  | none => ⟨.identifier text, text, width - 1⟩

/-! ### Marks and operators -/

/-- A mark or operator: its bytes, its spelling and its token. -/
structure Symbol where
  bytes : List UInt8
  spelling : String
  kind : TokenKind

/-- Every mark and operator, those of two characters first. -/
def symbols : List Symbol :=
  let operators := Operator.all.map fun o =>
    Symbol.mk (Text.utf8 o.spelling) o.spelling (.operator o)
  let marks := Mark.all.map fun m => Symbol.mk (Text.utf8 m.spelling) m.spelling (.mark m)
  let all := operators ++ marks
  -- or else `==` would be read as two marks
  all.filter (·.bytes.length = 2) ++ all.filter (·.bytes.length = 1)

/-- The longest mark or operator at the head of the input. -/
def symbol? (input : List UInt8) : Option Lexeme :=
  (symbols.find? fun s => s.bytes.isPrefixOf input).map
    fun s => ⟨s.kind, s.spelling, s.bytes.length - 1⟩

/-! ### Tokens -/

/-- Whether a word begins with the character `c`, whose first byte is `b`. The two signs that may
begin a word beside letters do so only in their own single byte. -/
def isWordStart (b : UInt8) (c : Char) : Bool := if b < 0x80 then beginsWord c else Text.isLetter c

/-- A word, or a character that begins no token. -/
def wordOrStray (b : UInt8) (rest : List UInt8) : Lexeme :=
  let (c, more) := Text.leadingChar b rest
  if isWordStart b c then word (b :: rest)
  else ⟨.malformed (.unexpectedCharacter c), String.singleton c, more⟩

/-- The token that begins with the byte `b`, which is no blank. -/
def scan (b : UInt8) (rest : List UInt8) : Lexeme :=
  match b, rest with
  | 0x2F, 0x2F :: body => lineComment body
  | 0x2F, 0x2A :: body => blockComment body
  | _, _ =>
    -- the slash of a comment has been looked for before that of a division
    if b = 0x22 ∨ b = 0x27 then string b rest
    else if Number.isDigit b ∨ (b = 0x2E ∧ (rest.take 1).any Number.isDigit) then number (b :: rest)
    else (symbol? (b :: rest)).getD (wordOrStray b rest)

/-- The tokens after a token of which `pending` bytes are left; `position` is that of the first byte
here. -/
def tokensFrom (position : Position) (pending : Nat) : List UInt8 → List Token
  | [] => [⟨.endOfInput, .point position, ""⟩]
  | b :: rest =>
    match pending with
    | pending + 1 => tokensFrom (position.advance b) pending rest
    | 0 =>
      if isSpace b then tokensFrom (position.advance b) 0 rest
      else
        let lexeme := scan b rest
        -- where the token ends by the bytes it takes, whatever its text is
        let stop := (position.advance b).after (rest.take lexeme.more)
        ⟨lexeme.kind, ⟨position, stop⟩, lexeme.text⟩ ::
          tokensFrom (position.advance b) lexeme.more rest

/-- The tokens of a source, comments and the end of the input included. -/
def tokens (source : List UInt8) : List Token := tokensFrom .origin 0 source

end Enclave.Lexer
