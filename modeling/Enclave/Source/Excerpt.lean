import Enclave.Source.Position
import Enclave.Text.Utf8

/-!
# Excerpts

A message about a span is followed by the line where the span starts, with the span underlined. A
span that runs on past that line is underlined up to the end of the line; a span without width still
gets a mark.
-/

namespace Enclave

/-- The line in which a span starts, the bytes before the span in it, and the bytes to be
underlined. -/
structure Excerpt where
  line : String
  column : Nat
  width : Nat

/-- The excerpt of a source for a span, provided that the line can be cut out of the source between
characters. -/
def Excerpt.of? (source : List UInt8) (span : Span) : Option Excerpt := do
  let start := min span.start.offset source.length
  -- a column counts from one
  let lineStart := start - (span.start.column - 1)
  let bytes := (source.drop lineStart).takeWhile (· ≠ 0x0A)
  let column := start - lineStart
  let line ← Text.decode? bytes
  -- at least one mark, and none beyond the end of the line
  return ⟨line, column, max 1 (min span.size (bytes.length - column))⟩

/-- So many copies of a character. -/
def copies (c : Char) (n : Nat) : String := String.ofList (List.replicate n c)

/-- The excerpt under an arrow to its place, behind a gutter with the number of the line. -/
def Excerpt.text (e : Excerpt) (place : Position) : String :=
  let number := toString place.line
  let gutter := copies ' ' number.length
  gutter ++ "--> " ++ place.text ++ "\n" ++
  gutter ++ " |\n" ++
  number ++ " | " ++ e.line ++ "\n" ++
  gutter ++ " | " ++ copies ' ' e.column ++ copies '^' e.width

/-- A kind of error and its message, with an excerpt of the source. -/
def diagnostic (source : List UInt8) (kind message : String) (span : Span) : String :=
  kind ++ ": " ++ message ++
    match Excerpt.of? source span with
    | some e => "\n" ++ e.text span.start
    -- without a line that can be shown, the message stands alone
    | none => ""

end Enclave
