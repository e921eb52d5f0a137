import Enclave.Text.CodePointSet.GraphemeExtend
import Enclave.Text.CodePointSet.Lexical
import Enclave.Text.CodePointSet.Unprintable

/-!
# Characters

What the rest of the library asks of a single character: whether it can begin or continue a word,
whether it is blank, and whether it can be shown as itself.

Text between quotes has everything escaped that could be mistaken: the quote itself, the backslash,
line ends and tabs by a backslash and a letter; every character without a glyph of its own, and
every mark that would join the character before it, by its number as `\u` and hexadecimal digits
between braces.
-/

namespace Enclave.Text

/-! ### Classes -/

/-- Letters of every script. -/
def isLetter (c : Char) : Bool :=
  -- most characters are found without a look at the table
  if c.toNat < 128 then c.isAlpha else CodePointSet.alphabetic.contains c

/-- Digits and other numerals of every script. -/
def isNumeral (c : Char) : Bool :=
  if c.toNat < 128 then c.isDigit else CodePointSet.numeric.contains c

/-- Blanks: spaces, line ends and the like, in every script. -/
def isBlank (c : Char) : Bool := CodePointSet.blank.contains c

/-- Marks that join the character before them. -/
def extendsGrapheme (c : Char) : Bool :=
  c.toNat ≥ 128 && CodePointSet.graphemeExtend.contains c

/-- Whether the character has a glyph of its own. -/
def isPrintable (c : Char) : Bool := !CodePointSet.unprintable.contains c

/-- The text without the blanks at its two ends. -/
def trimBlanks (text : List Char) : List Char :=
  ((text.dropWhile isBlank).reverse.dropWhile isBlank).reverse

/-! ### Quoted text -/

/-- The number of a character in lower-case hexadecimal digits. -/
def hexDigits (c : Char) : List Char := Nat.toDigits 16 c.toNat

/-- One character as it stands between two copies of `quote`. -/
def escaped (quote c : Char) : List Char :=
  if c = '\x00' then ['\\', '0']
  else if c = '\t' then ['\\', 't']
  else if c = '\r' then ['\\', 'r']
  else if c = '\n' then ['\\', 'n']
  else if c = '\\' ∨ c = quote then ['\\', c]
  -- by its number, so that it does not merge with the quote in front
  else if extendsGrapheme c || !isPrintable c then
    ['\\', 'u', '\x7b'] ++ hexDigits c ++ ['\x7d']
  else [c]

/-- A character between single quotes. -/
def quotedChar (c : Char) : String :=
  String.ofList ('\'' :: escaped '\'' c ++ ['\''])

/-- A text between double quotes. -/
def quoted (text : String) : String :=
  String.ofList ('"' :: text.toList.flatMap (escaped '"') ++ ['"'])

end Enclave.Text
