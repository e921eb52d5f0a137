import Enclave.Number.Arithmetic

/-!
# Reading decimals

A decimal is digits with an optional fraction, then an optional power of ten. At least one digit
stands before or after the point, and at least one in the power.
-/

namespace Enclave.Number

/-- A decimal as written: the digits without the point, and the power of ten they are scaled by. -/
structure Decimal where
  digits : Nat
  exponent : Int
  deriving DecidableEq

/-- The value of an ASCII digit. -/
def digitValue (b : UInt8) : Nat := b.toNat - 48

def isDigit (b : UInt8) : Bool := 48 ≤ b && b ≤ 57

/-- The number that a run of digits spells. -/
def digitsValue (digits : List UInt8) : Nat :=
  digits.foldl (fun value b => value * 10 + digitValue b) 0

/-- A power of ten after the letter `e`: an optional sign and at least one digit, and nothing else.
No letter and nothing after it is the power zero. -/
def readPower? : List UInt8 → Option Int
  | [] => some 0
  | e :: rest =>
    if e ≠ 0x65 ∧ e ≠ 0x45 then none
    else
      let (negative, digits) :=
        match rest with
        | 0x2B :: digits => (false, digits)
        | 0x2D :: digits => (true, digits)
        | digits => (false, digits)
      -- a sign or the letter alone is no power
      if digits.isEmpty || !digits.all isDigit then none
      else some (if negative then -(digitsValue digits : Int) else digitsValue digits)

/-- Reads a decimal that is the whole of the text. -/
def Decimal.read? (text : List UInt8) : Option Decimal := do
  let whole := text.takeWhile isDigit
  let afterWhole := text.dropWhile isDigit
  let (fraction, afterFraction) :=
    match afterWhole with
    | 0x2E :: rest => (rest.takeWhile isDigit, rest.dropWhile isDigit)
    | rest => ([], rest)
  -- a point alone has no digit on either side
  if whole.isEmpty && fraction.isEmpty then none
  let power ← readPower? afterFraction
  -- each digit behind the point takes one from the power
  return ⟨digitsValue (whole ++ fraction), power - fraction.length⟩

/-- The number nearest to a decimal. -/
def ofDecimalText? (text : List UInt8) : Option Number :=
  (Decimal.read? text).map fun d => ofDecimal false d.digits d.exponent

/-- The number that a text spells: a decimal, infinity or NaN, with or without a minus sign. -/
def ofSpelling? (text : String) : Option Number :=
  let unsigned? (text : List Char) : Option Number :=
    if text = "inf".toList then some infinity
    else if text = "nan".toList then some nan
    else ofDecimalText? (text.map fun c => UInt8.ofNat c.toNat)
  match text.toList with
  -- also a NaN may be written with a sign
  | '-' :: text => (unsigned? text).map negate
  | '+' :: text => unsigned? text
  | text => unsigned? text

end Enclave.Number
