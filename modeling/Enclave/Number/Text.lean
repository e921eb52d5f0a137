import Enclave.Number.Shortest

/-!
# The text of a number

Numbers are always written positionally, never with a power of ten. Integers below `10 ^ 15` have
their own digits, all others the fewest digits that read back (`Number.plainText`).

A number has two texts. `Number.text` is what a script sees, with words of its own for what is not
finite; `Number.literalKey` names the property that a numeric literal stands for in an object
literal, and has none.
-/

namespace Enclave.Number

/-- Digits scaled by a power of ten, with a point where one is needed. -/
def positional (digits : Nat) (exponent : Int) : String :=
  let ds := Nat.toDigits 10 digits
  if 0 ≤ exponent then String.ofList (ds ++ List.replicate exponent.toNat '0')
  else
    -- the point goes in front of so many digits
    let places := (-exponent).toNat
    if places < ds.length then
      String.ofList (ds.take (ds.length - places) ++ '.' :: ds.drop (ds.length - places))
    else String.ofList ('0' :: '.' :: (List.replicate (places - ds.length) '0' ++ ds))

/-- The text of any number, by its shortest decimal if it is finite. -/
def plainText (n : Number) : String :=
  if n.isNaN then "NaN"
  else
    (if n.isNegative then "-" else "") ++
      if n.isInfinite then "inf"
      else positional n.shortest.digits n.shortest.exponent

/-- The digits of an integer below `10 ^ 15`, both zeros being `0`. -/
def integerText? (n : Number) : Option String :=
  match n.toInt? with
  | some i => if i.natAbs < tenTo 15 then some (toString i) else none
  | none => none

/-- The text of a number in a script. -/
def text (n : Number) : String :=
  if n.isNaN then "NaN"
  else if n.isInfinite then if n.isNegative then "-Infinity" else "Infinity"
  else if n.isZero then "0"
  -- fractions and integers beyond that have their shortest decimal
  else n.integerText?.getD n.plainText

/-- The property that a numeric literal names in an object literal. -/
def literalKey (n : Number) : String := n.integerText?.getD n.plainText

end Enclave.Number
