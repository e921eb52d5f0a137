/-!
# Numbers

The script's one kind of number: binary floating point of 64 bits, held as its bits so that two
numbers are the same value exactly when their bits are.

A number's *magnitude* is its bits without the sign, read as a natural number. It grows with the
absolute value, so comparison is comparison of signed magnitudes (`Number.rank`), with NaN left out.
A finite magnitude stands for `significand * 2 ^ exponent` (`Number.significand`,
`Number.exponent`).
-/

namespace Enclave

/-- A binary floating-point number of 64 bits. -/
structure Number where
  /-- Sign, eleven bits of exponent and fifty-two of fraction. -/
  bits : UInt64
  deriving DecidableEq, Inhabited

namespace Number

/-! ### Units -/

/-- The `k`-th power of two. -/
abbrev twoTo (k : Nat) : Nat := Nat.pow 2 k

/-- The `k`-th power of ten. -/
abbrev tenTo (k : Nat) : Nat := Nat.pow 10 k

/-! ### Magnitudes -/

/-- The magnitude of infinity: all exponent bits set and no other. Greater magnitudes are NaN. -/
def infiniteMagnitude : Nat := 0x7FF0000000000000

/-- The bits without the sign. -/
def magnitude (n : Number) : Nat := n.bits.toNat % twoTo 63

/-- Whether the sign bit is set; so it is for the negative zero, too. -/
def isNegative (n : Number) : Bool := twoTo 63 ≤ n.bits.toNat

/-- The number with the given sign and magnitude. -/
def ofMagnitude (negative : Bool) (magnitude : Nat) : Number :=
  ⟨UInt64.ofNat (magnitude % twoTo 63 + if negative then twoTo 63 else 0)⟩

def isNaN (n : Number) : Bool := infiniteMagnitude < n.magnitude

def isInfinite (n : Number) : Bool := n.magnitude = infiniteMagnitude

/-- Both zeros have magnitude zero. -/
def isZero (n : Number) : Bool := n.magnitude = 0

def zero : Number := ofMagnitude false 0

def infinity : Number := ofMagnitude false infiniteMagnitude

def nan : Number := ofMagnitude false (infiniteMagnitude + twoTo 51)

/-- The number with its sign turned; a NaN stays a NaN. -/
def negate (n : Number) : Number := ofMagnitude (!n.isNegative) n.magnitude

/-- The place of a number in the order of all numbers, equal for the two zeros. -/
def rank (n : Number) : Int := if n.isNegative then -n.magnitude else n.magnitude

/-- Equality of values: the two zeros are equal and NaN equals nothing. -/
def equals (a b : Number) : Bool := !a.isNaN && !b.isNaN && a.rank = b.rank

/-- Strict order of values; NaN is neither below nor above anything. -/
def below (a b : Number) : Bool := !a.isNaN && !b.isNaN && a.rank < b.rank

/-- The integer factor of a finite number. -/
def significand (n : Number) : Nat :=
  -- subnormal numbers lack the leading bit
  if n.magnitude < twoTo 52 then n.magnitude else n.magnitude % twoTo 52 + twoTo 52

/-- The power of two that the integer factor of a finite number is multiplied by. -/
def exponent (n : Number) : Int := max 1 (n.magnitude / twoTo 52 : Nat) - 1075

/-- The integer a finite number is equal to, if it is one. -/
def toInt? (n : Number) : Option Int :=
  if n.isNaN || n.isInfinite then none
  else
    let absolute : Option Nat :=
      if 0 ≤ n.exponent then some (n.significand * twoTo n.exponent.toNat)
      else
        -- a fraction is an integer if its last places are all zero
        let unit := twoTo (-n.exponent).toNat
        if n.significand % unit = 0 then some (n.significand / unit) else none
    absolute.map fun a => if n.isNegative then -(a : Int) else a

end Number

end Enclave
