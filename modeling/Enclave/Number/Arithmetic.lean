import Enclave.Number.Basic

/-!
# Arithmetic

Quotients of natural numbers and decimals are rounded to the nearest number, a tie going to the one
whose last bit is clear; what lies beyond the greatest number becomes infinity.

Sums, differences, products and quotients are those of the machine's floating-point unit. The
remainder is exact: it has the sign of the dividend and its absolute value is that of the dividend
less a whole number of divisors.
-/

namespace Enclave.Number

/-! ### Rounding -/

/-- The integer nearest to `numerator / denominator`, the even one of two. -/
def roundHalfEven (numerator denominator : Nat) : Nat :=
  let quotient := numerator / denominator
  let twice := 2 * (numerator % denominator)
  if twice < denominator then quotient
  else if denominator < twice then quotient + 1
  -- halfway between two, and the even one of them
  else quotient + quotient % 2

/-- Whether `2 ^ k ≤ numerator / denominator`. -/
def reachesPower (numerator denominator : Nat) (k : Int) : Bool :=
  denominator * twoTo k.toNat ≤ numerator * twoTo (-k).toNat

/-- The greatest `k` with `2 ^ k ≤ numerator / denominator`; both are positive. -/
def floorLog2 (numerator denominator : Nat) : Int :=
  -- the difference of the logarithms is right, or one too great
  let k : Int := numerator.log2 - denominator.log2
  if reachesPower numerator denominator k then k else k - 1

/-- The magnitude nearest to a quotient of positive numbers. Its last place is worth `2 ^ unit`,
where `unit` leaves fifty-three binary places, fewer only among the least numbers. The fifty-third
place, added to the scaled exponent rather than put beside it, carries the exponent by itself. -/
def nearestMagnitude (numerator denominator : Nat) : Nat :=
  let unit : Int := max (floorLog2 numerator denominator - 52) (-1074)
  let places := roundHalfEven (numerator * twoTo (-unit).toNat) (denominator * twoTo unit.toNat)
  -- beyond the greatest finite magnitude lies infinity
  min ((unit + 1074).toNat * twoTo 52 + places) infiniteMagnitude

/-- The number nearest to a quotient; a quotient without a denominator is zero. -/
def ofRatio (negative : Bool) (numerator denominator : Nat) : Number :=
  if numerator = 0 ∨ denominator = 0 then ofMagnitude negative 0
  else ofMagnitude negative (nearestMagnitude numerator denominator)

/-- The number nearest to `digits * 10 ^ exponent`. Far outside the range of finite numbers the
answer is known without computing the power of ten. -/
def ofDecimal (negative : Bool) (digits : Nat) (exponent : Int) : Number :=
  let places : Int := (Nat.toDigits 10 digits).length
  -- less than half of the least positive number
  if digits = 0 ∨ places + exponent < -400 then ofMagnitude negative 0
  else if 400 < places + exponent then ofMagnitude negative infiniteMagnitude
  else ofRatio negative (digits * tenTo exponent.toNat) (tenTo (-exponent).toNat)

/-- The number nearest to an integer. -/
def ofNat (n : Nat) : Number := ofRatio false n 1

/-! ### Operations -/

def toFloat (n : Number) : Float := Float.ofBits n.bits

def ofFloat (x : Float) : Number := ⟨x.toBits⟩

def add (a b : Number) : Number := ofFloat (a.toFloat + b.toFloat)

def subtract (a b : Number) : Number := ofFloat (a.toFloat - b.toFloat)

def multiply (a b : Number) : Number := ofFloat (a.toFloat * b.toFloat)

def divide (a b : Number) : Number := ofFloat (a.toFloat / b.toFloat)

/-- The remainder with the sign of the dividend. An infinite divisor leaves the dividend as it is;
without a divisor, or for an infinite dividend, there is no remainder. -/
def remainder (a b : Number) : Number :=
  if a.isNaN || b.isNaN || a.isInfinite || b.isZero then nan
  else if b.isInfinite then a
  else
    -- in units of the smaller exponent both are integers
    let unit := min a.exponent b.exponent
    let dividend := a.significand * twoTo (a.exponent - unit).toNat
    let divisor := b.significand * twoTo (b.exponent - unit).toNat
    let rest := dividend % divisor
    ofRatio a.isNegative (rest * twoTo unit.toNat) (twoTo (-unit).toNat)

end Enclave.Number
