import Enclave.Number.Basic

/-!
# Shortest decimals

The decimal with the fewest digits that reads back to a given number.

A finite positive number stands for every real closer to it than to its neighbours. `Candidate`s are
the two decimals next to the number with a given count of digits; the first count with a candidate
inside that interval wins, and of two candidates inside the nearer one, the greater if both are
equally near.
-/

namespace Enclave.Number

/-- A positive decimal `digits * 10 ^ exponent`. -/
structure ShortDecimal where
  digits : Nat
  exponent : Int
  deriving DecidableEq

/-- The reals that round to one number, in quarters of its last place: `scale` quarters make the
unit `2 ^ exponent / 4`, and the bounds belong to the interval if `closed`. -/
structure Interval where
  low : Nat
  value : Nat
  high : Nat
  exponent : Int
  closed : Bool

/-- The interval of a finite positive number. Below a power of two the neighbour is only half as far
away. -/
def interval (n : Number) : Interval :=
  let m := n.significand
  -- the least number of a binade is closer to the one below it than to the one above
  let below := if m = twoTo 52 ∧ twoTo 53 ≤ n.magnitude then 1 else 2
  ⟨4 * m - below, 4 * m, 4 * m + 2, n.exponent - 2, m % 2 = 0⟩

/-- A multiple of a power of two over a power of ten, as a quotient of natural numbers. -/
def scaled (m : Nat) (binary decimal : Int) : Nat × Nat :=
  (m * twoTo binary.toNat * tenTo (-decimal).toNat, twoTo (-binary).toNat * tenTo decimal.toNat)

/-- Whether `digits * 10 ^ decimal` lies in the interval. -/
def Interval.holds (i : Interval) (digits : Nat) (decimal : Int) : Bool :=
  let (low, unit) := scaled i.low i.exponent decimal
  let (high, _) := scaled i.high i.exponent decimal
  if i.closed then low ≤ digits * unit && digits * unit ≤ high
  else low < digits * unit && digits * unit < high

/-- The shortest decimal in the interval whose last digit is worth `10 ^ decimal`. -/
def Interval.candidate? (i : Interval) (decimal : Int) : Option ShortDecimal :=
  let (value, unit) := scaled i.value i.exponent decimal
  let down := value / unit
  let downFits := 0 < down && i.holds down decimal
  let upFits := i.holds (down + 1) decimal
  -- the greater one if the smaller one does not fit or is no nearer
  if downFits && (!upFits || 2 * (value % unit) < unit) then some ⟨down, decimal⟩
  else if upFits then some ⟨down + 1, decimal⟩
  else none

/-- The number of decimal places before the point in the integer part of `m * 2 ^ binary`, or minus
the number of zeros after the point if there is no integer part. -/
def decimalPlaces (m : Nat) (binary : Int) : Int :=
  if 0 ≤ binary then (Nat.toDigits 10 (m * twoTo binary.toNat)).length
  else
    let unit := twoTo (-binary).toNat
    if unit ≤ m then (Nat.toDigits 10 (m / unit)).length
    -- the zeros are counted by the digits of the reciprocal, rounded up
    else 1 - ((Nat.toDigits 10 ((unit + m - 1) / m)).length : Int)

/-- The decimal of fewest digits that reads back to a finite positive number; seventeen digits
always do. -/
def shortest (n : Number) : ShortDecimal :=
  let i := n.interval
  let places := decimalPlaces n.significand n.exponent
  -- from no digit on, each round with one digit more
  ((List.range 18).findSome? fun (count : Nat) => i.candidate? (places - count)).getD
    ⟨i.value, i.exponent⟩

end Enclave.Number
