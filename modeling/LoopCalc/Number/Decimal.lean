import LoopCalc.Number

/-!
Decimals and their nearest numbers. A decimal is a coefficient times a power of ten; reading it
rounds its exact value once. Exponents so far out that the result is already known are answered
without building the power of ten.
-/

namespace LoopCalc

/-- The exact value `coefficient * 10 ^ exponent`. -/
structure Decimal where
  coefficient : Nat
  exponent : Int
deriving DecidableEq

namespace Decimal

/-- The magnitude nearest to a decimal, found by one rounding of its exact value in units. -/
def nearestMagnitude (d : Decimal) : Nat :=
  if 0 ≤ d.exponent then
    Number.roundUnits (d.coefficient * Nat.pow 10 d.exponent.toNat * Number.unitsPerOne) 1
  else
    Number.roundUnits (d.coefficient * Number.unitsPerOne) (Nat.pow 10 (-d.exponent).toNat)

/-- The decimal is at least `10 ^ 309`, past every finite number. -/
def isHuge (d : Decimal) : Bool :=
  d.coefficient ≠ 0 ∧ 309 ≤ d.exponent

/-- The decimal is below half the least positive number: a coefficient of `b` bits is less than
`10 ^ b`. -/
def isTiny (d : Decimal) : Bool :=
  d.exponent + d.coefficient.log2 + 1 ≤ -324

end Decimal

namespace Number

/-- The number nearest to a decimal with the given sign. -/
def ofDecimal (sign : Sign) (d : Decimal) : Number :=
  if d.coefficient = 0 ∨ d.isTiny then zeroOf sign
  else if d.isHuge then infinite sign
  else ofMagnitude sign d.nearestMagnitude

end Number

end LoopCalc
