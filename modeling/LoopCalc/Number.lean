/-!
Numbers of the calculator: binary floating point with 52 fraction bits and 11 exponent bits.

A finite number is a sign and a magnitude. Magnitudes are counted upward from zero, so that the
order of numbers is the order of their magnitudes, and the number of magnitude `k` is the
natural number `units k` times `2 ^ (-1074)`. Every finite number is therefore a whole number of
units, sums are sums of integers, and one function, `roundUnits`, brings a quotient of naturals
back to the nearest magnitude.
-/

namespace LoopCalc

/-- The sign of a number; zero and infinity carry one too. -/
inductive Sign where
  | plus
  | minus
deriving DecidableEq

namespace Sign

/-- The integer of absolute value `n` with this sign. -/
def apply : Sign → Nat → Int
  | plus, n => n
  | minus, n => -n

/-- The sign of an integer, zero counting as positive. -/
def ofInt (i : Int) : Sign :=
  if i < 0 then minus else plus

end Sign

namespace Number

/-- Magnitudes with the same exponent: one for each value of the 52 fraction bits, `2 ^ 52`. -/
abbrev perExponent : Nat := 0x10000000000000

/-- How many magnitudes are finite; the next one stands for infinity. -/
abbrev magnitudeCount : Nat := 2047 * perExponent

end Number

/-- A calculator number. There is only one `nan`. -/
inductive Number where
  | nan
  | infinite (sign : Sign)
  | finite (sign : Sign) (magnitude : Fin Number.magnitudeCount)
deriving DecidableEq

namespace Number

/-- The units in the number one, `2 ^ 1074`. -/
def unitsPerOne : Nat :=
  Nat.pow 2 1074

/-- The value of magnitude `k` in units of `2 ^ (-1074)`. The lowest exponent has no leading one,
and above it each exponent doubles the spacing. -/
def units (k : Nat) : Nat :=
  if k / perExponent = 0 then k % perExponent
  else (perExponent + k % perExponent) <<< (k / perExponent - 1)

/-- The natural number nearest to `n / d`; a half goes to the even neighbour. -/
def divHalfEven (n d : Nat) : Nat :=
  match compare (2 * (n % d)) d with
  | .lt => n / d
  | .eq => n / d + n / d % 2
  | .gt => n / d + 1

/-- The magnitude nearest to `n / d` units; a tie goes to the even magnitude. The quotient is
scaled down to 53 significant bits and rounded. Each power of two so removed is one exponent, and
a carry out of the rounded bits moves to the next exponent by itself. -/
def roundUnits (n d : Nat) : Nat :=
  let scale := (n / d).log2 - 52
  scale * perExponent + divHalfEven n (d <<< scale)

/-- The number of the given sign and magnitude, infinite when the magnitude is too large. -/
def ofMagnitude (sign : Sign) (k : Nat) : Number :=
  if h : k < magnitudeCount then finite sign ⟨k, h⟩ else infinite sign

/-- Zero with the given sign. -/
def zeroOf (sign : Sign) : Number :=
  finite sign ⟨0, by decide⟩

/-- Positive zero. -/
def zero : Number :=
  zeroOf .plus

instance : Inhabited Number := ⟨zero⟩

/-- The integer `i`, rounded when it has more than 53 significant bits. -/
def ofInt (i : Int) : Number :=
  ofMagnitude (Sign.ofInt i) (roundUnits (i.natAbs * unitsPerOne) 1)

/-- Neither an infinity nor `nan`. -/
def isFinite : Number → Bool
  | finite .. => true
  | _ => false

def isNaN : Number → Bool
  | nan => true
  | _ => false

/-- The number without its sign. -/
def abs : Number → Number
  | nan => nan
  | infinite _ => infinite .plus
  | finite _ k => finite .plus k

/-- The sum of two finite numbers is their exact sum, rounded once. An exact zero is positive
unless both summands are negative zeros. -/
def addFinite (s : Sign) (j : Fin magnitudeCount) (t : Sign) (k : Fin magnitudeCount) : Number :=
  let sum := s.apply (units j) + t.apply (units k)
  if sum = 0 then
    if s = .minus ∧ t = .minus then zeroOf .minus else zero
  else
    ofMagnitude (Sign.ofInt sum) (roundUnits sum.natAbs 1)

/-- Addition. Opposite infinities have no sum. -/
def add : Number → Number → Number
  | nan, _ => nan
  | _, nan => nan
  | infinite s, infinite t => if s = t then infinite s else nan
  | infinite s, finite .. => infinite s
  | finite .., infinite t => infinite t
  | finite s j, finite t k => addFinite s j t k

instance : Add Number := ⟨add⟩

/-- The place of a number in the order: both zeros share one, and `nan` has none. -/
def rank? : Number → Option Int
  | nan => none
  | infinite s => some (s.apply magnitudeCount)
  | finite s k => some (s.apply k)

/-- `x` and `y` are numerically equal. `nan` equals nothing. -/
def sameValue (x y : Number) : Bool :=
  match x.rank?, y.rank? with
  | some i, some j => i == j
  | _, _ => false

/-- `x` is at most `y`. -/
def le (x y : Number) : Bool :=
  match x.rank?, y.rank? with
  | some i, some j => decide (i ≤ j)
  | _, _ => false

/-- `x` is less than `y`. -/
def lt (x y : Number) : Bool :=
  match x.rank?, y.rank? with
  | some i, some j => decide (i < j)
  | _, _ => false

/-- Either of the two zeros. -/
def isZero (x : Number) : Bool :=
  x.sameValue zero

/-- The value of the top bit of an encoding, `2 ^ 63`. -/
abbrev topBit : Nat := 0x8000000000000000

/-- The number with the given 64-bit encoding: the sign in the top bit, the magnitude below it. -/
def ofBits (word : UInt64) : Number :=
  let sign := if word.toNat < topBit then Sign.plus else Sign.minus
  let k := word.toNat % topBit
  if k ≤ magnitudeCount then ofMagnitude sign k else nan

/-- The 64-bit encoding of a number. -/
def toBits : Number → UInt64
  | nan => UInt64.ofNat (magnitudeCount + perExponent / 2)
  | infinite s => UInt64.ofNat (signBit s + magnitudeCount)
  | finite s k => UInt64.ofNat (signBit s + k)
where
  /-- The part of an encoding that says the sign. -/
  signBit : Sign → Nat
    | .plus => 0
    | .minus => topBit

end Number

end LoopCalc
