import LoopCalc.Number.Shortest

/-!
Number texts. The calculator writes a number with its fewest digits, positionally in the middle
range and with an exponent outside it. The plain style is always positional and spells signed
zero and the infinities its own way.
-/

namespace LoopCalc

namespace Decimal

/-- The digits of the coefficient. -/
def digits (d : Decimal) : List Char :=
  Nat.toDigits 10 d.coefficient

/-- A decimal written without an exponent. -/
def positional (d : Decimal) : List Char :=
  let digits := d.digits
  if 0 ≤ d.exponent then
    digits ++ List.replicate d.exponent.toNat '0'
  else
    let places := (-d.exponent).toNat
    if places < digits.length then
      digits.take (digits.length - places) ++ '.' :: digits.drop (digits.length - places)
    else
      '0' :: '.' :: (List.replicate (places - digits.length) '0' ++ digits)

/-- A decimal written with one digit before the point and a signed exponent. -/
def scientific (d : Decimal) : List Char :=
  let power := d.exponent + d.digits.length - 1
  let significand :=
    match d.digits with
    | lead :: more@(_ :: _) => lead :: '.' :: more
    | digits => digits
  let sign := if 0 ≤ power then '+' else '-'
  significand ++ 'e' :: sign :: Nat.toDigits 10 power.natAbs

end Decimal

namespace Sign

/-- A text with the sign in front. -/
def write : Sign → List Char → List Char
  | plus, text => text
  | minus, text => '-' :: text

end Sign

namespace Number

/-- The least positive number that is written positionally. -/
def positionalFrom : Number :=
  ofDecimal .plus ⟨1, -6⟩

/-- The least positive number past the positional range. -/
def positionalBelow : Number :=
  ofDecimal .plus ⟨1, 21⟩

/-- The number lies in the positional range. -/
def isPositional (x : Number) : Bool :=
  positionalFrom.le x.abs && x.abs.lt positionalBelow

/-- The characters of a number as the calculator displays it; both zeros are `0`. -/
def chars (x : Number) : List Char :=
  match x with
  | nan => "NaN".toList
  | infinite s => s.write "Infinity".toList
  | finite s k =>
      if k.val = 0 then ['0']
      else if x.isPositional then s.write (shortest k).positional
      else s.write (shortest k).scientific

/-- A number as the calculator displays it. -/
def text (x : Number) : String :=
  String.ofList x.chars

/-- A number without any exponent, its sign always written. -/
def plainText : Number → String
  | nan => "NaN"
  | infinite s => String.ofList (s.write "inf".toList)
  | finite s k => String.ofList (s.write (shortest k).positional)

/-- A number as displayed, except that negative zero shows its sign. -/
def signedText (x : Number) : String :=
  if x = zeroOf .minus then "-0" else x.text

end Number

end LoopCalc
