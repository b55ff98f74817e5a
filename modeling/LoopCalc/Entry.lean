import LoopCalc.Number.Decimal
import LoopCalc.Text.Blank

/-!
Numbers typed by a user. A typed number is an optional sign, then digits with an optional point
and an optional exponent, or the name of an infinity or of `nan`. The calculator's negative sign
`~` may stand for every `-`. Text that is no number counts as zero.
-/

namespace LoopCalc.Entry

/-- An optional sign in front of a text. -/
def splitSign : List Char → Sign × List Char
  | '-' :: rest => (.minus, rest)
  | '+' :: rest => (.plus, rest)
  | rest => (.plus, rest)

/-- The exponent part after the digits of a typed number: nothing, or `e` with an optionally signed
integer. -/
def exponent? : List Char → Option Int
  | [] => some 0
  | c :: rest =>
      let (sign, digits) := splitSign rest
      if (c = 'e' ∨ c = 'E') ∧ digits ≠ [] ∧ digits.all Char.isDigit then
        some (sign.apply (Nat.ofDigitChars 10 digits 0))
      else
        none

/-- The digits after the point, and what follows them. -/
def splitFraction : List Char → List Char × List Char
  | '.' :: rest => (rest.takeWhile Char.isDigit, rest.dropWhile Char.isDigit)
  | rest => ([], rest)

/-- The decimal of a typed number without its sign. At least one digit is needed, on either side of
the point. -/
def decimal? (cs : List Char) : Option Decimal :=
  let whole := cs.takeWhile Char.isDigit
  let (fraction, rest) := splitFraction (cs.dropWhile Char.isDigit)
  if whole = [] ∧ fraction = [] then none
  else
    (exponent? rest).map fun power =>
      ⟨Nat.ofDigitChars 10 (whole ++ fraction) 0, power - fraction.length⟩

/-- A number given by name, in any case. -/
def named? (sign : Sign) (cs : List Char) : Option Number :=
  let name := cs.map Char.toLower
  if name = "inf".toList ∨ name = "infinity".toList then some (.infinite sign)
  else if name = "nan".toList then some .nan
  else none

/-- The number that a text spells, if it spells one. -/
def number? (cs : List Char) : Option Number :=
  let (sign, body) := splitSign cs
  match decimal? body with
  | some d => some (.ofDecimal sign d)
  | none => named? sign body

/-- The text with the calculator's negative sign in its usual spelling. -/
def plainSigns (cs : List Char) : List Char :=
  cs.map fun c => if c = '~' then '-' else c

/-- The number a user typed; blanks around it do not count. -/
def read (text : String) : Number :=
  (number? (plainSigns (Text.trim text.toList))).getD .zero

end LoopCalc.Entry
