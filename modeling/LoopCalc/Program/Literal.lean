import LoopCalc.Number.Decimal

/-!
Numeric literals of a source text: an optional negative sign `~`, then digits, digits with a point
and more digits, or a point and digits.
-/

namespace LoopCalc

/-- A literal as it is written; an empty fraction has no point. -/
structure Literal where
  negative : Bool
  whole : List Char
  fraction : List Char
deriving DecidableEq

namespace Literal

/-- The characters of a literal. -/
def chars (l : Literal) : List Char :=
  (if l.negative then ['~'] else [])
    ++ l.whole
    ++ (if l.fraction = [] then [] else '.' :: l.fraction)

/-- The number a literal stands for, rounded from its exact value. -/
def value (l : Literal) : Number :=
  .ofDecimal (if l.negative then .minus else .plus)
    ⟨Nat.ofDigitChars 10 (l.whole ++ l.fraction) 0, -l.fraction.length⟩

/-- The unsigned literal that starts the text, with the given sign. A point is part of it only when
digits follow. -/
def unsignedAtFront? (negative : Bool) (cs : List Char) : Option Literal :=
  let whole := cs.takeWhile Char.isDigit
  let fraction :=
    match cs.dropWhile Char.isDigit with
    | '.' :: more => more.takeWhile Char.isDigit
    | _ => []
  if whole = [] ∧ fraction = [] then none else some ⟨negative, whole, fraction⟩

/-- The longest literal that starts the text. -/
def atFront? : List Char → Option Literal
  | '~' :: rest => unsignedAtFront? true rest
  | rest => unsignedAtFront? false rest

end Literal

end LoopCalc
