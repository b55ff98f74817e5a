import LoopCalc.Number.Decimal

/-!
The shortest decimal of a number: of all decimals that read back as the number, one on the
coarsest power-of-ten grid, and on that grid the nearest.

Everything is measured in steps of `2 ^ (-1075) * 10 ^ (-324)`, in which numbers, the midpoints
between neighbouring numbers, and the points of every grid from `10 ^ (-324)` upward are natural
numbers. A grid finer than that is never needed, because neighbouring numbers are further apart.
-/

namespace LoopCalc

namespace Number

/-- The exponent of the finest grid, `10 ^ (-324)`. -/
abbrev finestExponent : Int := -324

/-- The points of the finest grid up to the number one, `10 ^ 324`. -/
def pointsPerOne : Nat :=
  Nat.pow 10 324

/-- One point of the grid `10 ^ (level - 324)` in steps. -/
def gridStep (level : Nat) : Nat :=
  Nat.pow 10 level * (2 * unitsPerOne)

/-- The value of magnitude `k` in steps. -/
def steps (k : Nat) : Nat :=
  2 * units k * pointsPerOne

/-- The midpoint between magnitude `k` and the one below it, in steps. -/
def lowerMidpoint (k : Nat) : Nat :=
  (units (k - 1) + units k) * pointsPerOne

/-- The midpoint between magnitude `k` and the one above it, in steps. -/
def upperMidpoint (k : Nat) : Nat :=
  (units k + units (k + 1)) * pointsPerOne

/-- A value of `x` steps reads back as magnitude `k`: it lies between the midpoints, which
themselves belong to the even neighbour. -/
def readsBack (k x : Nat) : Bool :=
  if k % 2 = 0 then lowerMidpoint k ≤ x ∧ x ≤ upperMidpoint k
  else lowerMidpoint k < x ∧ x < upperMidpoint k

/-- The coefficient of a decimal on the given grid that reads back as magnitude `k`, if there is
one: the nearer of the two grid points around the value, an exact tie going to the upper one. -/
def onGrid? (k level : Nat) : Option Nat :=
  let step := gridStep level
  let below := steps k / step
  let above := below + 1
  match readsBack k (below * step), readsBack k (above * step) with
  | true, true => some (if 2 * (steps k % step) < step then below else above)
  | true, false => some below
  | false, true => some above
  | false, false => none

/-- The coarsest grid from the given one downward that holds a decimal for magnitude `k`, with the
coefficient. The finest grid is the last resort. -/
def shortestFrom (k : Nat) : Nat → Decimal
  | 0 => ⟨(onGrid? k 0).getD 0, finestExponent⟩
  | level + 1 =>
      match onGrid? k (level + 1) with
      | some coefficient => ⟨coefficient, level + 1 + finestExponent⟩
      | none => shortestFrom k level

/-- A grid whose first step lies above the value of magnitude `k`: since `2 ^ 93 < 10 ^ 28`, a
natural number of `b` bits is less than `10 ^ (28 * b / 93 + 1)`. -/
def topLevel (k : Nat) : Nat :=
  28 * ((steps k / gridStep 0).log2 + 1) / 93 + 1

/-- The shortest decimal that reads back as magnitude `k`, nearest to it among the shortest. -/
def shortest (k : Nat) : Decimal :=
  if k = 0 then ⟨0, 0⟩ else shortestFrom k (topLevel k)

end Number

end LoopCalc
