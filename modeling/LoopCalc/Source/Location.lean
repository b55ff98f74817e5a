/-!
Places in a source text.
-/

namespace LoopCalc

/-- A place in a source text. Lines and columns count from one, columns in characters. -/
structure Location where
  line : Nat
  column : Nat
deriving DecidableEq

namespace Location

/-- The place as `line:column`. -/
def text (l : Location) : String :=
  s!"{l.line}:{l.column}"

end Location

end LoopCalc
