import LoopCalc.Number.Text
import LoopCalc.Variable

/-!
What a session tells its host, in order: writes to variables, the completed reset, and messages.
-/

namespace LoopCalc

/-- One thing that a session tells its host. -/
inductive Event where
  /-- A variable took a value. -/
  | assigned (name : Variable) (value : Number)
  /-- All variables have been set to zero. -/
  | cleared
  /-- A line of output. -/
  | printed (text : String)
  /-- A warning. -/
  | warned (text : String)
  /-- The error that ended a run. -/
  | failed (text : String)
deriving DecidableEq

namespace Event

/-- What a reset tells: every variable in display order is zero, and that was all of them. -/
def reset : List Event :=
  (Variable.all.map fun v => .assigned v .zero) ++ [.cleared]

end Event

end LoopCalc
