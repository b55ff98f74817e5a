import LoopCalc.Number
import LoopCalc.Variable
import LoopCalc.Source.Location

/-!
Programs: sequences of statements, each a display of one value or a loop around a program.
-/

namespace LoopCalc

/-- A value in a program: a number or the current value of a variable. -/
inductive Operand where
  | literal (value : Number)
  | reference (name : Variable)
deriving DecidableEq

/-- What a loop counts, and where its header stands. -/
structure Header where
  iterator : Variable
  start : Operand
  stop : Operand
  step : Operand
  location : Location
deriving DecidableEq

/-- A statement of a program. -/
inductive Statement where
  | disp (value : Operand) (location : Location)
  | loop (header : Header) (body : List Statement)

/-- A program, or the body of a loop. -/
abbrev Program := List Statement

namespace Statement

/-- Where the statement stands in its source text. -/
def location : Statement → Location
  | disp _ location => location
  | loop header _ => header.location

end Statement

end LoopCalc
