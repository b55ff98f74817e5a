import LoopCalc.Number
import LoopCalc.Table

/-!
The variable store: a number for each of the variables.
-/

namespace LoopCalc

/-- A name that no variable has. -/
structure UnknownName where
  name : String
deriving DecidableEq

namespace UnknownName

/-- The wording of the error. -/
def message (e : UnknownName) : String :=
  s!"Unknown variable '{e.name}'"

end UnknownName

namespace Variable

/-- The variable with the given name, or the error that there is none. -/
def find (name : String) : Except UnknownName Variable :=
  match ofName? name with
  | some v => .ok v
  | none => .error ⟨name⟩

end Variable

/-- The values of all variables. -/
abbrev Store := Table Number

namespace Store

/-- Every variable is zero. -/
def blank : Store :=
  Table.const .zero

/-- The value of the variable with the given name. -/
def lookup (s : Store) (name : String) : Except UnknownName Number :=
  (Variable.find name).map s.get

/-- Every variable of a blank store is zero. -/
@[simp]
theorem get_blank (v : Variable) : blank.get v = .zero := by
  simp [blank]

end Store

end LoopCalc
