import LoopCalc.Event
import LoopCalc.Program
import LoopCalc.Store
import LoopCalc.Timeout

/-!
The machine that executes programs: the store, the place of the statement being executed, what has
been told to the host, and how often its clock has been read.
-/

namespace LoopCalc

/-- A write of a number that is not finite, which ends an execution. -/
structure Abort where
  name : Variable
  value : Number
deriving DecidableEq

namespace Abort

/-- The wording of the error. -/
def message (a : Abort) : String :=
  s!"Aborted: variable {a.name.name} became non-finite"

end Abort

/-- The state of an execution. -/
structure Machine where
  store : Store
  location : Option Location
  /-- Readings of the clock so far. -/
  readings : Nat
  /-- What has been told to the host, in order. -/
  trace : Array Event
deriving DecidableEq

/-- Why an execution stops before the end of its program. -/
inductive Stop where
  | aborted (abort : Abort)
  /-- A loop has made all the passes that its host allows. -/
  | unfinished
deriving DecidableEq

/-- A step of an execution. -/
abbrev Exec := EStateM Stop Machine

namespace Machine

/-- A machine on the given variables that has told nothing yet. -/
def start (store : Store) (location : Option Location) : Machine :=
  ⟨store, location, 0, #[]⟩

/-- The current value of an operand. -/
def value (m : Machine) : Operand → Number
  | .literal x => x
  | .reference v => m.store.get v

/-- The machine after it has told something. -/
def tell (m : Machine) (event : Event) : Machine :=
  { m with trace := m.trace.push event }

/-- The machine after a variable has taken a value, with the host told. -/
def write (m : Machine) (v : Variable) (x : Number) : Machine :=
  { m with store := m.store.set v x }.tell (.assigned v x)

/-- The machine after all variables have been set to zero, with the host told of each. -/
def reset (m : Machine) : Machine :=
  Event.reset.foldl tell { m with store := .blank }

end Machine

namespace Exec

/-- Execution has reached a statement. -/
def moveTo (location : Location) : Exec Unit :=
  modify fun m => { m with location := some location }

/-- Display an operand. -/
def display (operand : Operand) : Exec Unit :=
  modify fun m => m.tell (.printed (m.value operand).text)

/-- Write to a variable. A number that is not finite is refused and ends the execution. -/
def assign (v : Variable) (x : Number) : Exec Unit := do
  if x.isFinite then modify fun m => m.write v x else throw (.aborted ⟨v, x⟩)

/-- The time on the clock. -/
def now (clock : Clock) : Exec Nat :=
  modifyGet fun m => (clock m.readings, { m with readings := m.readings + 1 })

/-- Whether a deadline has passed. -/
def isPast (clock : Clock) : Option Nat → Exec Bool
  | none => return false
  | some deadline => return deadline < (← now clock)

end Exec

end LoopCalc
