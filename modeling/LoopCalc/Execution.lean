import LoopCalc.Machine

/-!
Execution of programs. A loop stores its start, and then makes passes as long as its condition
holds; the step and the end are read anew for each check, so the body can move them. Each
activation has its own deadline, and a loop past its deadline just stops.
-/

namespace LoopCalc

/-- What limits the loops of an execution. -/
structure Limits where
  pace : Pace
  timeout : Timeout

namespace Header

/-- The loop makes another pass: a negative step counts down to the end, any other counts up, and
the end itself is included. -/
def holds (h : Header) (m : Machine) : Bool :=
  let step := m.value h.step
  let current := m.store.get h.iterator
  let stop := m.value h.stop
  (step.lt .zero && stop.le current) || (Number.zero.le step && current.le stop)

/-- Add the step to the iterator, which is the header's own doing. -/
def increment (h : Header) : Exec Unit := do
  Exec.moveTo h.location
  let m ← get
  Exec.assign h.iterator (m.store.get h.iterator + m.value h.step)

/-- Whether a pass is due: the condition holds and the deadline has not passed. The clock is read
only if the condition holds. -/
def isDue (h : Header) (clock : Clock) (deadline? : Option Nat) : Exec Bool := do
  if h.holds (← get) then return !(← Exec.isPast clock deadline?) else return false

/-- Make passes as long as they are due, up to the given number. -/
def passes (h : Header) (clock : Clock) (deadline? : Option Nat) (body : Exec Unit)
    : Nat → Exec Unit
  | 0 => do
      if ← h.isDue clock deadline? then throw .unfinished
  | left + 1 => do
      if ← h.isDue clock deadline? then
        body
        h.increment
        h.passes clock deadline? body left

/-- Run the loop with this header around a body. -/
def run (h : Header) (limits : Limits) (body : Exec Unit) : Exec Unit := do
  Exec.assign h.iterator ((← get).value h.start)
  let deadline? := limits.timeout.deadline? (← Exec.now limits.pace.clock)
  h.passes limits.pace.clock deadline? body limits.pace.passes

end Header

mutual

/-- Execute a statement. -/
def Statement.exec (limits : Limits) : Statement → Exec Unit
  | .disp value location => do
      Exec.moveTo location
      Exec.display value
  | .loop header body => do
      Exec.moveTo header.location
      header.run limits (Program.exec limits body)

/-- Execute the statements of a program in order. -/
def Program.exec (limits : Limits) : List Statement → Exec Unit
  | [] => return
  | statement :: rest => do
      statement.exec limits
      Program.exec limits rest

end

end LoopCalc
