import LoopCalc.Proofs.Execution.Simulation

/-! What executions tell. They tell of displays and of writes to the iterators of their programs,
and they never look back at what they have told: had more been told before an execution, it would
end the same way, in the same state, and tell the same.
-/

namespace LoopCalc

-----------------------------------------------------------------------------------------
-- What can be told
-----------------------------------------------------------------------------------------

/-- An execution whose loops count in the given variables may tell of the event. -/
inductive Event.Told (iterators : List Variable) : Event → Prop
  | printed (text : String)
    : Told iterators (.printed text)
  | assigned {v : Variable} {x : Number} (counts : v ∈ iterators) (finite : x.isFinite = true)
    : Told iterators (.assigned v x)

namespace Machine

/-- All events in the trace are ones that such an execution may tell of. -/
def OnlyTold (iterators : List Variable) (m : Machine) : Prop :=
  ∀ event ∈ m.trace.toList, event.Told iterators

variable {iterators : List Variable} {m next : Machine}

/-- A machine that has told such events only, and tells another one, has told such events only. -/
theorem OnlyTold.tell (h : m.OnlyTold iterators) {event : Event} (he : event.Told iterators)
    : (m.tell event).OnlyTold iterators := by
  intro later hl
  rw [Machine.tell, Array.toList_push, List.mem_append, List.mem_singleton] at hl
  rcases hl with hl | rfl
  · exact h later hl
  · exact he

/-- A step tells of writes to iterators and of output only, by cases on the step. -/
theorem Step.onlyTold (hs : Step iterators m next) (h : m.OnlyTold iterators)
    : next.OnlyTold iterators := by
  cases hs with
  | move location => exact h
  | display operand => exact h.tell (.printed _)
  | write counts finite => exact OnlyTold.tell h (.assigned counts finite)
  | look => exact h

/-- Steps tell of writes to iterators and of output only, as an invariant. -/
theorem Steps.onlyTold (hs : Steps iterators m next) (h : m.OnlyTold iterators)
    : next.OnlyTold iterators :=
  hs.keeps (fun step told => step.onlyTold told) h

end Machine

-----------------------------------------------------------------------------------------
-- What was told before does not matter
-----------------------------------------------------------------------------------------

namespace Machine

/-- The machine, had the given events been told before all that it has told. -/
def precededBy (told : Array Event) (m : Machine) : Machine :=
  { m with trace := told ++ m.trace }

/-- Events told before stay before those told later. -/
theorem precededBy_tell (told : Array Event) (m : Machine) (event : Event)
    : (m.precededBy told).tell event = (m.tell event).precededBy told := by
  rw [tell, tell, precededBy, precededBy, Array.append_push]

/-- A write tells its event behind those told before. -/
theorem precededBy_write (told : Array Event) (m : Machine) (v : Variable) (x : Number)
    : (m.precededBy told).write v x = (m.write v x).precededBy told :=
  precededBy_tell told { m with store := m.store.set v x } (.assigned v x)

/-- All that loops do is compatible with events told before. -/
theorem compatible_precededBy (told : Array Event)
    : Compatible fun m later => later = m.precededBy told where
  store_eq := by
    rintro m _ rfl
    rfl
  readings_eq := by
    rintro m _ rfl
    rfl
  move := by
    rintro m _ rfl location
    rfl
  write := by
    rintro m _ rfl v x
    exact precededBy_write told m v x
  look := by
    rintro m _ rfl
    rfl

end Machine

namespace Exec

/-- The same outcome in a changed machine. -/
def onMachine {α : Type} (f : Machine → Machine)
    : EStateM.Result Stop Machine α → EStateM.Result Stop Machine α
  | .ok a m => .ok a (f m)
  | .error stop m => .error stop (f m)

/-- The action does not depend on what was told before it. -/
def Unmindful {α : Type} (x : Exec α) : Prop :=
  ∀ told m, x (m.precededBy told) = onMachine (Machine.precededBy told) (x m)

/-- An action that simulates itself behind any events is unmindful of them. -/
theorem unmindful_of_simulates {α : Type} {x : Exec α}
    (hx : ∀ told, Simulates (fun m later => later = m.precededBy told) Eq x x)
    : x.Unmindful := by
  intro told m
  have houtcomes := hx told m _ rfl
  generalize x (m.precededBy told) = after at houtcomes
  generalize x m = before at houtcomes
  cases houtcomes with
  | ok a machines =>
      subst machines
      rfl
  | error stops machines =>
      subst stops machines
      rfl

end Exec

mutual

/-- A statement does the same behind any events, by recursion on it together with programs. -/
theorem Statement.simulates_precededBy (told : Array Event) (limits : Limits)
    (statement : Statement)
    : Exec.Simulates (fun m later => later = m.precededBy told) Eq (statement.exec limits)
        (statement.exec limits) := by
  cases statement with
  | disp value location =>
      rw [Statement.exec]
      refine ((Machine.compatible_precededBy told).simulates_moveTo location).bind fun _ => ?_
      rintro m _ rfl
      exact .ok () (m.precededBy_tell told _)
  | loop header body =>
      exact (Machine.compatible_precededBy told).simulates_loop header limits
        (Program.simulates_precededBy told limits body)
termination_by structural statement

/-- A program does the same behind any events, statement by statement. -/
theorem Program.simulates_precededBy (told : Array Event) (limits : Limits)
    (program : List Statement)
    : Exec.Simulates (fun m later => later = m.precededBy told) Eq (Program.exec limits program)
        (Program.exec limits program) := by
  cases program with
  | nil =>
      rw [Program.exec]
      exact Exec.simulates_pure ()
  | cons statement rest =>
      rw [Program.exec]
      exact (statement.simulates_precededBy told limits).bind fun _ =>
        Program.simulates_precededBy told limits rest
termination_by structural program

end

/-- An execution does not depend on what was told before it. -/
theorem Program.unmindful_exec (limits : Limits) (program : List Statement)
    : (Program.exec limits program).Unmindful :=
  Exec.unmindful_of_simulates fun told => Program.simulates_precededBy told limits program

end LoopCalc
