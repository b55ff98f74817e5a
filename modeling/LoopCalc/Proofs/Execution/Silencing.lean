import LoopCalc.Proofs.Execution.Endings
import LoopCalc.Proofs.Execution.Simulation
import LoopCalc.Proofs.Session.Mirror

/-! Programs without their displays. A display moves the execution on and tells of a line, and no
loop looks at either. So a program and what is left of it without its displays make the same passes
and the same writes, step for step, and they end in the same way or not at all.
-/

namespace LoopCalc

-----------------------------------------------------------------------------------------
-- Taking out the displays
-----------------------------------------------------------------------------------------

mutual

/-- What is left of a statement without its displays, at any depth. -/
def Statement.silenced : Statement → List Statement
  | .disp .. => []
  | .loop header body => [.loop header (Program.silenced body)]

/-- What is left of a program without its displays, at any depth. -/
def Program.silenced : List Statement → List Statement
  | [] => []
  | statement :: rest => statement.silenced ++ Program.silenced rest

end

/-- The event tells of a write. -/
def Event.isAssigned : Event → Bool
  | assigned .. => true
  | cleared | printed _ | warned _ | failed _ => false

/-- A write is not a message. -/
theorem Event.isMessage_of_isAssigned {event : Event} (h : event.isAssigned = true)
    : event.isMessage = false := by
  cases event with
  | assigned v x => rfl
  | _ => cases h

-----------------------------------------------------------------------------------------
-- Machines that differ by displays
-----------------------------------------------------------------------------------------

/-- The second machine is at the same numbers and readings, and has told of the same writes and of
nothing else. Where the machines stand makes no difference. -/
structure Machine.Echoes (m quiet : Machine) : Prop where
  store_eq : quiet.store = m.store
  readings_eq : quiet.readings = m.readings
  trace_eq : quiet.trace.toList = m.trace.toList.filter Event.isAssigned

namespace Machine

/-- Machines stay echoes of each other if both write the same. -/
theorem Echoes.write {m quiet : Machine} (h : m.Echoes quiet) (v : Variable) (x : Number)
    : (m.write v x).Echoes (quiet.write v x) where
  store_eq := congrArg (Table.set · v x) h.store_eq
  readings_eq := h.readings_eq
  trace_eq := by
    simp only [Machine.write, tell, Array.toList_push, List.filter_append, h.trace_eq]
    rfl

/-- A display is heard in the first machine only. -/
theorem Echoes.display {m quiet : Machine} (h : m.Echoes quiet) (value : Operand)
    (location : Location)
    : ({ m with location := some location }.tell (.printed (m.value value).text)).Echoes quiet where
  store_eq := h.store_eq
  readings_eq := h.readings_eq
  trace_eq := by
    simp only [tell, Array.toList_push, List.filter_append, h.trace_eq]
    exact (List.append_nil _).symm

/-- All that loops do is compatible with leaving out the displays. -/
theorem compatible_echoes : Compatible Echoes where
  store_eq := Echoes.store_eq
  readings_eq := Echoes.readings_eq
  move h _ := ⟨h.store_eq, h.readings_eq, h.trace_eq⟩
  write h v x := h.write v x
  look h := ⟨h.store_eq, congrArg (· + 1) h.readings_eq, h.trace_eq⟩

end Machine

-----------------------------------------------------------------------------------------
-- Executions that differ by displays
-----------------------------------------------------------------------------------------

open Machine (Echoes compatible_echoes)

mutual

/-- A silenced statement simulates the statement, where a display becomes nothing at all. By
recursion on the statement together with programs. -/
theorem Statement.simulates_silenced (limits : Limits) (statement : Statement)
    : Exec.Simulates Echoes Eq (statement.exec limits)
        (Program.exec limits statement.silenced) := by
  cases statement with
  | disp value location =>
      rw [Statement.exec, Statement.silenced, Program.exec]
      exact fun m quiet h => .ok () (h.display value location)
  | loop header body =>
      rw [Statement.silenced, Program.exec_singleton]
      exact compatible_echoes.simulates_loop header limits (Program.simulates_silenced limits body)
termination_by structural statement

/-- The program without its displays goes through the same writes and stops where they stop. -/
theorem Program.simulates_silenced (limits : Limits) (program : List Statement)
    : Exec.Simulates Echoes Eq (Program.exec limits program)
        (Program.exec limits (Program.silenced program)) := by
  cases program with
  | nil =>
      rw [Program.silenced, Program.exec]
      exact Exec.simulates_pure ()
  | cons statement rest =>
      rw [Program.silenced, Program.exec, Program.exec_append]
      exact (statement.simulates_silenced limits).bind fun _ =>
        Program.simulates_silenced limits rest
termination_by structural program

end

namespace Session

/-- A silenced program ends alike, leaves the same variables, and tells the writes only. -/
theorem execute_silenced (s : Session) (pace : Pace) (program : Program)
    : let full := s.execute pace program
      let quiet := s.execute pace (Program.silenced program)
      quiet.ending = full.ending
      ∧ quiet.session.store = full.session.store
      ∧ quiet.events = full.events.filter Event.isAssigned := by
  have hstart : (Machine.start s.store s.location).Echoes (.start s.store s.location) :=
    ⟨rfl, rfl, rfl⟩
  have houtcomes := Program.simulates_silenced ⟨pace, s.options.loopTimeout⟩ program _ _ hstart
  dsimp only
  rw [execute, execute, executeOn, executeOn]
  generalize Program.exec _ program _ = full at houtcomes
  generalize Program.exec _ (Program.silenced program) _ = quiet at houtcomes
  cases houtcomes with
  | ok _ machines => exact ⟨rfl, machines.store_eq, machines.trace_eq⟩
  | error stops machines =>
      cases stops
      exact ⟨rfl, machines.store_eq, machines.trace_eq⟩

/-- An execution and that of the program without its displays are both endless, or both end: in the
same way, with the same numbers in all variables, and having told of the same writes in the same
order. Without its displays a program tells of nothing but writes. -/
theorem displays_write_nothing (s : Session) (clock : Clock) (program : Program)
    : (s.Endless clock program ∧ s.Endless clock (Program.silenced program)
        ∨ ∃ full quiet,
            s.Ends clock program full
            ∧ s.Ends clock (Program.silenced program) quiet
            ∧ quiet.ending = full.ending
            ∧ quiet.session.store = full.session.store
            ∧ quiet.events.filter Event.isAssigned = full.events.filter Event.isAssigned)
      ∧ ∀ passes,
          (s.execute (.prompt clock passes) (Program.silenced program)).events.filter Event.isMessage
            = [] := by
  have hsame := fun passes => s.execute_silenced (.prompt clock passes) program
  dsimp only at hsame
  constructor
  · by_cases hendless : s.Endless clock program
    · exact Or.inl ⟨hendless, fun passes => (hsame passes).1.trans (hendless passes)⟩
    · obtain ⟨passes, hfinished⟩ := Classical.not_forall.1 hendless
      obtain ⟨hending, hstore, hevents⟩ := hsame passes
      refine Or.inr ⟨_, _, ends_of_finished hfinished, ends_of_finished ?_, hending, hstore, ?_⟩
      · rw [hending]
        exact hfinished
      · rw [hevents, List.filter_filter]
        simp only [Bool.and_self]
  · intro passes
    rw [(hsame passes).2.2, List.filter_eq_nil_iff]
    intro event he
    rw [Event.isMessage_of_isAssigned (List.mem_filter.1 he).2]
    exact Bool.false_ne_true

end Session

end LoopCalc
