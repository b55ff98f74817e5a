import Mathlib.Logic.Equiv.Defs
import LoopCalc.Proofs.Execution.Endings
import LoopCalc.Proofs.Execution.Simulation
import LoopCalc.Proofs.Session.Listeners

/-! Programs under other names. An execution asks of a variable only what it holds and whether it is
the one written to, so no variable has a part of its own in it. If the variables trade places, in
the program and with their values, then the execution goes the same way step for step and tells the
same, but for the names.
-/

namespace LoopCalc

open Equiv (Perm)

-----------------------------------------------------------------------------------------
-- Other names for the variables
-----------------------------------------------------------------------------------------

/-- The table with every value moved to the variable that takes the place of its own. It is known by
`get_renamed` and never computed in proofs. -/
@[irreducible]
def Table.renamed {α : Type} (p : Perm Variable) (t : Table α) : Table α :=
  ⟨Vector.ofFn fun i => t.get (p.symm (.ofIndex i))⟩

namespace Table

variable {α : Type} (p : Perm Variable)

/-- A renamed table has under the new name what the table has under the old one. -/
theorem get_renamed (t : Table α) (v : Variable) : (t.renamed p).get (p v) = t.get v := by
  simp [renamed, get]

/-- No two variables trade places with the same one, so a write reaches one variable only. -/
theorem get_set_apply {t u : Table α} (h : ∀ v, u.get (p v) = t.get v) (v w : Variable) (x : α)
    : (u.set (p v) x).get (p w) = (t.set v x).get w := by
  simp only [get_set, h, p.injective.eq_iff]

end Table

/-- The operand under the other names. -/
def Operand.renamed (p : Perm Variable) : Operand → Operand
  | literal x => literal x
  | reference v => reference (p v)

/-- The header under the other names. -/
def Header.renamed (p : Perm Variable) (h : Header) : Header where
  iterator := p h.iterator
  start := h.start.renamed p
  stop := h.stop.renamed p
  step := h.step.renamed p
  location := h.location

mutual

/-- The statement under the other names, at any depth. -/
def Statement.renamed (p : Perm Variable) : Statement → Statement
  | .disp value location => .disp (value.renamed p) location
  | .loop header body => .loop (header.renamed p) (Program.renamed p body)

/-- The program under the other names, at any depth. -/
def Program.renamed (p : Perm Variable) : List Statement → List Statement
  | [] => []
  | statement :: rest => statement.renamed p :: Program.renamed p rest

end

/-- The event under the other names. Messages are left as they are. -/
def Event.renamed (p : Perm Variable) : Event → Event
  | assigned v x => assigned (p v) x
  | cleared => cleared
  | printed text => printed text
  | warned text => warned text
  | failed text => failed text

/-- Renaming does not show in a transcript. No line names a variable that was written. -/
theorem Event.line?_renamed (p : Perm Variable) (event : Event)
    : (event.renamed p).line? = event.line? := by
  cases event <;> rfl

/-- The abort under the other names. -/
def Abort.renamed (p : Perm Variable) (a : Abort) : Abort :=
  { a with name := p a.name }

/-- The second reason to stop is the first one under the other names. -/
inductive Stop.Renames (p : Perm Variable) : Stop → Stop → Prop
  | aborted (abort : Abort) : Renames p (.aborted abort) (.aborted (abort.renamed p))
  | unfinished : Renames p .unfinished .unfinished

/-- The ending under the other names. A rejected source gives no names. -/
def Ending.renamed (p : Perm Variable) : Ending → Ending
  | completed => completed
  | rejected fault => rejected fault
  | aborted abort => aborted (abort.renamed p)
  | unfinished => unfinished

/-- A renamed stop is a renamed ending, by cases on the stop. -/
theorem Stop.Renames.ofStop_eq {p : Perm Variable} {stop reason : Stop} (h : stop.Renames p reason)
    : Ending.ofStop reason = (Ending.ofStop stop).renamed p := by
  cases h <;> rfl

/-- Renaming neither finishes an execution nor leaves it unfinished. -/
theorem Ending.renamed_eq_unfinished (p : Perm Variable) (ending : Ending)
    : ending.renamed p = unfinished ↔ ending = unfinished := by
  cases ending <;> simp [renamed]

-----------------------------------------------------------------------------------------
-- Machines under other names
-----------------------------------------------------------------------------------------

/-- The second machine is the first one under the other names: every value has moved, and the events
are told of the variables that took the places. -/
structure Machine.Renames (p : Perm Variable) (m other : Machine) : Prop where
  get_eq : ∀ v, other.store.get (p v) = m.store.get v
  location_eq : other.location = m.location
  readings_eq : other.readings = m.readings
  trace_eq : other.trace.toList = m.trace.toList.map (Event.renamed p)

namespace Machine.Renames

variable {p : Perm Variable} {m other : Machine}

/-- A renamed operand has the value that the operand has in the other machine. -/
theorem value_eq (h : m.Renames p other) (operand : Operand)
    : other.value (operand.renamed p) = m.value operand := by
  cases operand with
  | literal x => rfl
  | reference v => exact h.get_eq v

/-- Machines that go to the same place stay renamed. -/
theorem move (h : m.Renames p other) (location : Location)
    : Renames p { m with location := location } { other with location := location } :=
  ⟨h.get_eq, rfl, h.readings_eq, h.trace_eq⟩

/-- Machines that both read the clock stay renamed. -/
theorem look (h : m.Renames p other)
    : Renames p { m with readings := m.readings + 1 }
        { other with readings := other.readings + 1 } :=
  ⟨h.get_eq, h.location_eq, congrArg (· + 1) h.readings_eq, h.trace_eq⟩

/-- Machines stay renamed if one tells the renamed event. -/
theorem tell (h : m.Renames p other) (event : Event)
    : (m.tell event).Renames p (other.tell (event.renamed p)) where
  get_eq := h.get_eq
  location_eq := h.location_eq
  readings_eq := h.readings_eq
  trace_eq := by simp only [Machine.tell, Array.toList_push, List.map_append, h.trace_eq]; rfl

/-- Machines stay renamed if one writes to the renamed variable. -/
theorem write (h : m.Renames p other) (v : Variable) (x : Number)
    : (m.write v x).Renames p (other.write (p v) x) := by
  have hset : Renames p { m with store := m.store.set v x }
      { other with store := other.store.set (p v) x } :=
    ⟨fun w => Table.get_set_apply p h.get_eq v w x, h.location_eq, h.readings_eq, h.trace_eq⟩
  exact hset.tell (.assigned v x)

end Machine.Renames

/-- Executions start out renamed. -/
theorem Machine.renames_start (p : Perm Variable) (store : Store) (location : Option Location)
    : (start store location).Renames p (start (store.renamed p) location) where
  get_eq v := by
    dsimp only [start]
    exact store.get_renamed p v
  location_eq := rfl
  readings_eq := rfl
  trace_eq := rfl

-----------------------------------------------------------------------------------------
-- Executions under other names
-----------------------------------------------------------------------------------------

/-- The second action does under the other names what the first one does. -/
abbrev Exec.Mimics {α : Type} (p : Perm Variable) (x y : Exec α) : Prop :=
  Simulates (Machine.Renames p) (Stop.Renames p) x y

namespace Exec

variable (p : Perm Variable)

/-- Moving is mimicked by moving to the same place. -/
theorem mimics_moveTo (location : Location) : Mimics p (moveTo location) (moveTo location) :=
  fun _ _ h => .ok () (h.move location)

/-- Displaying is mimicked by displaying the renamed operand, which has the same value. -/
theorem mimics_display (operand : Operand)
    : Mimics p (display operand) (display (operand.renamed p)) := by
  intro m other h
  have htold : (m.tell (.printed (m.value operand).text)).Renames p
      (other.tell (.printed (other.value (operand.renamed p)).text)) := by
    rw [h.value_eq]
    exact h.tell (.printed _)
  exact .ok () htold

/-- Assigning is mimicked by assigning to the renamed variable. Both are refused or none. -/
theorem mimics_assign (v : Variable) (x : Number) : Mimics p (assign v x) (assign (p v) x) := by
  intro m other h
  cases hx : x.isFinite with
  | true =>
      rw [assign_of_finite hx, assign_of_finite hx]
      exact .ok () (h.write v x)
  | false =>
      rw [assign_of_not_finite hx, assign_of_not_finite hx]
      exact .error (.aborted ⟨v, x⟩) h

end Exec

namespace Header

open Exec (Mimics)

variable (p : Perm Variable) (h : Header)

/-- The condition of the renamed loop compares the same numbers. -/
theorem holds_renamed {m other : Machine} (hr : m.Renames p other)
    : (h.renamed p).holds other = h.holds m := by
  simp only [holds, renamed, hr.value_eq, hr.get_eq]

/-- A pass of the renamed loop is due where one of the loop is. -/
theorem mimics_isDue (clock : Clock) (deadline? : Option Nat)
    : Mimics p (h.isDue clock deadline?) ((h.renamed p).isDue clock deadline?) :=
  simulates_isDue (h.holds_renamed p) Machine.Renames.readings_eq Machine.Renames.look _ _

/-- The renamed loop adds the same step to the renamed iterator. -/
theorem mimics_increment : Mimics p h.increment (h.renamed p).increment := by
  intro m other hr
  have hsum : other.store.get (p h.iterator) + other.value (h.step.renamed p)
      = m.store.get h.iterator + m.value h.step := by
    rw [hr.get_eq, hr.value_eq]
  rw [increment_apply, increment_apply]
  dsimp only [renamed]
  rw [hsum]
  exact Exec.mimics_assign p h.iterator _ _ _ (hr.move h.location)

/-- The renamed loop mimics the loop if its body mimics the body. -/
theorem mimics_run (limits : Limits) {body other : Exec Unit} (hbody : Mimics p body other)
    : Mimics p (h.run limits body) ((h.renamed p).run limits other) := by
  intro m other hr
  rw [run, run, Exec.get_bind_apply, Exec.get_bind_apply]
  dsimp only [renamed]
  rw [hr.value_eq]
  refine (Exec.mimics_assign p h.iterator _ m other hr).bind fun _ => ?_
  intro m other hr
  have hstarted : limits.pace.clock other.readings = limits.pace.clock m.readings := by
    rw [hr.readings_eq]
  rw [Exec.now_bind_apply, Exec.now_bind_apply, hstarted]
  exact simulates_passes .unfinished (h.mimics_isDue p _ _) (h.mimics_increment p) hbody
    _ _ _ hr.look

end Header

mutual

/-- A renamed statement mimics the statement, by recursion on it together with programs. -/
theorem Statement.mimics_renamed (p : Perm Variable) (limits : Limits) (statement : Statement)
    : Exec.Mimics p (statement.exec limits) ((statement.renamed p).exec limits) := by
  cases statement with
  | disp value location =>
      rw [Statement.renamed, Statement.exec, Statement.exec]
      exact (Exec.mimics_moveTo p location).bind fun _ => Exec.mimics_display p value
  | loop header body =>
      rw [Statement.renamed, Statement.exec, Statement.exec]
      exact (Exec.mimics_moveTo p header.location).bind fun _ =>
        header.mimics_run p limits (Program.mimics_renamed p limits body)
termination_by structural statement

/-- A program does under the other names what it did under its own. -/
theorem Program.mimics_renamed (p : Perm Variable) (limits : Limits) (program : List Statement)
    : Exec.Mimics p (Program.exec limits program)
        (Program.exec limits (Program.renamed p program)) := by
  cases program with
  | nil =>
      rw [Program.renamed, Program.exec]
      exact Exec.simulates_pure ()
  | cons statement rest =>
      rw [Program.renamed, Program.exec, Program.exec]
      exact (statement.mimics_renamed p limits).bind fun _ =>
        Program.mimics_renamed p limits rest
termination_by structural program

end

namespace Session

/-- The session under the other names, with all values moved. -/
def renamed (p : Perm Variable) (s : Session) : Session :=
  { s with store := s.store.renamed p }

/-- A renamed program in a renamed session ends, leaves and tells the same with other names. -/
theorem execute_renamed (p : Perm Variable) (s : Session) (pace : Pace) (program : Program)
    : let report := s.execute pace program
      let other := (s.renamed p).execute pace (Program.renamed p program)
      other.ending = report.ending.renamed p
      ∧ (∀ v, other.session.store.get (p v) = report.session.store.get v)
      ∧ other.session.location = report.session.location
      ∧ other.events = report.events.map (Event.renamed p) := by
  have hstart : (Machine.start s.store s.location).Renames p
      (.start (s.renamed p).store (s.renamed p).location) :=
    Machine.renames_start p s.store s.location
  have houtcomes := Program.mimics_renamed p ⟨pace, s.options.loopTimeout⟩ program _ _ hstart
  have hoptions : (s.renamed p).options = s.options := rfl
  dsimp only
  rw [execute, execute, executeOn, executeOn, hoptions]
  generalize Program.exec _ program _ = outcome at houtcomes
  generalize Program.exec _ (Program.renamed p program) _ = mimicry at houtcomes
  cases houtcomes with
  | ok _ machines => exact ⟨rfl, machines.get_eq, machines.location_eq, machines.trace_eq⟩
  | error stops machines =>
      exact ⟨stops.ofStop_eq, machines.get_eq, machines.location_eq, machines.trace_eq⟩

/-- However the variables trade places: the execution of the program under the other names, from the
values that moved with them, is endless exactly if that of the program is. Else it ends in the same
way, with an error of the variable that took the place if there is one. It displays the same lines
and tells of the same writes to the variables that took the places, all in the same order, and the
values at its end are those that moved. -/
theorem renaming_carries_over (p : Perm Variable) (s : Session) (clock : Clock) (program : Program)
    : s.Endless clock program ∧ (s.renamed p).Endless clock (Program.renamed p program)
      ∨ ∃ report other,
          s.Ends clock program report
          ∧ (s.renamed p).Ends clock (Program.renamed p program) other
          ∧ other.ending = report.ending.renamed p
          ∧ (∀ v, other.session.store.get (p v) = report.session.store.get v)
          ∧ other.session.location = report.session.location
          ∧ other.events = report.events.map (Event.renamed p)
          ∧ other.events.filterMap Event.line? = report.events.filterMap Event.line? := by
  have hsame := fun passes => s.execute_renamed p (.prompt clock passes) program
  dsimp only at hsame
  have hgiven : ∀ passes,
      ((s.renamed p).execute (.prompt clock passes) (Program.renamed p program)).ending
        = .unfinished
      ↔ (s.execute (.prompt clock passes) program).ending = .unfinished := by
    intro passes
    rw [(hsame passes).1]
    exact Ending.renamed_eq_unfinished p _
  rcases endless_or_ends hgiven with hendless | ⟨passes, hends, hother⟩
  · exact Or.inl hendless
  · obtain ⟨hending, hstore, hlocation, hevents⟩ := hsame passes
    refine Or.inr ⟨_, _, hends, hother, hending, hstore, hlocation, hevents, ?_⟩
    rw [hevents, List.filterMap_map]
    exact congrArg (List.filterMap · _) (funext (Event.line?_renamed p))

end Session

end LoopCalc
