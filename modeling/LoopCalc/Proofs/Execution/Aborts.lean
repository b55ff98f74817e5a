import LoopCalc.Proofs.Execution.Laps

/-! Where executions abort. A loop writes to its iterator when it starts and after each pass. An
execution that aborts has come to such a write, of a number that is not finite, and it has done
nothing since: it stands at the header of the loop, wherever the body had led it, and the machine
that it leaves is the one in which the write was due.
-/

namespace LoopCalc

mutual

/-- The headers of the loops of a statement, at any depth. -/
def Statement.headers : Statement → List Header
  | .disp .. => []
  | .loop header body => header :: Program.headers body

/-- The headers of the loops of a program, at any depth. -/
def Program.headers : List Statement → List Header
  | [] => []
  | statement :: rest => statement.headers ++ Program.headers rest

end

/-- The value of an operand does not depend on where the machine is. -/
theorem Machine.value_at (m : Machine) (location : Option Location) (operand : Operand)
    : { m with location := location }.value operand = m.value operand := by
  cases operand <;> rfl

namespace Header

/-- The header is about to write the number in this machine, as its start or after a step. -/
structure Writes (h : Header) (x : Number) (m : Machine) : Prop where
  location_eq : m.location = some h.location
  value_eq : x = m.value h.start ∨ x = m.store.get h.iterator + m.value h.step

/-- A step that stops has added up to a number that is not finite, and has only moved to the
header. -/
theorem increment_eq_error {h : Header} {m next : Machine} {stop : Stop}
    (he : h.increment m = .error stop next)
    : stop = .aborted ⟨h.iterator, m.store.get h.iterator + m.value h.step⟩
      ∧ next = { m with location := some h.location }
      ∧ (m.store.get h.iterator + m.value h.step).isFinite = false := by
  rw [increment_apply] at he
  cases hx : (m.store.get h.iterator + m.value h.step).isFinite with
  | true =>
      rw [Exec.assign_of_finite hx] at he
      cases he
  | false =>
      rw [Exec.assign_of_not_finite hx] at he
      cases he
      exact ⟨rfl, rfl, rfl⟩

end Header

namespace Program

/-- Executing the program from a machine comes to a write: the header is to store the number, in the
last machine. -/
inductive Attempts (limits : Limits) : List Statement → Machine → Header → Number → Machine → Prop
  | start (h : Header) (body rest : List Statement) (m : Machine)
    : Attempts limits (.loop h body :: rest) m h (m.value h.start)
        { m with location := some h.location }
  | inBody {h header : Header} {body : List Statement} (rest : List Statement)
    {m start last : Machine} {starts : List Machine} {x : Number}
    (entered : h.Reenters limits (exec limits body) { m with location := some h.location } starts
      start)
    (attempts : Attempts limits body start header x last)
    : Attempts limits (.loop h body :: rest) m header x last
  | step {h : Header} {body : List Statement} (rest : List Statement) {m start after : Machine}
    {starts : List Machine}
    (entered : h.Reenters limits (exec limits body) { m with location := some h.location } starts
      start)
    (done : exec limits body start = .ok () after)
    : Attempts limits (.loop h body :: rest) m h (after.store.get h.iterator + after.value h.step)
        { after with location := some h.location }
  | later {statement : Statement} {rest : List Statement} {m next last : Machine} {h : Header}
    {x : Number} (done : statement.exec limits m = .ok () next)
    (attempts : Attempts limits rest next h x last)
    : Attempts limits (statement :: rest) m h x last

/-- An attempted write is a write that the loop makes, by induction on the attempt. -/
theorem Attempts.writes {limits : Limits} {program : List Statement} {m last : Machine}
    {h : Header} {x : Number} (ha : Attempts limits program m h x last)
    : h.Writes x last := by
  induction ha with
  | start h body rest m => exact ⟨rfl, Or.inl (m.value_at _ _).symm⟩
  | inBody rest entered attempts ih => exact ih
  | step rest entered done =>
      exact ⟨rfl, Or.inr (congrArg _ (Machine.value_at _ _ _).symm)⟩
  | later done attempts ih => exact ih

/-- An attempted write is made by a loop of the program, by induction on the attempt. -/
theorem Attempts.mem_headers {limits : Limits} {program : List Statement} {m last : Machine}
    {h : Header} {x : Number} (ha : Attempts limits program m h x last)
    : h ∈ headers program := by
  induction ha with
  | start h body rest m => exact List.mem_append_left _ List.mem_cons_self
  | inBody rest entered attempts ih =>
      exact List.mem_append_left _ (List.mem_cons_of_mem _ ih)
  | step rest entered done => exact List.mem_append_left _ List.mem_cons_self
  | later done attempts ih => exact List.mem_append_right _ ih

end Program

mutual

/-- A statement that is aborted has attempted a write that is not finite, and stopped there. -/
theorem Statement.attempts_of_exec {limits : Limits} (statement : Statement)
    (rest : List Statement) {m last : Machine} {abort : Abort}
    (hexec : statement.exec limits m = .error (.aborted abort) last)
    : ∃ h : Header,
        Program.Attempts limits (statement :: rest) m h abort.value last
        ∧ abort.name = h.iterator
        ∧ abort.value.isFinite = false := by
  cases statement with
  | disp value location => cases hexec
  | loop h body =>
      have hconcludes := h.run_concludes limits (Program.exec limits body)
        { m with location := some h.location }
      rw [← Statement.exec_loop, hexec] at hconcludes
      cases hconcludes with
      | refused hstart => exact ⟨h, .start h body rest m, rfl, hstart⟩
      | inBody entered stopped =>
          obtain ⟨header, hattempts, hrefused⟩ := Program.attempts_of_exec body stopped
          exact ⟨header, .inBody rest entered hattempts, hrefused⟩
      | atStep entered done stopped =>
          obtain ⟨habort, rfl, hsum⟩ := Header.increment_eq_error stopped
          cases habort
          exact ⟨h, .step rest entered done, rfl, hsum⟩
termination_by structural statement

/-- An execution that aborts ends at a write that it came to, of a number that is not finite. A loop
has nowhere else to abort than at its start, in its body or at its step. -/
theorem Program.attempts_of_exec {limits : Limits} (program : List Statement) {m last : Machine}
    {abort : Abort} (hexec : Program.exec limits program m = .error (.aborted abort) last)
    : ∃ h : Header,
        Program.Attempts limits program m h abort.value last
        ∧ abort.name = h.iterator
        ∧ abort.value.isFinite = false := by
  cases program with
  | nil => cases hexec
  | cons statement rest =>
      rw [Program.exec, Exec.bind_apply] at hexec
      cases hs : statement.exec limits m with
      | ok _ next =>
          rw [hs] at hexec
          obtain ⟨h, hattempts, hrefused⟩ := Program.attempts_of_exec rest hexec
          exact ⟨h, hattempts.later hs, hrefused⟩
      | error stop next =>
          rw [hs] at hexec
          cases hexec
          exact statement.attempts_of_exec rest hs
termination_by structural program

end

end LoopCalc
