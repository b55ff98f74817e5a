import LoopCalc.Session
import LoopCalc.Proofs.Execution.Steps

/-! Executions that end and executions that do not. A host may give up an execution after some
number of passes of one loop. If it is not given up, then more passes allowed make no difference, so
there is one report that it ends with, whatever the host allows beyond that. An execution that is
given up whatever the host allows would run forever: its loops nest only so deep, so one of them
never ends.
-/

namespace LoopCalc

-----------------------------------------------------------------------------------------
-- More passes allowed
-----------------------------------------------------------------------------------------

namespace Exec

/-- Wherever the first action is not given up, the second does the same. -/
def Approximates {α : Type} (x y : Exec α) : Prop :=
  ∀ m, x m = y m ∨ ∃ next, x m = .error .unfinished next

/-- An action approximates itself. -/
theorem Approximates.refl {α : Type} (x : Exec α) : x.Approximates x :=
  fun _ => Or.inl rfl

/-- Giving up at once approximates everything. -/
theorem approximates_giveUp {α : Type} (y : Exec α)
    : Approximates (throw .unfinished) y :=
  fun m => Or.inr ⟨m, rfl⟩

/-- Actions in sequence approximate as each of them does, by cases on whether the first gives up. -/
theorem Approximates.bind {α β : Type} {x y : Exec α} {f g : α → Exec β}
    (hx : x.Approximates y) (hf : ∀ a, (f a).Approximates (g a))
    : (x >>= f).Approximates (y >>= g) := by
  intro m
  rw [bind_apply, bind_apply]
  rcases hx m with hsame | ⟨next, hgiven⟩
  · rw [hsame]
    cases y m with
    | ok a next => exact hf a next
    | error stop next => exact Or.inl rfl
  · rw [hgiven]
    exact Or.inr ⟨next, rfl⟩

end Exec

namespace Header

open Exec (Approximates)

variable {few many : Nat} {body longer : Exec Unit}

/-- By induction on the smaller number of passes. -/
theorem approximates_passes (h : Header) (clock : Clock) (deadline? : Option Nat)
    (hbody : body.Approximates longer) (hle : few ≤ many)
    : (h.passes clock deadline? body few).Approximates
        (h.passes clock deadline? longer many) := by
  induction few generalizing many with
  | zero =>
      cases many with
      | zero => exact .refl _
      | succ many =>
          refine (Approximates.refl (h.isDue clock deadline?)).bind fun due => ?_
          split
          · exact Exec.approximates_giveUp _
          · exact .refl _
  | succ few ih =>
      obtain ⟨many, rfl⟩ : ∃ k, many = k + 1 := ⟨many - 1, by omega⟩
      refine (Approximates.refl (h.isDue clock deadline?)).bind fun due => ?_
      split
      · refine hbody.bind fun _ => (Approximates.refl h.increment).bind fun _ => ?_
        exact ih (Nat.le_of_succ_le_succ hle)
      · exact .refl _

/-- A loop that may make fewer passes approximates one that may make more. -/
theorem approximates_run (h : Header) (clock : Clock) (timeout : Timeout)
    (hbody : body.Approximates longer) (hle : few ≤ many)
    : (h.run ⟨.prompt clock few, timeout⟩ body).Approximates
        (h.run ⟨.prompt clock many, timeout⟩ longer) := by
  refine (Approximates.refl get).bind fun m => ?_
  refine (Approximates.refl (Exec.assign h.iterator (m.value h.start))).bind fun _ => ?_
  refine (Approximates.refl (Exec.now clock)).bind fun started => ?_
  exact h.approximates_passes clock _ hbody hle

end Header

mutual

/-- A statement with fewer passes allowed approximates itself with more, by recursion on it. -/
theorem Statement.approximates_exec (clock : Clock) (timeout : Timeout) {few many : Nat}
    (hle : few ≤ many) (statement : Statement)
    : (statement.exec ⟨.prompt clock few, timeout⟩).Approximates
        (statement.exec ⟨.prompt clock many, timeout⟩) := by
  cases statement with
  | disp value location =>
      rw [Statement.exec, Statement.exec]
      exact .refl _
  | loop header body =>
      rw [Statement.exec, Statement.exec]
      refine (Exec.Approximates.refl (Exec.moveTo header.location)).bind fun _ => ?_
      exact header.approximates_run clock timeout
        (Program.approximates_exec clock timeout hle body) hle
termination_by structural statement

/-- An execution that is not given up does the same when more passes are allowed. -/
theorem Program.approximates_exec (clock : Clock) (timeout : Timeout) {few many : Nat}
    (hle : few ≤ many) (program : List Statement)
    : (Program.exec ⟨.prompt clock few, timeout⟩ program).Approximates
        (Program.exec ⟨.prompt clock many, timeout⟩ program) := by
  cases program with
  | nil =>
      rw [Program.exec, Program.exec]
      exact .refl _
  | cons statement rest =>
      rw [Program.exec, Program.exec]
      exact (statement.approximates_exec clock timeout hle).bind fun _ =>
        Program.approximates_exec clock timeout hle rest
termination_by structural program

end

-----------------------------------------------------------------------------------------
-- Endings and endless executions
-----------------------------------------------------------------------------------------

namespace Session

/-- The execution ends with the report, and enough passes allowed are all that it takes. -/
def Ends (s : Session) (clock : Clock) (program : Program) (report : Report) : Prop :=
  report.ending ≠ .unfinished
  ∧ ∃ enough, ∀ passes, enough ≤ passes → s.execute (.prompt clock passes) program = report

/-- However many passes are allowed, the execution needs more. -/
def Endless (s : Session) (clock : Clock) (program : Program) : Prop :=
  ∀ passes, (s.execute (.prompt clock passes) program).ending = .unfinished

variable {s : Session} {clock : Clock} {program : Program}

/-- An execution that was not given up is the same with more passes allowed. -/
theorem execute_eq_of_le {few many : Nat} (hle : few ≤ many)
    (h : (s.execute (.prompt clock few) program).ending ≠ .unfinished)
    : s.execute (.prompt clock many) program = s.execute (.prompt clock few) program := by
  have hmore := Program.approximates_exec clock s.options.loopTimeout hle program
    (.start s.store s.location)
  rcases hmore with hsame | ⟨next, hgiven⟩
  · rw [execute, execute, executeOn, executeOn, hsame]
  · rw [execute, executeOn, hgiven] at h
    exact absurd rfl h

/-- An execution that was not given up has ended, with any number of passes from there on. -/
theorem ends_of_finished {passes : Nat}
    (h : (s.execute (.prompt clock passes) program).ending ≠ .unfinished)
    : s.Ends clock program (s.execute (.prompt clock passes) program) :=
  ⟨h, passes, fun _ hle => execute_eq_of_le hle h⟩

/-- An execution either ends or is endless. -/
theorem exists_ends_iff : (∃ report, s.Ends clock program report) ↔ ¬s.Endless clock program := by
  constructor
  · rintro ⟨report, hending, enough, hreport⟩ hendless
    exact hending (hreport enough (Nat.le_refl _) ▸ hendless enough)
  · intro hnot
    obtain ⟨passes, hpasses⟩ := Classical.not_forall.1 hnot
    exact ⟨_, ends_of_finished hpasses⟩

/-- Two executions that are given up after the same numbers of passes are both endless, or both
end, with the reports that some number of passes allows. -/
theorem endless_or_ends {other : Session} {another : Program}
    (h : ∀ passes, (other.execute (.prompt clock passes) another).ending = .unfinished
      ↔ (s.execute (.prompt clock passes) program).ending = .unfinished)
    : s.Endless clock program ∧ other.Endless clock another
      ∨ ∃ passes,
          s.Ends clock program (s.execute (.prompt clock passes) program)
          ∧ other.Ends clock another (other.execute (.prompt clock passes) another) := by
  by_cases hendless : s.Endless clock program
  · exact Or.inl ⟨hendless, fun passes => (h passes).2 (hendless passes)⟩
  · obtain ⟨passes, hfinished⟩ := Classical.not_forall.1 hendless
    have hother : (other.execute (.prompt clock passes) another).ending ≠ .unfinished :=
      fun hgiven => hfinished ((h passes).1 hgiven)
    exact Or.inr ⟨passes, ends_of_finished hfinished, ends_of_finished hother⟩

end Session

end LoopCalc
