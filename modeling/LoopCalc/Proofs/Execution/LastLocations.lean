import LoopCalc.Session
import LoopCalc.Proofs.Execution.Laps

/-! Where executions stand when they complete. The body of a loop leads an execution from place to
place, but every lap ends with the step, which belongs to the header. So a loop is left at its
header, whether it made no pass, came to its end or was stopped by its watchdog, and a program is
left at the last of its own statements.
-/

namespace LoopCalc

namespace Header

variable {h : Header} {clock : Clock} {deadline? : Option Nat} {body : Exec Unit}

/-- After its step is added, a loop stands at its header. -/
theorem location_of_increment {m next : Machine} (hstep : h.increment m = .ok () next)
    : next.location = some h.location := by
  rw [increment_apply] at hstep
  cases hx : (m.store.get h.iterator + m.value h.step).isFinite with
  | true =>
      rw [Exec.assign_of_finite hx] at hstep
      cases hstep
      rfl
  | false =>
      rw [Exec.assign_of_not_finite hx] at hstep
      cases hstep

/-- The question whether a pass is due moves nothing. -/
theorem location_of_isDue {due : Bool} {m next : Machine}
    (hdue : h.isDue clock deadline? m = .ok due next)
    : next.location = m.location := by
  rw [isDue_apply] at hdue
  cases hdue
  rfl

/-- Laps from the header lead back to the header, by induction on them. -/
theorem Laps.location_eq {m last : Machine} {starts : List Machine}
    (hlaps : h.Laps clock deadline? body m starts last) (hm : m.location = some h.location)
    : last.location = some h.location := by
  induction hlaps with
  | nil m => exact hm
  | cons due done stepped later ih => exact ih (location_of_increment stepped)

/-- A loop that completes is left at its header: it makes no laps, or it has just ended one. -/
theorem Makes.location_eq {limits : Limits} {m next : Machine} {starts : List Machine}
    (hmakes : h.Makes limits body m starts next) (hm : m.location = some h.location)
    : next.location = some h.location := by
  obtain ⟨-, last, hlaps, hdone⟩ := hmakes
  rw [location_of_isDue hdone]
  exact hlaps.location_eq hm

end Header

/-- A statement that completes leaves the machine at its own place. A loop goes back to its header
with every step. -/
theorem Statement.location_of_exec {limits : Limits} {statement : Statement} {m next : Machine}
    (hexec : statement.exec limits m = .ok () next)
    : next.location = some statement.location := by
  cases statement with
  | disp value location =>
      rw [Statement.exec] at hexec
      cases hexec
      rfl
  | loop h body =>
      have hconcludes := h.run_concludes limits (Program.exec limits body)
        { m with location := some h.location }
      rw [← Statement.exec_loop, hexec] at hconcludes
      cases hconcludes with
      | completed laps => exact laps.location_eq rfl

/-- Whatever comes before it, the last statement is where the program is left. -/
theorem Program.location_of_exec {limits : Limits} {front : List Statement} {last : Statement}
    {m next : Machine} (hexec : Program.exec limits (front ++ [last]) m = .ok () next)
    : next.location = some last.location := by
  rw [Program.exec_append, Program.exec_singleton, Exec.bind_apply] at hexec
  cases hfront : Program.exec limits front m with
  | error stop middle =>
      rw [hfront] at hexec
      cases hexec
  | ok _ middle =>
      rw [hfront] at hexec
      exact Statement.location_of_exec hexec

namespace Session

/-- What a completed execution leaves is what the machine has at the end. -/
theorem exists_exec_of_completed {s : Session} {pace : Pace} {program : Program}
    (h : (s.execute pace program).ending = .completed)
    : ∃ next,
        Program.exec ⟨pace, s.options.loopTimeout⟩ program (.start s.store s.location)
          = .ok () next
        ∧ (s.execute pace program).session = ⟨next.store, next.location, s.options⟩ := by
  rw [execute, executeOn] at h ⊢
  cases hx : Program.exec ⟨pace, s.options.loopTimeout⟩ program (.start s.store s.location) with
  | ok _ next => exact ⟨next, rfl, rfl⟩
  | error stop next =>
      rw [hx] at h
      cases stop <;> cases h

/-- An execution that completes stands at the last of the program's own statements, however its
loops ended and wherever their bodies led. An empty program completes where the execution stood
before. -/
theorem completed_at_last_statement (s : Session) (pace : Pace)
    : (∀ (front : List Statement) (last : Statement),
        (s.execute pace (front ++ [last])).ending = .completed
        → (s.execute pace (front ++ [last])).session.location = some last.location)
      ∧ (s.execute pace []).ending = .completed
      ∧ (s.execute pace []).session.location = s.location := by
  refine ⟨?_, rfl, rfl⟩
  intro front last hending
  obtain ⟨next, hexec, hsession⟩ := exists_exec_of_completed hending
  rw [hsession]
  exact Program.location_of_exec hexec

/-- A loop that stands still until its watchdog stops it, with a loop inside that makes no pass. -/
def standingLoop : Statement :=
  .loop ⟨.theta, .literal .zero, .literal .zero, .literal .zero, ⟨2, 1⟩⟩
    [.loop ⟨.ans, .literal (.ofInt 1), .literal .zero, .literal (.ofInt 1), ⟨3, 1⟩⟩ [],
      .disp (.reference .theta) ⟨4, 1⟩]

/-- What comes before it. -/
def beforeStandingLoop : List Statement :=
  [.disp (.reference .ans) ⟨1, 1⟩]

/-- Loops have no time at all. -/
def hurried : Session :=
  ⟨.blank, none, ⟨false, .never, .after 0⟩⟩

/-- A clock that shows each time three times over, so that the watchdog of the loop lets one pass
go by. -/
def slowPace : Pace :=
  .prompt (fun reading => reading / 3) 9

/-- The loop is stopped by its watchdog, and the execution completes at its header. -/
theorem completed_at_last_statement_standingLoop
    : (hurried.execute slowPace (beforeStandingLoop ++ [standingLoop])).ending = .completed
      ∧ (hurried.execute slowPace (beforeStandingLoop ++ [standingLoop])).events.length = 5
      ∧ (hurried.execute slowPace (beforeStandingLoop ++ [standingLoop])).session.location
        = some standingLoop.location := by
  have hending : (hurried.execute slowPace (beforeStandingLoop ++ [standingLoop])).ending
      = .completed := by
    decide +kernel
  refine ⟨hending, by decide +kernel, ?_⟩
  exact (completed_at_last_statement hurried slowPace).1 beforeStandingLoop standingLoop hending

end Session

end LoopCalc
