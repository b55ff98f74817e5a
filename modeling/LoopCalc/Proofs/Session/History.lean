import LoopCalc.Proofs.Execution.Clocks
import LoopCalc.Proofs.Session.Listeners
import LoopCalc.Proofs.Session.Phases

/-! Runs do not depend on what happened before them. A run resets the variables before it reads one,
it brings its own options, and the events of its reset make every panel forget what it showed.
Nothing of a session's past is left but the writes counted and the lines of the transcript.
-/

namespace LoopCalc

/-- Both watchdogs of a run behave alike under the two paces: the one over reading the source stays
silent or fires at the same read, and those over the loops fire at the same tests. -/
structure Pace.RunsAlike (options : Options) (pace other : Pace) : Prop where
  reading : pace.watchdog options.parseTimeout = other.watchdog options.parseTimeout
  loops : pace.Alike options.loopTimeout other

namespace Session

variable {pace other : Pace} {options : Options}

/-- At paces that are alike programs are executed alike. -/
theorem executeOn_eq_of_alike (h : pace.Alike options.loopTimeout other)
    : executeOn options pace = executeOn options other := by
  funext program m
  rw [executeOn, executeOn, Program.exec_eq_of_alike h]

/-- Reading depends on the pace only by what the parse watchdog does. -/
theorem read_eq_of_watchdog_eq
    (h : pace.watchdog options.parseTimeout = other.watchdog options.parseTimeout)
    : read pace options = read other options := by
  funext source
  rw [read, read, h]

/-- At paces that run alike, the phases of a run are the same from any machine. -/
theorem runOn_eq_of_alike (h : pace.RunsAlike options other) (source : String) (ans : Number)
    (m : Machine)
    : runOn options pace source ans m = runOn options other source ans m := by
  rw [runOn, runOn, read_eq_of_watchdog_eq h.reading, executeOn_eq_of_alike h.loops]

/-- A run reports the same in every session, and under all paces that let its watchdogs behave
alike. -/
theorem run_eq_of_alike (h : pace.RunsAlike options other) (s t : Session) (source : String)
    (ans : Number)
    : s.run pace source ans options = t.run other source ans options := by
  rw [run, run, Machine.reset_start, Machine.reset_start, runOn_eq_of_alike h]

/-- A run reports the same in every session. -/
theorem run_eq (s t : Session) (pace : Pace) (source : String) (ans : Number) (options : Options)
    : s.run pace source ans options = t.run pace source ans options := by
  rw [run, run, Machine.reset_start, Machine.reset_start]

end Session

namespace Host

/-- Two hosts agree after a run, whatever happened to them before it, if its watchdogs behave alike
in both: on how the run ends, on the session with all its variables and the place where execution
stopped, and on what their panels show and mark. Both panels count as many writes more, and both
transcripts grow by the same lines. -/
theorem run_forgets_history (first second : Host) {pace other : Pace} {options : Options}
    (halike : pace.RunsAlike options other) (source : String) (ans : Number)
    : let one := first.run pace source ans options
      let two := second.run other source ans options
      one.1 = two.1
      ∧ one.2.1.session = two.2.1.session
      ∧ one.2.1.panel.store = two.2.1.panel.store
      ∧ one.2.1.panel.marks = two.2.1.panel.marks
      ∧ ∃ (writes : Nat) (lines : List Transcript.Line),
          one.2.1.panel.writes = first.panel.writes + writes
          ∧ two.2.1.panel.writes = second.panel.writes + writes
          ∧ one.2.1.transcript.lines.toList = first.transcript.lines.toList ++ lines
          ∧ two.2.1.transcript.lines.toList = second.transcript.lines.toList ++ lines := by
  have hreport := Session.run_eq_of_alike halike first.session second.session source ans
  obtain ⟨told, hevents, -⟩ := second.session.exists_told_run other source ans options
  dsimp only [run]
  rw [hreport]
  generalize second.session.run other source ans options = report at hevents
  rw [session_settle, session_settle, panel_settle, panel_settle, lines_settle, lines_settle,
    hevents, Panel.foldl_observe_of_reset _ first.panel,
    Panel.foldl_observe_of_reset _ second.panel]
  exact ⟨rfl, rfl, rfl, rfl, _, _, rfl, rfl, rfl, rfl⟩

/-- A past with a refused start value, other options, a refused source and a program that no source
spells. -/
def eventfulPast : List Request :=
  [.run .steady Session.loopFromAnsSource .nan Session.loud,
    .run .steady "For(A,1,9,A)" .zero Session.loud,
    .parse .steady "Disp",
    .execute .steady [.loop ⟨.ans, .literal .nan, .reference .ans, .reference .ans, ⟨0, 0⟩⟩ []],
    .beginRun]

/-- A host with an eventful past, on a clock that is ahead, runs a program as a fresh host does. -/
theorem run_forgets_history_eventful
    : let one := fresh.run .steady Session.loopFromAnsSource .zero .standard
      let past := eventfulPast.foldl serve fresh
      let two := past.run (Pace.steady.later 5000) Session.loopFromAnsSource .zero .standard
      Pace.steady.RunsAlike .standard (Pace.steady.later 5000)
      ∧ one.1 = two.1
      ∧ one.2.1.session = two.2.1.session
      ∧ one.2.1.panel.store = two.2.1.panel.store
      ∧ one.2.1.panel.marks = two.2.1.panel.marks
      ∧ ∃ (writes : Nat) (lines : List Transcript.Line),
          one.2.1.panel.writes = fresh.panel.writes + writes
          ∧ two.2.1.panel.writes = past.panel.writes + writes
          ∧ one.2.1.transcript.lines.toList = fresh.transcript.lines.toList ++ lines
          ∧ two.2.1.transcript.lines.toList = past.transcript.lines.toList ++ lines := by
  have halike : Pace.steady.RunsAlike .standard (Pace.steady.later 5000) :=
    ⟨rfl, Pace.alike_later _ .steady 5000⟩
  exact ⟨halike, run_forgets_history _ _ halike _ _⟩

end Host

end LoopCalc
