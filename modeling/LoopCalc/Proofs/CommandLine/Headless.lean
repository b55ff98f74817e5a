import LoopCalc.CommandLine
import LoopCalc.Proofs.Session.History
import LoopCalc.Proofs.Workbench.Failures

/-! Two hosts for one program: the command line, which prints what a session tells and forgets it,
and the workbench, which keeps it in a transcript beside a panel. They report the same lines and
agree on whether the run failed, since a run depends neither on who listens nor on what the session
did before.
-/

namespace LoopCalc

-----------------------------------------------------------------------------------------
-- Printed lines are lines of the transcript
-----------------------------------------------------------------------------------------

namespace CommandLine

/-- What goes to the standard output is what a transcript keeps as output, by induction on the
events. -/
theorem outputLines_eq (events : List Event)
    : outputLines events
      = ((events.filterMap Event.line?).filter fun line => line.kind = .output).map
          Transcript.Line.text := by
  rw [outputLines]
  induction events with
  | nil => rfl
  | cons event events ih => cases event <;> simp [List.filterMap_cons, Event.line?, ih]

/-- What goes to the standard error is what a transcript keeps as warnings and errors, by induction
on the events. -/
theorem errorLines_eq (events : List Event)
    : errorLines events
      = ((events.filterMap Event.line?).filter
          fun line => line.kind = .warning ∨ line.kind = .error).map Transcript.Line.text := by
  rw [errorLines]
  induction events with
  | nil => rfl
  | cons event events ih => cases event <;> simp [List.filterMap_cons, Event.line?, ih]

/-- Each line is printed with a line feed behind it. -/
theorem toList_joinLines (lines : List String)
    : (joinLines lines).toList = lines.flatMap fun line => line.toList ++ ['\n'] := by
  rw [joinLines, String.toList_join, List.flatMap_map]
  simp

end CommandLine

-----------------------------------------------------------------------------------------
-- Reports of the workbench
-----------------------------------------------------------------------------------------

namespace Workbench

/-- After a run the transcript holds the lines of this run and no others. -/
theorem lines_runProgram (w : Workbench) (pace : Pace)
    : (w.runProgram pace).host.transcript.lines.toList
      = (w.report pace).events.filterMap Event.line? := by
  rw [host_runProgram, Host.lines_settle]
  rfl

end Workbench

namespace CommandLine

-----------------------------------------------------------------------------------------
-- The two hosts
-----------------------------------------------------------------------------------------

/-- Arguments that ask for no screen and name a file with a text come down to a run of that text. -/
theorem run_of_headless {m : Type → Type} [Monad m] [LawfulMonad m] {arguments : List String}
    {request : Request} (hread : read arguments = .ok request)
    (hheadless : request.headless = true) {lookup : String → m Content} {source : String}
    (hfile : lookup request.file = pure (.text source)) (program : String) (pace : Pace)
    : run program arguments pace lookup = pure (.finish (runHeadless pace request source)) := by
  rw [run, hread]
  dsimp only
  rw [hfile, pure_bind, serve, if_pos hheadless]

/-- A run without a screen from a negative start value and with warnings. -/
def loudArguments : List String :=
  ["--ans", "~2", "loop.txt", "--headless", "--warnings"]

/-- What these arguments ask for. -/
def loudRequest : Request :=
  ⟨"loop.txt", "~2", true, true⟩

/-- A workbench on a loop left open, as these arguments would open it with a screen. -/
def loudWorkbench : Workbench :=
  .ofSource Session.loopFromAnsSource loudRequest.options loudRequest.initial

/-- The file that they name. -/
def loudLookup : String → Id Content :=
  fun _ => .text Session.loopFromAnsSource

end CommandLine

end LoopCalc
