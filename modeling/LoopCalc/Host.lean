import LoopCalc.Panel
import LoopCalc.Session
import LoopCalc.Transcript

/-!
A host: a session together with the panel and the transcript that it tells things to.
-/

namespace LoopCalc

/-- A session with its listeners. -/
structure Host where
  session : Session
  panel : Panel
  transcript : Transcript
deriving DecidableEq

namespace Host

/-- A host before its first run. -/
def fresh : Host :=
  ⟨.fresh, .fresh, .empty⟩

/-- The host after its listeners have been told something. -/
def observe (h : Host) (event : Event) : Host :=
  { h with panel := h.panel.observe event, transcript := h.transcript.observe event }

/-- The host after an execution in its session. -/
def settle (h : Host) (report : Session.Report) : Host :=
  report.events.foldl observe { h with session := report.session }

/-- Run a source text: how that ends, the host after it, and what its listeners were told. -/
def run (h : Host) (pace : Pace) (source : String) (ans : Number) (options : Options)
    : Ending × Host × List Event :=
  let report := h.session.run pace source ans options
  (report.ending, h.settle report, report.events)

/-- Execute a program on the current variables. -/
def execute (h : Host) (pace : Pace) (program : Program) : Ending × Host × List Event :=
  let report := h.session.execute pace program
  (report.ending, h.settle report, report.events)

/-- Read a source text with the options of the last run. -/
def parse (h : Host) (source : String) (pace : Pace := .steady)
    : Except Fault Program × Host × List Event :=
  let (result, events) := h.session.parse source pace
  (result, events.foldl observe h, events)

/-- Prepare the panel for a run. -/
def beginRun (h : Host) : Host :=
  { h with panel := h.panel.beginRun }

/-- Drop the lines of the transcript. -/
def clear (h : Host) : Host :=
  { h with transcript := .empty }

end Host

end LoopCalc
