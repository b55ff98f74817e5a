import LoopCalc.Execution
import LoopCalc.Program.Parser

/-!
Sessions. A session lives as long as its host: it keeps the variables, the place where execution
is or stopped, and the options of the last run. Every run starts from variables that are all zero.
-/

namespace LoopCalc

/-- The options of a run. -/
structure Options where
  /-- Tell the host about notices on the source. -/
  warnings : Bool
  parseTimeout : Timeout
  loopTimeout : Timeout
deriving DecidableEq

namespace Options

/-- Two seconds for reading and ten for each loop, without warnings. -/
def standard : Options :=
  ⟨false, .after 2000, .after 10000⟩

end Options

/-- How a run ends. -/
inductive Ending where
  | completed
  | rejected (fault : Fault)
  | aborted (abort : Abort)
  /-- A loop has made all the passes that its host allows. -/
  | unfinished
deriving DecidableEq

namespace Ending

/-- The ending of a run whose execution stopped. -/
def ofStop : Stop → Ending
  | .aborted abort => .aborted abort
  | .unfinished => .unfinished

/-- The text of the error that ended a run. -/
def error? : Ending → Option String
  | rejected fault => some fault.message
  | aborted abort => some abort.message
  | completed | unfinished => none

end Ending

/-- The state of a session. -/
structure Session where
  store : Store
  location : Option Location
  options : Options
deriving DecidableEq

namespace Session

/-- A session before its first run. -/
def fresh : Session :=
  ⟨.blank, none, .standard⟩

/-- The program of a source text, and what the host is told about it. Notices are told also where
the watchdog fires behind them. -/
def read (pace : Pace) (options : Options) (source : String)
    : Except Fault Program × List Event :=
  let (result, parser) := (Parser.ofSource source (pace.watchdog options.parseTimeout)).parse
  (result, if options.warnings then parser.notices.map fun n => .warned n.message else [])

/-- Read a source text with the options of the last run. -/
def parse (s : Session) (source : String) (pace : Pace := .steady)
    : Except Fault Program × List Event :=
  read pace s.options source

/-- What an execution leaves: how it ended, the session after it, and what the host was told, in
order. -/
structure Report where
  ending : Ending
  session : Session
  events : List Event

/-- Execute a program, and say how that ends. -/
def executeOn (options : Options) (pace : Pace) (program : Program) (m : Machine)
    : Ending × Machine :=
  match Program.exec ⟨pace, options.loopTimeout⟩ program m with
  | .ok _ m => (.completed, m)
  | .error stop m => (.ofStop stop, m)

/-- Seed `Ans`, read the source and execute it. -/
def runOn (options : Options) (pace : Pace) (source : String) (ans : Number) (m : Machine)
    : Ending × Machine :=
  match Exec.assign .ans ans m with
  | .error stop m => (.ofStop stop, m)
  | .ok _ m =>
      let (result, events) := read pace options source
      let m := events.foldl .tell m
      match result with
      | .error fault => (.rejected fault, m)
      | .ok program => executeOn options pace program m

/-- The machine at the end of a run: the text of an error is told last. -/
def conclude (ending : Ending) (m : Machine) : Machine :=
  match ending.error? with
  | some text => m.tell (.failed text)
  | none => m

/-- Run a source text with the given start value of `Ans`, from variables that are all zero. -/
def run (s : Session) (pace : Pace) (source : String) (ans : Number) (options : Options)
    : Report :=
  let (ending, m) := runOn options pace source ans (Machine.start s.store none).reset
  let m := conclude ending m
  ⟨ending, ⟨m.store, m.location, options⟩, m.trace.toList⟩

/-- Execute a program on the current variables with the options of the last run. An error is
answered, not told. -/
def execute (s : Session) (pace : Pace) (program : Program) : Report :=
  let (ending, m) := executeOn s.options pace program (.start s.store s.location)
  ⟨ending, ⟨m.store, m.location, s.options⟩, m.trace.toList⟩

end Session

end LoopCalc
