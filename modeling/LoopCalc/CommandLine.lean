import LoopCalc.Screen.Plain
import LoopCalc.Workbench

/-!
The command line: its arguments, and a run of one file without a screen.
-/

namespace LoopCalc.CommandLine

/-- What the arguments ask for. -/
structure Request where
  file : String
  /-- The start value of `Ans`, as typed. -/
  initial : String
  warnings : Bool
  headless : Bool
deriving DecidableEq

/-- Why the arguments ask for nothing. -/
inductive Misuse where
  | noValue
  | unknownOption (option : String)
  | secondFile
  | noFile
deriving DecidableEq

namespace Misuse

/-- The wording of a misuse. -/
def message : Misuse → String
  | noValue => "--ans needs a value"
  | unknownOption option => s!"Unknown option '{option}'"
  | secondFile => "Only one input file can be given"
  | noFile => "No input file provided"

end Misuse

/-- The arguments read so far. -/
structure Draft where
  file : Option String
  initial : String
  warnings : Bool
  headless : Bool
deriving DecidableEq

namespace Draft

/-- No argument read. -/
def empty : Draft :=
  ⟨none, "", false, false⟩

/-- The request that the arguments make, once all are read. -/
def finish (p : Draft) : Except Misuse Request :=
  match p.file with
  | some file => .ok ⟨file, p.initial, p.warnings, p.headless⟩
  | none => .error .noFile

end Draft

/-- The argument is spelled as an option. -/
def isOption (argument : String) : Bool :=
  ['-', '-'].isPrefixOf argument.toList

/-- Read arguments, given those before them. The argument after `--ans` is its value, whatever it
looks like. -/
def readFrom (p : Draft) : List String → Except Misuse Request
  | [] => p.finish
  | "--warnings" :: rest => readFrom { p with warnings := true } rest
  | "--headless" :: rest => readFrom { p with headless := true } rest
  | ["--ans"] => .error .noValue
  | "--ans" :: value :: rest => readFrom { p with initial := value } rest
  | argument :: rest =>
      if isOption argument then .error (.unknownOption argument)
      else if p.file.isSome then .error .secondFile
      else readFrom { p with file := some argument } rest

/-- Read the arguments after the program's name. -/
def read (arguments : List String) : Except Misuse Request :=
  readFrom .empty arguments

/-- What reading a file gives. -/
inductive Content where
  | missing
  | directory
  /-- The bytes are not valid text. -/
  | garbled
  | text (source : String)
deriving DecidableEq

/-- What a finished program leaves behind. -/
structure Output where
  exit : Nat
  stdout : String
  stderr : String
deriving DecidableEq

/-- The lines, each with its line end. -/
def joinLines (lines : List String) : String :=
  String.join (lines.map fun line => line ++ "\n")

/-- How to use the program. -/
def usage (program : String) : List String :=
  [s!"Usage: {program} <file> [--ans <value>] [--warnings] [--headless]",
    "",
    "  --ans <value>   initial value of Ans (~ is the negative sign), default 0",
    "  --warnings      report parser warnings",
    "  --headless      run once and print output instead of starting the TUI"]

/-- A program that stops with errors only. -/
def failWith (lines : List String) : Output :=
  ⟨1, "", joinLines lines⟩

/-- The lines that go to the standard output. -/
def outputLines (events : List Event) : List String :=
  events.filterMap fun
    | .printed text => some text
    | _ => none

/-- The lines that go to the standard error. -/
def errorLines (events : List Event) : List String :=
  events.filterMap fun
    | .warned text | .failed text => some text
    | _ => none

/-- The options that a request asks for. -/
def Request.options (request : Request) : Options :=
  { Options.standard with warnings := request.warnings }

/-- Run a source text once. -/
def runHeadless (pace : Pace) (request : Request) (source : String) : Output :=
  let report := Session.fresh.run pace source (Entry.read request.initial) request.options
  ⟨if report.ending.error?.isSome then 1 else 0, joinLines (outputLines report.events),
    joinLines (errorLines report.events)⟩

/-- What the program does: it finishes at once, or opens a workbench that has run once. -/
inductive Action where
  | finish (output : Output)
  | openWorkbench (workbench : Workbench)

/-- What to do with a file that has been looked up. -/
def serve (program : String) (pace : Pace) (request : Request) : Content → Action
  | .missing =>
      .finish (failWith (s!"Error: File '{request.file}' not found" :: usage program))
  | .directory =>
      .finish (failWith
        ["Error: Os \x7b code: 21, kind: IsADirectory, message: \"Is a directory\" \x7d"])
  | .garbled =>
      .finish (failWith
        ["Error: Error \x7b kind: InvalidData, message: \"stream did not contain valid UTF-8\" \x7d"])
  | .text source =>
      if request.headless then .finish (runHeadless pace request source)
      else
        .openWorkbench
          ((Workbench.ofSource source request.options request.initial).runProgram pace)

/-- What to do with arguments that ask for nothing. -/
def refuse (program : String) (misuse : Misuse) : Action :=
  .finish (failWith ([s!"Error: {misuse.message}", ""] ++ usage program))

/-- What the program does with its arguments, given a way to look up files. -/
def run {m : Type → Type} [Monad m] (program : String) (arguments : List String) (pace : Pace)
    (lookup : String → m Content)
    : m Action :=
  match read arguments with
  | .error misuse => return refuse program misuse
  | .ok request => return serve program pace request (← lookup request.file)

end LoopCalc.CommandLine
