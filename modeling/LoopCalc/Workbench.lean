import LoopCalc.Entry
import LoopCalc.Host
import LoopCalc.Screen.Pane
import LoopCalc.Screen.StatusBar

/-!
The workbench: one source text with its host, driven by keys and drawn as frames.
-/

namespace LoopCalc

/-- The pane that the arrow keys scroll. -/
inductive Focus where
  | source
  | transcript
  | panel
deriving DecidableEq

namespace Focus

/-- The next pane. -/
def next : Focus → Focus
  | source => transcript
  | transcript => panel
  | panel => source

/-- The pane before. -/
def previous : Focus → Focus
  | source => panel
  | transcript => source
  | panel => transcript

end Focus

/-- A key of the workbench. -/
inductive Key where
  | char (c : Char)
  | enter
  | esc
  | backspace
  | tab
  | backTab
  | up
  | down
  /-- Any other key, which does nothing. -/
  | other
deriving DecidableEq

/-- The scroll positions of the panes. -/
structure Scrolls where
  source : Nat
  transcript : Nat
  panel : Nat
deriving DecidableEq

namespace Scrolls

/-- The largest scroll position, `2 ^ 64 - 1`. -/
abbrev limit : Nat := 0xffffffffffffffff

/-- Change the scroll position of one pane. -/
def modify (s : Scrolls) (focus : Focus) (f : Nat → Nat) : Scrolls :=
  match focus with
  | .source => { s with source := f s.source }
  | .transcript => { s with transcript := f s.transcript }
  | .panel => { s with panel := f s.panel }

end Scrolls

/-- The state of a workbench. -/
structure Workbench where
  host : Host
  source : String
  options : Options
  /-- The start value of `Ans`, as typed. -/
  initial : String
  /-- The text being typed while the start value is edited. -/
  buffer : Option String
  focus : Focus
  scrolls : Scrolls
  /-- The line that the last error points at. -/
  errorLine : Option Nat
  /-- The last run ended in an error. -/
  failed : Bool
  quit : Bool
  status : String
deriving DecidableEq

namespace Workbench

/-- A workbench before its first run. -/
def ofSource (source : String) (options : Options) (initial : String) : Workbench where
  host := .fresh
  source := source
  options := options
  initial := initial
  buffer := none
  focus := .source
  scrolls := ⟨0, 0, 0⟩
  errorLine := none
  failed := false
  quit := false
  status := "Ready! Press r to run."

/-- The line that an error points at: where the source is at fault, or where execution stopped. -/
def errorLineOf (ending : Ending) (host : Host) : Option Nat :=
  match ending with
  | .rejected fault => some fault.location.line
  | .aborted _ => host.session.location.map Location.line
  | .completed | .unfinished => none

/-- The message after a run. -/
def statusOf (ending : Ending) (host : Host) : String :=
  match ending.error? with
  | some text => text
  | none => s!"Done: {(host.transcript.texts .output).length} line(s) displayed"

/-- Run the program once, replacing what the last run displayed. The transcript pane scrolls to the
end. -/
def runProgram (w : Workbench) (pace : Pace) : Workbench :=
  let (ending, host, _) :=
    w.host.clear.beginRun.run pace w.source (Entry.read w.initial) w.options
  { w with
    host
    errorLine := errorLineOf ending host
    failed := ending.error?.isSome
    status := statusOf ending host
    scrolls := { w.scrolls with transcript := Scrolls.limit } }

/-- Switch warnings on or off. -/
def toggleWarnings (w : Workbench) : Workbench :=
  let warnings := !w.options.warnings
  { w with
    options := { w.options with warnings }
    status := if warnings then "Warnings on" else "Warnings off" }

/-- Start typing the start value of `Ans`. -/
def beginEdit (w : Workbench) : Workbench :=
  { w with buffer := some w.initial, status := "Enter initial value for Ans" }

/-- The character can be part of a typed number. -/
def isEntryChar (c : Char) : Bool :=
  c.isDigit || c = '.' || c = '-' || c = '~' || c = 'e' || c = 'E'

/-- The text being typed after a key other than those that end the edit. -/
def typed (text : String) : Key → String
  | .backspace => String.ofList text.toList.dropLast
  | .char c => if isEntryChar c then text.push c else text
  | _ => text

/-- Take the typed text as the start value. -/
def confirmEdit (w : Workbench) (text : String) : Workbench :=
  let initial := String.ofList (Text.trim text.toList)
  { w with
    initial
    buffer := none
    status := "Ans will start at " ++ (Entry.read initial).plainText }

/-- Drop the typed text. -/
def cancelEdit (w : Workbench) : Workbench :=
  { w with buffer := none, status := "Edit cancelled" }

/-- A key while the start value is being typed. -/
def editKey (w : Workbench) (text : String) : Key → Workbench
  | .enter => w.confirmEdit text
  | .esc => w.cancelEdit
  | key => { w with buffer := some (typed text key) }

/-- A key outside editing. -/
def commandKey (w : Workbench) (pace : Pace) : Key → Workbench
  | .char 'q' | .char 'Q' => { w with quit := true }
  | .char 'r' | .char 'R' => w.runProgram pace
  | .char 'w' | .char 'W' => w.toggleWarnings
  | .char 'i' | .char 'I' => w.beginEdit
  | .tab => { w with focus := w.focus.next }
  | .backTab => { w with focus := w.focus.previous }
  | .up => { w with scrolls := w.scrolls.modify w.focus fun n => n - 1 }
  | .down => { w with scrolls := w.scrolls.modify w.focus fun n => min (n + 1) Scrolls.limit }
  | _ => w

/-- The workbench after a key. -/
def press (w : Workbench) (pace : Pace) (key : Key) : Workbench :=
  match w.buffer with
  | some text => w.editKey text key
  | none => w.commandKey pace key

/-- What the status bar tells about the workbench. -/
def statusBar (w : Workbench) : Screen.StatusBar where
  message := w.status
  initial := w.buffer.getD w.initial
  warnings := w.options.warnings
  failed := w.failed
  editing := w.buffer.isSome

open Screen in
/-- Draw a frame: source above transcript on the left, panel on the right, the status bar in
the last row. Drawing pulls the scroll positions back. -/
def draw [Renderer] (w : Workbench) (width height : Nat) : Picture × Workbench :=
  let paneHeight := Renderer.divide .allButOne height
  let leftWidth := Renderer.divide (.percent 60) width
  let sourceHeight := Renderer.divide (.percent 65) paneHeight
  let (source, sourceScroll) :=
    Pane.source w.source w.errorLine (w.focus = .source) leftWidth sourceHeight w.scrolls.source
  let (transcript, transcriptScroll) :=
    Pane.transcript w.host.transcript (w.focus = .transcript) leftWidth (paneHeight - sourceHeight)
      w.scrolls.transcript
  let (panel, panelScroll) :=
    Pane.panel w.host.panel (w.focus = .panel) (width - leftWidth) paneHeight w.scrolls.panel
  let panes := Picture.beside (source ++ transcript) panel
  let bar := w.statusBar.draw width (height - paneHeight)
  (panes ++ bar, { w with scrolls := ⟨sourceScroll, transcriptScroll, panelScroll⟩ })

end Workbench

end LoopCalc
