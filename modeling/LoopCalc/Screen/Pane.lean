import LoopCalc.Panel
import LoopCalc.Screen.Highlight
import LoopCalc.Screen.Renderer
import LoopCalc.Transcript

/-!
The framed panes: source, transcript and variable panel. Each shows a window of its lines, from the
scroll position on, and drawing pulls the scroll position back so that the window stays full.
-/

namespace LoopCalc.Screen.Pane

variable [Renderer]

/-- The lines that a pane of the given height shows; a pane always counts as showing one. -/
def visibleLines (height : Nat) : Nat :=
  max (height - 2) 1

/-- The scroll position pulled back so that no more than the missing lines stay empty. -/
def clampScroll (total visible scroll : Nat) : Nat :=
  if visible < total then min scroll (total - visible) else 0

/-- The lines in the window of a pane, and the scroll position after drawing. -/
def window {α : Type} (height scroll : Nat) (lines : List α) : List α × Nat :=
  let visible := visibleLines height
  let scroll := clampScroll lines.length visible scroll
  ((lines.drop scroll).take visible, scroll)

/-- The border of a pane tells whether it has the focus. -/
def border (focused : Bool) : Style :=
  if focused then (Style.ink Theme.focusedBorder).strong else .ink Theme.normalBorder

/-- A text set to the right in a field. -/
def padStart (width : Nat) (text : List Char) : List Char :=
  List.replicate (width - text.length) ' ' ++ text

/-- A framed pane of text lines. -/
def ofLines (focused : Bool) (title : String) (width height : Nat) (lines : List (List Span))
    : Picture :=
  Renderer.draw (.text (some ⟨title, border focused, 0⟩) .plain .left lines) width height

/-! ### Source -/

/-- How the line with the error is drawn. -/
def errorStyle : Style :=
  (Style.inkOn .white Theme.error).strong

/-- A source line with its number, which counts from one. -/
def sourceLine (errorLine? : Option Nat) (number : Nat) (text : List Char) : List Span :=
  let isError := errorLine? = some number
  let numberStyle :=
    if isError then (Style.ink Theme.error).strong else .ink Theme.comment
  ⟨padStart 4 (Nat.toDigits 10 number) ++ [' '], numberStyle⟩
    :: (Highlight.line text).map fun token =>
        ⟨token.text, if isError then errorStyle else token.role.style⟩

/-- The source pane, and its scroll position after drawing. -/
def source (text : String) (errorLine? : Option Nat) (focused : Bool) (width height scroll : Nat)
    : Picture × Nat :=
  let (shown, scroll) := window height scroll (Text.lines text.toList).zipIdx
  (ofLines focused " Source Code " width height
      (shown.map fun (line, index) => sourceLine errorLine? (index + 1) line),
    scroll)

/-! ### Transcript -/

/-- How a line of a transcript is drawn. -/
def lineStyle : Transcript.Kind → Style
  | .output => .ink Theme.text
  | .warning => .ink Theme.warning
  | .error => (Style.ink Theme.error).strong

/-- A line of a transcript as an item of a list. -/
def transcriptItem (line : Transcript.Line) : Span :=
  ⟨line.text.toList, lineStyle line.kind⟩

/-- The title of the transcript pane. -/
def transcriptTitle : String :=
  " Terminal Output "

/-- The pane of a transcript without lines. -/
def noTranscript (focused : Bool) (width height : Nat) : Picture :=
  Renderer.draw
    (.text (some ⟨transcriptTitle, border focused, 0⟩) (.ink Theme.comment) .left
      [[⟨"(no output)".toList, .plain⟩]])
    width height

/-- The transcript pane, and its scroll position after drawing. Without lines the scroll position is
left alone. -/
def transcript (t : Transcript) (focused : Bool) (width height scroll : Nat) : Picture × Nat :=
  if t.lines.isEmpty then
    (noTranscript focused width height, scroll)
  else
    let (shown, scroll) := window height scroll t.lines.toList
    (Renderer.draw (.list ⟨transcriptTitle, border focused, 1⟩ (shown.map transcriptItem)) width
        height,
      scroll)

/-! ### Variable panel -/

/-- A variable with its value; a new value stands out. -/
def variableLine (p : Panel) (v : Variable) : List Span :=
  let valueStyle :=
    if p.changed v then (Style.ink Theme.success).strong else .ink Theme.text
  [⟨' ' :: padStart 5 v.chars ++ [' '], .ink Theme.name⟩, ⟨['=', ' '], .ink Theme.comment⟩,
    ⟨(p.store.get v).chars, valueStyle⟩]

/-- The pane of the variable panel, and its scroll position after drawing. -/
def panel (p : Panel) (focused : Bool) (width height scroll : Nat) : Picture × Nat :=
  let (shown, scroll) := window height scroll Variable.all
  (ofLines focused s!" Variables ({p.writes} writes) " width height (shown.map (variableLine p)),
    scroll)

end LoopCalc.Screen.Pane
