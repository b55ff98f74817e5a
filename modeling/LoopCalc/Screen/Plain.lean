import LoopCalc.Screen.Renderer
import LoopCalc.Text.Lines
import LoopCalc.Text.Symbol

/-!
The plain renderer: every character is drawn on its own, in one cell or in two if it is wide.
-/

namespace LoopCalc.Screen

/-- As many blocks as fit whole into a length; the first that does not fit cuts the rest. -/
def fit {α : Type} : Nat → List (List α) → List α
  | _, [] => []
  | length, block :: more =>
      if block.length ≤ length then block ++ fit (length - block.length) more else []

/-- What fits is no longer than the room for it, by induction on the blocks. -/
theorem length_fit_le {α : Type} (length : Nat) (blocks : List (List α))
    : (fit length blocks).length ≤ length := by
  induction blocks generalizing length with
  | nil => exact Nat.zero_le _
  | cons block more ih =>
      unfold fit
      split
      · have := ih (length - block.length)
        rw [List.length_append]
        omega
      · exact Nat.zero_le _

namespace Row

/-- The cells of one symbol over a fill. The second cell of a wide symbol is empty. -/
def glyph (fill style : Style) (symbol : List Char) : Row :=
  ⟨symbol, style.onto fill⟩ :: List.replicate (Text.cells symbol - 1) .blank

/-- The glyphs of text over a fill. -/
def glyphs (fill : Style) (spans : List Span) : List Row :=
  spans.flatMap fun span => (Text.symbols span.text).map (glyph fill span.style)

/-- Text in a row of the given width, over a fill. -/
def ofSpans (fill : Style) (side : Side) (width : Nat) (spans : List Span) : Row :=
  let text := fit width (glyphs fill spans)
  let rest := space fill (width - text.length)
  match side with
  | .left => text ++ rest
  | .right => rest ++ text

/-- A row of text has exactly the cells that it was given. -/
@[simp]
theorem length_ofSpans (fill : Style) (side : Side) (width : Nat) (spans : List Span)
    : (ofSpans fill side width spans).length = width := by
  have h := length_fit_le width (glyphs fill spans)
  cases side <;>
    · simp only [ofSpans, space, List.length_append, List.length_replicate]
      omega

end Row

namespace Picture

/-- The first `count` rows, filled up with the given row. -/
def fill (row : Row) (count : Nat) (rows : Picture) : Picture :=
  rows.take count ++ List.replicate (count - rows.length) row

/-- Filling up to a count gives as many rows. -/
@[simp]
theorem length_fill (row : Row) (count : Nat) (rows : Picture)
    : (fill row count rows).length = count := by
  simp only [fill, List.length_append, List.length_take, List.length_replicate]
  omega

/-- A horizontal edge of a frame, with a text in it. -/
def edge (style : Style) (left right : Char) (title : List Char) (width : Nat) : Row :=
  let title := title.take (width - 2)
  let line := title ++ List.replicate (width - 2 - title.length) '─'
  ((left :: line ++ [right]).map fun c => ⟨[c], style⟩).take width

/-- A row of a frame's inside between its sides. -/
def between (style : Style) (width : Nat) (row : Row) : Row :=
  let side : Cell := ⟨['│'], style⟩
  (side :: row ++ [side]).take width

/-- A frame with a title around rows that are two cells narrower; missing rows are filled up. -/
def framed (style : Style) (title : String) (width height : Nat) (blank : Row) (rows : Picture)
    : Picture :=
  let inside := (fill blank (height - 2) rows).map (between style width)
  (edge style '┌' '┐' title.toList width :: inside ++ [edge style '└' '┘' [] width]).take height

end Picture

namespace Plain

/-- A line of text in a frame of the given width. -/
def lineIn (box : Box) (fill : Style) (side : Side) (width : Nat) (spans : List Span) : Row :=
  Row.indented box.indent (width - 2) (Row.ofSpans fill side (width - 2 - box.indent) spans)

/-- The rows of an item, more than one if its text has line ends. -/
def itemIn (box : Box) (width : Nat) (item : Span) : Picture :=
  (Text.messageLines item.text).map fun text =>
    lineIn box item.style .left width [⟨text, item.style⟩]

/-- A widget in a rectangle. An item of a list whose rows do not all fit is left out with those
after it. -/
def draw (width height : Nat) : Widget → Picture
  | .text none fill side lines =>
      Picture.fill (Row.space fill width) height (lines.map (Row.ofSpans fill side width))
  | .text (some box) fill side lines =>
      Picture.framed box.border box.title width height (Row.space fill (width - 2))
        (lines.map (lineIn box fill side width))
  | .list box items =>
      Picture.framed box.border box.title width height (Row.space .plain (width - 2))
        (fit (height - 2) (items.map (itemIn box width)))

/-- The first part of a length; half a cell is rounded up. -/
def divide (cells : Nat) : Division → Nat
  | .allButOne => cells - 1
  | .percent share => (2 * share * cells + 100) / 200

end Plain

instance plain : Renderer where
  draw widget width height := Plain.draw width height widget
  divide division cells := Plain.divide cells division

end LoopCalc.Screen
