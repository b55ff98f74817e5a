import LoopCalc.Screen.Picture

/-!
Renderers. The calculator decides on lines, styles, frames and places, and hands them to a renderer
as widgets. How a renderer cuts text into symbols, how many cells it gives to each, what its frames
look like and how it rounds when it divides a length is not decided by the calculator.
-/

namespace LoopCalc.Screen

/-- A frame with a title. -/
structure Box where
  title : String
  border : Style
  /-- The empty cells to the left of all that stands in the frame. -/
  indent : Nat

/-- What can be drawn. -/
inductive Widget where
  /-- Lines of text, one a row, over a fill. -/
  | text (box? : Option Box) (fill : Style) (side : Side) (lines : List (List Span))
  /-- The items of a list, each with its style to the end of its rows. -/
  | list (box : Box) (items : List Span)

/-- How a length is divided into two parts. -/
inductive Division where
  /-- The second part is one cell. -/
  | allButOne
  /-- The first part is so many hundredths. -/
  | percent (share : Nat)

/-- What draws widgets. -/
class Renderer where
  /-- A widget in a rectangle of the given size. -/
  draw (widget : Widget) (width height : Nat) : Picture
  /-- The cells of the first of the two parts of a length. -/
  divide (division : Division) (cells : Nat) : Nat

end LoopCalc.Screen
