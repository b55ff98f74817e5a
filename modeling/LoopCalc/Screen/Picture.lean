import LoopCalc.Screen.Style

/-!
Pictures: rectangles of cells, row by row. Larger pictures are put together from smaller ones, side
by side or one above the other, so a drawing never has to look at what was drawn before it.
-/

namespace LoopCalc.Screen

/-- One cell of a screen. -/
structure Cell where
  symbol : List Char
  style : Style
deriving DecidableEq

namespace Cell

/-- An empty cell. -/
def blank : Cell :=
  ⟨[' '], .plain⟩

end Cell

/-- A row of cells. -/
abbrev Row := List Cell

/-- The rows of a rectangle, top down. -/
abbrev Picture := List Row

/-- A run of text in one style. -/
structure Span where
  text : List Char
  style : Style
deriving DecidableEq

/-- Which end of a row a text is set against. -/
inductive Side where
  | left
  | right
deriving DecidableEq

/-- Empty cells in one style. -/
def Row.space (style : Style) (width : Nat) : Row :=
  List.replicate width ⟨[' '], style⟩

/-- A row behind some empty cells, cut to the given width. -/
def Row.indented (indent width : Nat) (row : Row) : Row :=
  (List.replicate indent Cell.blank ++ row).take width

/-- Two pictures of equal height side by side. -/
def Picture.beside (left right : Picture) : Picture :=
  List.zipWith (· ++ ·) left right

end LoopCalc.Screen
