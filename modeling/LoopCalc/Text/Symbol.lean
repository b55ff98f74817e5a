import LoopCalc.Text.Wide

/-!
Symbols of a text: the parts that a screen draws as a whole, and how many cells each takes.
-/

namespace LoopCalc.Text

/-- The symbols of a text. A carriage return and the line feed after it are one symbol, any other
line feed is not drawn, and every other character is a symbol of its own. -/
def symbols : List Char → List (List Char)
  | [] => []
  | '\r' :: '\n' :: rest => ['\r', '\n'] :: symbols rest
  | '\n' :: rest => symbols rest
  | c :: rest => [c] :: symbols rest

/-- The cells that a symbol takes. -/
def cells (symbol : List Char) : Nat :=
  if symbol.any isWide then 2 else 1

end LoopCalc.Text
