import LoopCalc.Screen.Picture
import LoopCalc.Text.Letter
import LoopCalc.Text.Lines
import LoopCalc.Variable

/-!
Highlighting of source lines. A line is cut into tokens, each with a role; a comment line is one
token. Words are keywords or are cut into variable names.
-/

namespace LoopCalc.Screen.Highlight

/-- What a piece of a source line is. -/
inductive Role where
  | comment
  | number
  | keyword
  | name
  | bracket
  | separator
  | other
deriving DecidableEq

namespace Role

/-- How a role is drawn. -/
def style : Role → Style
  | comment => .ink Theme.comment
  | number => .ink Theme.number
  | keyword => (Style.ink Theme.keyword).strong
  | name => .ink Theme.name
  | bracket => .ink Theme.primary
  | separator => .ink Theme.secondary
  | other => .ink Theme.text

/-- The role of a character that is no part of a number or word. -/
def ofSymbol (c : Char) : Role :=
  if c = '(' ∨ c = ')' then bracket else if c = ':' then separator else other

end Role

/-- A piece of a source line. -/
structure Token where
  role : Role
  text : List Char
deriving DecidableEq

/-- A number starts here. -/
def startsNumber (c : Char) : Bool :=
  c.isDigit || c = '.' || c = '~'

/-- A number goes on here. -/
def continuesNumber (c : Char) : Bool :=
  startsNumber c || c = 'e'

/-- The word is a keyword; `For` is one only in front of a parenthesis. -/
def isKeyword (word : List Char) (called : Bool) : Bool :=
  (word = ['F', 'o', 'r'] && called) || word = ['D', 'i', 's', 'p'] || word = ['E', 'n', 'd']

/-- A word cut into variable names, the longest first, and other letters. -/
def names : List Char → List Token
  | [] => []
  | c :: rest =>
      match Variable.atFront? (c :: rest) with
      | some v => ⟨.name, v.chars⟩ :: names (rest.drop (v.chars.length - 1))
      | none => ⟨.other, [c]⟩ :: names rest
termination_by word => word.length
decreasing_by all_goals simp only [List.length_cons, List.length_drop]; omega

/-- The tokens of a word. -/
def word (letters : List Char) (called : Bool) : List Token :=
  if isKeyword letters called then [⟨.keyword, letters⟩] else names letters

/-- The tokens of a text that is no comment. -/
def tokens : List Char → List Token
  | [] => []
  | c :: rest =>
      if startsNumber c then
        ⟨.number, c :: rest.takeWhile continuesNumber⟩ :: tokens (rest.dropWhile continuesNumber)
      else if Text.isLetter c then
        let after := rest.dropWhile Text.isLetter
        word (c :: rest.takeWhile Text.isLetter) (after.head? = some '(') ++ tokens after
      else
        ⟨.ofSymbol c, [c]⟩ :: tokens rest
termination_by text => text.length
decreasing_by
  · exact Nat.lt_succ_of_le (List.dropWhile_sublist _).length_le
  · exact Nat.lt_succ_of_le (List.dropWhile_sublist _).length_le
  · exact Nat.lt_succ_self _

/-- The tokens of a source line. -/
def line (text : List Char) : List Token :=
  if Text.isCommentLine text then [⟨.comment, text⟩] else tokens text

end LoopCalc.Screen.Highlight
