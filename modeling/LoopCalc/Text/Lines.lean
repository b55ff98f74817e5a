import LoopCalc.Text.Blank

/-!
Lines of a text, and the kinds of lines that hold nothing for a reader.
-/

namespace LoopCalc.Text

/-- The lines of a text. A line end separates two lines, so there is always at least one. -/
def lines : List Char → List (List Char)
  | [] => [[]]
  | c :: rest =>
      if c = '\n' then [] :: lines rest
      else
        match lines rest with
        | [] => [[c]]
        | line :: below => (c :: line) :: below

/-- The lines that line ends close, and what follows the last of them if there is anything. A
carriage return just before a line end belongs to it. -/
def closedLines : List Char → List (List Char)
  | [] => []
  | '\r' :: '\n' :: rest => [] :: closedLines rest
  | '\n' :: rest => [] :: closedLines rest
  | c :: rest =>
      match closedLines rest with
      | [] => [[c]]
      | line :: below => (c :: line) :: below

/-- The lines of a message; an empty message is one empty line. -/
def messageLines (text : List Char) : List (List Char) :=
  if text.isEmpty then [[]] else closedLines text

/-- The line holds blanks only. -/
def isBlankLine (line : List Char) : Bool :=
  line.all isBlank

/-- The first thing on the line is a comment. -/
def isCommentLine (line : List Char) : Bool :=
  ['/', '/'].isPrefixOf (trimStart line)

/-- The line holds nothing for the reader: blanks only, or a comment. -/
def isIdleLine (line : List Char) : Bool :=
  isBlankLine line || isCommentLine line

end LoopCalc.Text
