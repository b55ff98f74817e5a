import LoopCalc.Entry
import LoopCalc.Program.Piece

/-! The language described line by line, without a cursor. A source is cut into lines, each line
into logical lines, and each logical line is read as a whole; a stack nests what they say. Nothing
here depends on how far a scanner has come, so this is what the parser is measured against.
-/

namespace LoopCalc.LineByLine

/-- A piece of a line between two separators, without the blanks around it, and the place of its
first character. -/
structure LogicalLine where
  location : Location
  text : List Char
deriving DecidableEq

/-- The part of a line before its first comment mark. -/
def uncommented : List Char → List Char
  | [] => []
  | c :: rest => if ['/', '/'].isPrefixOf (c :: rest) then [] else c :: uncommented rest

/-- Fields that stand one after the other with a separator between them, each with the number of
characters before it. -/
def placed : Nat → List (List Char) → List (Nat × List Char)
  | _, [] => []
  | column, field :: more => (column, field) :: placed (column + field.length + 1) more

/-- The logical line that a field holds, unless the field is blank. -/
def ofField (line : Nat) : Nat × List Char → Option LogicalLine
  | (column, field) =>
      if Text.trim field = [] then none
      else
        some ⟨⟨line + 1, column + (field.takeWhile Text.isBlank).length + 1⟩, Text.trim field⟩

/-- The logical lines of a line, or of what is left of it after some columns. -/
def ofLine (line column : Nat) (text : List Char) : List LogicalLine :=
  (placed column ((uncommented text).splitOn ':')).filterMap (ofField line)

/-- The logical lines of successive lines; only the first may be the rest of a line. -/
def ofLines (line column : Nat) : List (List Char) → List LogicalLine
  | [] => []
  | text :: below => ofLine line column text ++ ofLines (line + 1) 0 below

/-- The logical lines of a source text. -/
def logicalLines (source : String) : List LogicalLine :=
  ofLines 0 0 (source.toList.splitOn '\n')

/-- At least one character, and only digits. -/
def isDigits (text : List Char) : Bool :=
  text ≠ [] ∧ text.all Char.isDigit

/-- The whole text is a literal: an optional `~`, then digits, digits around a point, or a point
before digits. -/
def isNumeral : List Char → Bool
  | '~' :: rest => isUnsigned rest
  | rest => isUnsigned rest
where
  /-- The whole text is a literal without a sign. -/
  isUnsigned (text : List Char) : Bool :=
    match text.splitOn '.' with
    | [whole] => isDigits whole
    | [whole, fraction] => (whole = [] ∨ isDigits whole) ∧ isDigits fraction
    | _ => false

/-- The value that the whole text stands for: a literal, with `~` read as a minus sign, or the name
of a variable. -/
def operand? (text : List Char) : Option Operand :=
  if isNumeral text then (Entry.number? (Entry.plainSigns text)).map .literal
  else (Variable.ofName? (String.ofList text)).map .reference

/-- The variable that a loop may count in, by its whole name. -/
def counter? (text : List Char) : Option Variable :=
  (Variable.ofName? (String.ofList text)).filter (· ≠ .ans)

/-- What stands between the commas of a header, after its keyword and before its closing
parenthesis. -/
def arguments (inner : List Char) : List (List Char) :=
  ((if inner.getLast? = some ')' then inner.dropLast else inner).splitOn ',').map Text.trim

/-- The header with the given text after its keyword. A missing step is the literal one. -/
def header? (location : Location) (inner : List Char) : Option Header :=
  match arguments inner with
  | [name, start, stop] => do
      let iterator ← counter? name
      let start ← operand? start
      let stop ← operand? stop
      return ⟨iterator, start, stop, .literal (.ofInt 1), location⟩
  | [name, start, stop, step] => do
      let iterator ← counter? name
      let start ← operand? start
      let stop ← operand? stop
      let step ← operand? step
      return ⟨iterator, start, stop, step, location⟩
  | _ => none

/-- What a logical line says, if it says anything: an `End`, a display of one value, or a header. -/
def piece? (l : LogicalLine) : Option Piece :=
  if l.text = Keyword.close.chars then some (.close l.location)
  else
    match Keyword.disp.chars.isPrefixOf? l.text with
    | some value => (operand? (Text.trim value)).map (.disp · l.location)
    | none =>
        match Keyword.loop.chars.isPrefixOf? l.text with
        | some inner => (header? l.location inner).map .header
        | none => none

/-- A program read up to some place: the open loops, innermost first, each with the statements
that stand before it in its block, and the statements of the innermost block. -/
structure Nest where
  opened : List (Header × List Statement)
  block : List Statement

namespace Nest

/-- Nothing read yet. -/
def empty : Nest :=
  ⟨[], []⟩

/-- Take in one more piece. A header opens a loop, an `End` closes the innermost one and needs
one. -/
def add? : Nest → Piece → Option Nest
  | ⟨opened, block⟩, .disp value location => some ⟨opened, block ++ [.disp value location]⟩
  | ⟨opened, block⟩, .header header => some ⟨(header, block) :: opened, []⟩
  | ⟨(header, before) :: outer, block⟩, .close _ => some ⟨outer, before ++ [.loop header block]⟩
  | ⟨[], _⟩, .close _ => none
  | nest, .finished => some nest

/-- The program once all loops that are still open are closed. -/
def program : Nest → Program
  | ⟨opened, block⟩ => opened.foldl (fun body loop => loop.2 ++ [.loop loop.1 body]) block

end Nest

/-- The pieces of a source text, if every logical line is one. -/
def pieces? (source : String) : Option (List Piece) :=
  (logicalLines source).mapM piece?

/-- The program that a source text spells, if it spells one. -/
def program? (source : String) : Option Program := do
  let pieces ← pieces? source
  let nest ← pieces.foldlM Nest.add? Nest.empty
  return nest.program

end LoopCalc.LineByLine
