import LoopCalc.Program.Piece
import LoopCalc.Source.Watch

/-!
Pieces of a source text under a watchdog. The same pieces are taken as without one, look by look: a
name is looked for among all names, and blanks are skipped again where they may stand.
-/

namespace LoopCalc.Watch

/-- Look for the longest of the given names, each with a look, unless a name found before is as
long. -/
def longestName : List Variable → Option Variable → Watch (Option Variable)
  | [], found => return found
  | v :: more, found => do
      let fits := (← look).startsWith v.chars
        && found.all fun other => other.chars.length < v.chars.length
      longestName more (if fits then some v else found)

/-- Take the longest variable name at the cursor, if there is one. -/
def reference? : Watch (Option Variable) := do
  match ← longestName Variable.all none with
  | some v =>
      expect v.chars
      return some v
  | none => return none

/-- Take a literal or a variable name. -/
def operand : Watch Operand := do
  match Literal.atFront? (← look).rest with
  | some literal =>
      expect literal.chars
      return .literal literal.value
  | none =>
      match ← reference? with
      | some v => return .reference v
      | none => fail .noValue

/-- Take the variable that a loop counts in. -/
def iterator : Watch Variable := do
  match ← reference? with
  | some .ans => fail .ansIterator
  | some v => return v
  | none => fail .noVariable

/-- Take a comma and the operand after it, and the blanks behind. -/
def nextOperand : Watch Operand := do
  expect [',']
  let value ← operand
  let _ ← skipBlanks
  return value

/-- Take the step of a loop; a loop without one counts by one. -/
def step : Watch Operand := do
  if (← look).startsWith [','] then nextOperand else return .literal (.ofInt 1)

/-- Take the closing parenthesis of a header, which may be left out. -/
def closing : Watch Unit := do
  if (← look).startsWith [')'] then expect [')'] else return ()

/-- Take a loop header that stands at the given place. -/
def header (location : Location) : Watch Header := do
  expect Keyword.loop.chars
  let iterator ← iterator
  let _ ← skipBlanks
  let start ← nextOperand
  let stop ← nextOperand
  let step ← step
  closing
  return { iterator, start, stop, step, location }

/-- A statement may start at the cursor. -/
def checkLineStart (keyword : Keyword) : Watch Unit := do
  if (← standing).lineStart then return () else fail (.misplaced keyword)

/-- Past a line end at the cursor. There may be nothing below it. -/
def passLineEnd (skipped : Bool) : Watch (Bool ⊕ Option Bool) := do
  if (← look).atLineEnd then
    move .advanceLine
    if (← look).atEnd then
      return .inr none
    else
      return .inl true
  else
    return .inr (some skipped)

/-- Past one separator `:` and the blanks after it, and whether there is one. -/
def passSeparator : Watch Bool := do
  if (← look).startsWith [':'] then
    expect [':']
    move .startLine
    return true
  else
    return false

/-- Past exhausted lines, one separator, blanks and comments. The round has a result at the end of
the source, which is `true`, and where it passes nothing but blanks, which is `false`. -/
def passRound (_ : Unit) : Watch (Unit ⊕ Bool) := do
  if (← look).atEnd then
    return .inr true
  else
    match ← repeated passLineEnd false with
    | none => return .inr true
    | some lines =>
        let _ ← skipBlanks
        let separator ← passSeparator
        let comments ← skipComments
        return if lines || separator || comments then .inl () else .inr false

/-- To the next statement, `End` or the end of the source, and whether it is the end. -/
def toStatement : Watch Bool := do
  if ← repeated passRound () then return true else return (← look).atEnd

/-- Take the piece at the cursor, which stands at none of its separators nor at the end. -/
def here : Watch Piece := do
  let start ← standing
  if (← look).startsWith Keyword.loop.chars then
    checkLineStart .loop
    return .header (← header start.location)
  else if (← look).startsWith Keyword.disp.chars then
    checkLineStart .disp
    expect Keyword.disp.chars
    return .disp (← operand) start.location
  else if (← look).startsWith Keyword.close.chars then
    checkLineStart .close
    expect Keyword.close.chars
    return .close start.location
  else
    fail .noStatement

/-- Take the next piece. -/
def next : Watch Piece := do
  if ← toStatement then return .finished else here

end LoopCalc.Watch
