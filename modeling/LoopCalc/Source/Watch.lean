import LoopCalc.Source.Cursor

/-!
Reading under a watchdog. Every look at the source takes one of the reads that the watchdog lets
pass, and the look after the last of them fails where the cursor stands. Moving the cursor alone
does not look. Loops over the source go on until a round has a result.
-/

namespace LoopCalc

/-- A cursor, and how often the source may still be read. -/
structure Watched where
  cursor : Cursor
  reads : Nat
deriving DecidableEq

/-- A step over a source text under a watchdog. -/
abbrev Watch := EStateM Fault Watched

namespace Watch

/-- Stop at the cursor. -/
def fail {α : Type} (cause : Fault.Cause) : Watch α := do
  throw ⟨cause, (← get).cursor.location⟩

/-- Read the source where the cursor stands. -/
def look : Watch Cursor := do
  let w ← get
  match w.reads with
  | 0 => fail .timeout
  | reads + 1 =>
      set { w with reads }
      return w.cursor

/-- Where the cursor stands, which takes no read. -/
def standing : Watch Cursor := do
  return (← get).cursor

/-- Move the cursor, which takes no read. -/
def move (f : Cursor → Cursor) : Watch Unit :=
  modify fun w => { w with cursor := f w.cursor }

/-- So many rounds at most, each from what the one before it has left. -/
def rounds {α β : Type} (round : β → Watch (β ⊕ α)) : Nat → β → Watch α
  | 0, _ => fail .timeout
  | count + 1, b => do
      match ← round b with
      | .inl b => rounds round count b
      | .inr a => return a

/-- Rounds until one has a result. Every round looks at the source, so there is at most one round
more than there are reads. -/
def repeated {α β : Type} (round : β → Watch (β ⊕ α)) (b : β) : Watch α := do
  rounds round ((← get).reads + 1) b

/-- Past one blank, if one stands ahead. -/
def passBlank (skipped : Bool) : Watch (Bool ⊕ Bool) := do
  if (← look).current?.any Text.isBlank then
    move .advance
    return .inl true
  else
    return .inr skipped

/-- Past the blanks on the current line, and whether there are any. A logical line that starts
before them starts after them too. -/
def skipBlanks : Watch Bool := do
  let start ← standing
  let skipped ← repeated passBlank false
  move fun c => { c with lineStart := start.lineStart }
  return skipped

/-- Past blanks, and past the line end behind them. -/
def passBlankLine (skipped : Bool) : Watch (Bool ⊕ Bool) := do
  let blanks ← skipBlanks
  if (← look).atEnd then
    return .inr (skipped || blanks)
  else if (← look).atLineEnd then
    move .advanceLine
    return .inl true
  else
    return .inr (skipped || blanks)

/-- Past blanks and blank lines, and whether there are any. -/
def skipBlankLines : Watch Bool :=
  repeated passBlankLine false

/-- Past one comment, if it stands ahead, and what is blank below it. -/
def passComment (skipped : Bool) : Watch (Bool ⊕ Bool) := do
  if (← look).atEnd then
    return .inr skipped
  else if (← look).startsWith ['/', '/'] then
    move .advanceLine
    let _ ← skipBlankLines
    return .inl true
  else
    return .inr skipped

/-- Past blanks, blank lines and comments, and whether there is a comment. -/
def skipComments : Watch Bool := do
  let _ ← skipBlankLines
  repeated passComment false

/-- The text character by character, as far as it stands ahead, and whether that is all of it. -/
def take : List Char → Watch Bool
  | [] => return true
  | want :: more => do
      if (← look).current? = some want then
        move .advance
        take more
      else
        return false

/-- Take exactly the given text and the blanks after it on the line. -/
def expect (text : List Char) : Watch Unit := do
  if ← take text then
    let _ ← skipBlanks
  else
    fail (.expected (String.ofList text))

end Watch

end LoopCalc
