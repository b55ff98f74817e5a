import LoopCalc.Program.Parser

/-!
Single steps on a cursor under a watchdog. A step fails at the look for which the watchdog has no
read left; moving the cursor alone does not look.
-/

namespace LoopCalc

/-- A step on a cursor. -/
inductive Probe where
  | advance
  | advanceLine
  | startLine
  | current
  | rest
  | atLineEnd
  | atEnd
  | startsWith (text : String)
  | expect (text : String)
  | skipBlanks
  | skipBlankLines
  | skipComments

namespace Probe

/-- What a step answers. -/
inductive Reply where
  | done
  | character (c : Option Char)
  | text (text : String)
  | flag (value : Bool)
  | fault (fault : Fault)

/-- The answer to a step, and the cursor after it. -/
def look (c : Cursor) : Probe → Reply × Cursor
  | advance => (.done, c.advance)
  | advanceLine => (.done, c.advanceLine)
  | startLine => (.done, c.startLine)
  | current => (.character c.current?, c)
  | rest => (.text (String.ofList c.rest), c)
  | atLineEnd => (.flag c.atLineEnd, c)
  | atEnd => (.flag c.atEnd, c)
  | startsWith text => (.flag (c.startsWith text.toList), c)
  | expect text =>
      match Scan.expect text.toList c with
      | .ok _ c => (.done, c)
      | .error fault c => (.fault fault, c)
  | skipBlanks => (.flag (c.skipBlanks.location ≠ c.location), c.skipBlanks)
  | skipBlankLines => (.flag (c.skipBlankLines.location ≠ c.location), c.skipBlankLines)
  | skipComments => (.flag c.passesComment, c.skipComments)

/-- The answer to a step, look by look. -/
def watch : Probe → Watch Reply
  | advance => do
      Watch.move .advance
      return .done
  | advanceLine => do
      Watch.move .advanceLine
      return .done
  | startLine => do
      Watch.move .startLine
      return .done
  | current => return .character (← Watch.look).current?
  | rest => return .text (String.ofList (← Watch.look).rest)
  | atLineEnd => return .flag (← Watch.look).atLineEnd
  | atEnd => return .flag (← Watch.look).atEnd
  | startsWith text => return .flag ((← Watch.look).startsWith text.toList)
  | expect text => do
      Watch.expect text.toList
      return .done
  | skipBlanks => return .flag (← Watch.skipBlanks)
  | skipBlankLines => return .flag (← Watch.skipBlankLines)
  | skipComments => return .flag (← Watch.skipComments)

/-- A fault is an answer like any other. -/
def answer {σ : Type} : EStateM.Result Fault σ Reply → Reply × σ
  | .ok reply s => (reply, s)
  | .error fault s => (.fault fault, s)

/-- Take a step under a watchdog. -/
def run (watchdog : Watchdog) (probe : Probe) (c : Cursor) : Reply × Cursor :=
  match watchdog with
  | .silent => look c probe
  | .after reads => (answer (watch probe ⟨c, reads⟩)).map id Watched.cursor

end Probe

end LoopCalc
