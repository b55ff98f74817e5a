import LoopCalc.Event

/-!
Transcripts: the lines that a session has told its host, in order.
-/

namespace LoopCalc

/-- What a line of a transcript is. -/
inductive Transcript.Kind where
  | output
  | warning
  | error
deriving DecidableEq

/-- A line of a transcript. -/
structure Transcript.Line where
  kind : Transcript.Kind
  text : String
deriving DecidableEq

/-- The lines told so far, oldest first. -/
structure Transcript where
  lines : Array Transcript.Line
deriving DecidableEq

namespace Transcript

/-- A transcript without lines. -/
def empty : Transcript :=
  ⟨#[]⟩

/-- The transcript with one more line. -/
def push (t : Transcript) (kind : Kind) (text : String) : Transcript :=
  ⟨t.lines.push ⟨kind, text⟩⟩

/-- The texts of all lines of one kind, in order. -/
def texts (t : Transcript) (kind : Kind) : List String :=
  (t.lines.toList.filter fun line => line.kind = kind).map Line.text

/-- The transcript after it has been told something. Writes to variables are not for it. -/
def observe (t : Transcript) : Event → Transcript
  | .printed text => t.push .output text
  | .warned text => t.push .warning text
  | .failed text => t.push .error text
  | .assigned .. | .cleared => t

end Transcript

end LoopCalc
