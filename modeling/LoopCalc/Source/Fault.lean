import LoopCalc.Source.Location

/-!
What a reader reports about a source text: the fault that stops it, or a notice on a text that it
can read.
-/

namespace LoopCalc

/-- The words that start a statement. -/
inductive Keyword where
  | loop
  | disp
  | close
deriving DecidableEq

namespace Keyword

/-- The characters that make up the word in a source text. -/
def chars : Keyword → List Char
  | loop => ['F', 'o', 'r', '(']
  | disp => ['D', 'i', 's', 'p', ' ']
  | close => ['E', 'n', 'd']

end Keyword

/-- Why a source text cannot be read. -/
inductive Fault.Cause where
  /-- Some other text had to follow here. -/
  | expected (text : String)
  /-- A statement starts in the middle of a logical line. -/
  | misplaced (keyword : Keyword)
  /-- No statement starts here. -/
  | noStatement
  /-- Neither a literal nor a variable stands here. -/
  | noValue
  /-- No variable stands here. -/
  | noVariable
  /-- A loop over `Ans`. -/
  | ansIterator
  /-- An `End` outside every loop. -/
  | unbalancedEnd
  /-- The parse watchdog has expired. -/
  | timeout
deriving DecidableEq

namespace Fault.Cause

/-- The wording of a cause. -/
def detail : Fault.Cause → String
  | expected text => "Expected to see " ++ text
  | misplaced .loop => "Unexpected for-loop"
  | misplaced .disp => "Unexpected Disp statement"
  | misplaced .close => "Unexpected End statement"
  | noStatement => "Expected to see For(, Disp or End."
  | noValue => "Expected to see a numeric literal or a variable name."
  | noVariable => "Expected to see a variable name."
  | ansIterator => "You cannot use Ans as the iterator in a for-loop"
  | unbalancedEnd => "Too many End statements!"
  | timeout => "Parsing took too long. Please report this."

end Fault.Cause

/-- A reason why a source text cannot be read, and the place where it shows. -/
structure Fault where
  cause : Fault.Cause
  location : Location
deriving DecidableEq

namespace Fault

/-- The fault as it is reported. -/
def message (f : Fault) : String :=
  s!"SyntaxError while parsing at {f.location.text}: {f.cause.detail}"

end Fault

/-- A remark on a source text that can be read: loops left open at its end. -/
structure Notice where
  unclosed : Nat
  location : Location
deriving DecidableEq

namespace Notice

/-- The wording of a notice. -/
def detail (n : Notice) : String :=
  s!"Not enough End statements: {n.unclosed} unclosed block(s)."

/-- The notice as it is reported. -/
def message (n : Notice) : String :=
  s!"Warning during parsing at {n.location.text}: {n.detail}"

end Notice

end LoopCalc
