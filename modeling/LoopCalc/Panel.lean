import LoopCalc.Event
import LoopCalc.Store

/-!
The variable panel: a host's own copy of all variables, kept up to date by what a session tells,
with a mark on each variable that took a new value and the number of writes.
-/

namespace LoopCalc

/-- A host's copy of the variables. -/
structure Panel where
  store : Store
  /-- Which variables took a new value. -/
  marks : Table Bool
  /-- Writes since the last start of a run. -/
  writes : Nat
deriving DecidableEq

namespace Panel

/-- No variable is marked. -/
def noMarks : Table Bool :=
  Table.const false

/-- A panel that has been told nothing. -/
def fresh : Panel :=
  ⟨.blank, noMarks, 0⟩

/-- The variable took a new value. -/
def changed (p : Panel) (v : Variable) : Bool :=
  p.marks.get v

/-- The panel after a write. It marks the variable if the number differs from the one before. -/
def write (p : Panel) (v : Variable) (x : Number) : Panel :=
  { store := p.store.set v x
    marks := p.marks.set v (p.changed v || !(p.store.get v).sameValue x)
    writes := p.writes + 1 }

/-- The panel after a reset: zeroing is no work of the program. -/
def clearMarks (p : Panel) : Panel :=
  { p with marks := noMarks }

/-- The panel at the start of a run; the values stay. -/
def beginRun (p : Panel) : Panel :=
  { p with marks := noMarks, writes := 0 }

/-- The panel after it has been told something. Messages are not for it. -/
def observe (p : Panel) : Event → Panel
  | .assigned v x => p.write v x
  | .cleared => p.clearMarks
  | .printed _ | .warned _ | .failed _ => p

end Panel

end LoopCalc
