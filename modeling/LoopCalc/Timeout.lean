/-!
Time limits. How fast a host is decides when a limit is over, so a host lends both of its watchdogs:
the one over reading a source, as the number of reads that it lets pass, and its clock for the one
over a loop, as the times at which successive readings are taken. Runs that are lent the same behave
alike.
-/

namespace LoopCalc

/-- The parse watchdog. Every read of the source asks it, and it stays silent throughout, or fires
after so many reads. -/
inductive Watchdog where
  | silent
  | after (reads : Nat)
deriving DecidableEq

namespace Watchdog

/-- The watchdog lets so many reads pass. -/
def Allows (count : Nat) : Watchdog → Prop
  | silent => True
  | after reads => count ≤ reads

end Watchdog

/-- How long something may take. -/
inductive Timeout where
  | after (milliseconds : Nat)
  | never
deriving DecidableEq

namespace Timeout

/-- The parse watchdog on a host that reads at once: with no time at all it fires before the first
read, and otherwise it stays silent. -/
def watchdog : Timeout → Watchdog
  | after 0 => .after 0
  | _ => .silent

/-- The time in microseconds after which something started at time `now` has expired. -/
def deadline? (now : Nat) : Timeout → Option Nat
  | after milliseconds => some (now + 1000 * milliseconds)
  | never => none

end Timeout

/-- A host's clock: the time of each reading, in microseconds. -/
abbrev Clock := Nat → Nat

namespace Clock

/-- The clock that moves on by a microsecond with each reading. -/
def steady : Clock :=
  fun reading => reading

end Clock

/-- What a host lends to a run: a clock, the number of passes that one loop may make before the
execution is given up as unfinished, and the parse watchdog for a limit in milliseconds. -/
structure Pace where
  clock : Clock
  passes : Nat
  reading : Nat → Watchdog

namespace Pace

/-- The parse watchdog under a time limit. -/
def watchdog (pace : Pace) : Timeout → Watchdog
  | .after milliseconds => pace.reading milliseconds
  | .never => .silent

/-- A host that reads at once, with the given clock and passes. -/
def prompt (clock : Clock) (passes : Nat) : Pace :=
  ⟨clock, passes, fun milliseconds => Timeout.watchdog (.after milliseconds)⟩

/-- The steady clock, and more passes than any limited loop can make on it. -/
def steady : Pace :=
  prompt Clock.steady 0x4000000000000000

end Pace

end LoopCalc
