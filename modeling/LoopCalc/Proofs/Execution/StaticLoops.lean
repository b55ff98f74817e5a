import LoopCalc.Session
import LoopCalc.Proofs.Execution.Ranges

/-! Programs whose loops count through fixed integers. Without a time limit such a program completes
from any variables, and the number of lines that it displays can be read off its text: each display
counts as often as the loops around it make passes.
-/

namespace LoopCalc

-----------------------------------------------------------------------------------------
-- Static programs
-----------------------------------------------------------------------------------------

namespace Header

/-- The integers that the loop counts through, if they are fixed. -/
def range? (h : Header) : Option Range :=
  match h.start.toInt?, h.stop.toInt?, h.step.toInt? with
  | some start, some stop, some step => some ⟨start, stop, step⟩
  | _, _, _ => none

/-- The loop counts through small fixed integers. -/
def isStatic (h : Header) : Bool :=
  h.range?.any Range.isSmall

/-- How many passes the loop makes. -/
def trips (h : Header) : Nat :=
  h.range?.elim 0 Range.trips

end Header

mutual

/-- Every loop counts through small fixed integers, in a variable that no loop inside it uses. -/
def Statement.isStatic : Statement → Bool
  | .disp .. => true
  | .loop header body =>
      header.isStatic && header.iterator ∉ Program.iterators body && Program.isStatic body

/-- Every loop counts through small fixed integers, in a variable that no loop inside it uses. -/
def Program.isStatic : List Statement → Bool
  | [] => true
  | statement :: rest => statement.isStatic && Program.isStatic rest

end

mutual

/-- For each display in a statement, the loops around it from the inside out. -/
def Statement.displays (around : List Header) : Statement → List (List Header)
  | .disp .. => [around]
  | .loop header body => Program.displays (header :: around) body

/-- For each display in a program, the loops around it from the inside out. -/
def Program.displays (around : List Header) : List Statement → List (List Header)
  | [] => []
  | statement :: rest => statement.displays around ++ Program.displays around rest

end

/-- How often a statement inside the given loops is executed. -/
def Header.tripsAround (around : List Header) : Nat :=
  (around.map Header.trips).prod

mutual

/-- How many lines a static statement displays. -/
def Statement.lineCount : Statement → Nat
  | .disp .. => 1
  | .loop header body => header.trips * Program.lineCount body

/-- How many lines a static program displays. -/
def Program.lineCount : List Statement → Nat
  | [] => 0
  | statement :: rest => statement.lineCount + Program.lineCount rest

end

mutual

/-- The displays of a statement, each counted as often as it is executed. By recursion on the
statement together with programs. -/
theorem Statement.sum_displays (around : List Header) (statement : Statement)
    : ((statement.displays around).map Header.tripsAround).sum
      = Header.tripsAround around * statement.lineCount := by
  cases statement with
  | disp value location =>
      rw [Statement.displays, Statement.lineCount, List.map_singleton, List.sum_singleton,
        Nat.mul_one]
  | loop header body =>
      rw [Statement.displays, Statement.lineCount, Program.sum_displays, Header.tripsAround,
        List.map_cons, List.prod_cons, Header.tripsAround]
      ring
termination_by structural statement

/-- The displays of a program, each counted as often as it is executed. -/
theorem Program.sum_displays (around : List Header) (program : List Statement)
    : ((Program.displays around program).map Header.tripsAround).sum
      = Header.tripsAround around * Program.lineCount program := by
  cases program with
  | nil =>
      rw [Program.displays, Program.lineCount, List.map_nil, List.sum_nil, Nat.mul_zero]
  | cons statement rest =>
      rw [Program.displays, Program.lineCount, List.map_append, List.sum_append,
        Statement.sum_displays, Program.sum_displays, Nat.mul_add]
termination_by structural program

end

-----------------------------------------------------------------------------------------
-- Actions that complete and display a known number of lines
-----------------------------------------------------------------------------------------

/-- The event is a line of output. -/
def Event.isPrinted : Event → Bool
  | printed _ => true
  | assigned .. | cleared | warned _ | failed _ => false

/-- How many lines the machine has displayed. -/
def Machine.lines (m : Machine) : Nat :=
  m.trace.toList.countP Event.isPrinted

/-- Telling an event displays a line exactly if the event is one of output. -/
theorem Machine.lines_tell (m : Machine) (event : Event)
    : (m.tell event).lines = m.lines + if event.isPrinted then 1 else 0 := by
  rw [lines, lines, tell, Array.toList_push, List.countP_append, List.countP_singleton]

/-- A write displays nothing. -/
theorem Machine.lines_write (m : Machine) (v : Variable) (x : Number)
    : (m.write v x).lines = m.lines :=
  lines_tell { m with store := m.store.set v x } (.assigned v x)

namespace Exec

/-- From every machine the action completes and displays the given number of lines. -/
def Prints (x : Exec Unit) (n : Nat) : Prop :=
  ∀ m, ∃ next, x m = .ok () next ∧ next.lines = m.lines + n

/-- Doing nothing displays nothing. -/
theorem prints_pure : Prints (pure ()) 0 :=
  fun m => ⟨m, rfl, rfl⟩

/-- Moving displays nothing. -/
theorem prints_moveTo (location : Location) : Prints (moveTo location) 0 :=
  fun m => ⟨{ m with location := some location }, rfl, rfl⟩

/-- A display displays one line. -/
theorem prints_display (operand : Operand) : Prints (display operand) 1 :=
  fun m => ⟨_, rfl, m.lines_tell _⟩

/-- Actions in sequence display the lines of both. -/
theorem Prints.bind {x y : Exec Unit} {a b : Nat} (hx : Prints x a) (hy : Prints y b)
    : Prints (x >>= fun _ => y) (a + b) := by
  intro m
  obtain ⟨middle, hmiddle, hfirst⟩ := hx m
  obtain ⟨next, hnext, hsecond⟩ := hy middle
  refine ⟨next, ?_, ?_⟩
  · rw [bind_apply, hmiddle]
    exact hnext
  · rw [hsecond, hfirst, Nat.add_assoc]

end Exec

-----------------------------------------------------------------------------------------
-- Static loops
-----------------------------------------------------------------------------------------

namespace Header

variable {h : Header} {clock : Clock} {deadline? : Option Nat} {body : Exec Unit} {n : Nat}
  {m next : Machine} {starts : List Machine}

/-- The question whether a pass is due displays nothing. -/
theorem lines_of_isDue {due : Bool} (hdue : h.isDue clock deadline? m = .ok due next)
    : next.lines = m.lines := by
  rw [isDue_apply] at hdue
  cases hdue
  rfl

/-- Adding the step displays nothing, as it is a write if it completes. -/
theorem lines_of_increment (hstep : h.increment m = .ok () next) : next.lines = m.lines := by
  cases hsum : (m.store.get h.iterator + m.value h.step).isFinite with
  | false =>
      rw [increment_apply, Exec.assign_of_not_finite hsum] at hstep
      cases hstep
  | true =>
      rw [increment_of_finite hsum] at hstep
      cases hstep
      exact Machine.lines_write _ _ _

/-- Only the body of a lap displays anything. By induction on the laps. -/
theorem Laps.lines_eq (hbody : body.Prints n) (hlaps : h.Laps clock deadline? body m starts next)
    : next.lines = m.lines + starts.length * n := by
  induction hlaps with
  | nil m => rw [List.length_nil, Nat.zero_mul, Nat.add_zero]
  | @cons m start after _ _ _ due done stepped _ ih =>
      have hafter : after.lines = start.lines + n := by
        obtain ⟨ended, hended, hlines⟩ := hbody start
        rw [done] at hended
        cases hended
        exact hlines
      rw [ih, lines_of_increment stepped, hafter, lines_of_isDue due, List.length_cons]
      ring

/-- A loop that completes has displayed the lines of its laps. -/
theorem Makes.lines_eq {limits : Limits} (hbody : body.Prints n)
    (hmakes : h.Makes limits body m starts next)
    : next.lines = m.lines + starts.length * n := by
  obtain ⟨-, last, hlaps, hdone⟩ := hmakes
  rw [lines_of_isDue hdone, hlaps.lines_eq hbody]
  exact congrArg (· + _) (Machine.lines_write m _ _)

/-- A static loop has a range that is exact, and its trips are those of the range. -/
theorem exists_range_of_isStatic (hs : h.isStatic = true)
    : ∃ r : Range,
        h.start.toInt? = some r.start
        ∧ h.stop.toInt? = some r.stop
        ∧ h.step.toInt? = some r.step
        ∧ r.Exact
        ∧ h.trips = r.trips := by
  rw [isStatic, Option.any_eq_true] at hs
  obtain ⟨r, hrange, hsmall⟩ := hs
  have htrips : h.trips = r.trips := by rw [trips, hrange, Option.elim_some]
  rw [range?] at hrange
  split at hrange
  · next hstart hstop hstep =>
    obtain rfl := Option.some.inj hrange
    exact ⟨_, hstart, hstop, hstep, Range.exact_of_isSmall hsmall, htrips⟩
  · cases hrange

/-- A static loop displays the lines of its body once for each pass. -/
theorem prints_run {limits : Limits} (htime : limits.timeout = .never)
    (hpasses : 2 ^ 53 < limits.pace.passes) (hs : h.isStatic = true)
    {iterators : List Variable} (hbody : body.Prints n) (hsteps : body.Stepwise iterators)
    (hi : h.iterator ∉ iterators)
    : (h.run limits body).Prints (h.trips * n) := by
  intro m
  obtain ⟨r, hstart, hstop, hstep, he, htrips⟩ := exists_range_of_isStatic hs
  have hsilent : ∀ reading, m.readings < reading
      → ¬limits.pace.clock.Expired limits.timeout m.readings reading := by
    rintro reading - ⟨deadline, hnone, -⟩
    rw [htime] at hnone
    cases hnone
  have hcompletes : ∀ starts start, h.Reenters limits body m starts start
      → ∃ after, body start = .ok () after := by
    intro starts start _
    obtain ⟨after, hafter, -⟩ := hbody start
    exact ⟨after, hafter⟩
  obtain ⟨starts, next, hrun, hmakes, -, hlength⟩ :=
    exists_makes hsteps hi hstart hstop hstep he hsilent (he.trips_le.trans hpasses) hcompletes
  refine ⟨next, hrun, ?_⟩
  rw [hmakes.lines_eq hbody, hlength, htrips]

end Header

-----------------------------------------------------------------------------------------
-- Executions of static programs
-----------------------------------------------------------------------------------------

mutual

/-- A static statement completes, and displays the lines counted from its text. By recursion on the
statement together with programs. -/
theorem Statement.prints_exec {limits : Limits} (htime : limits.timeout = .never)
    (hpasses : 2 ^ 53 < limits.pace.passes) (statement : Statement) (hs : statement.isStatic = true)
    : (statement.exec limits).Prints statement.lineCount := by
  cases statement with
  | disp value location =>
      rw [Statement.exec, Statement.lineCount]
      exact (Exec.prints_moveTo location).bind (Exec.prints_display value)
  | loop header body =>
      rw [Statement.isStatic, Bool.and_eq_true, Bool.and_eq_true, decide_eq_true_eq] at hs
      obtain ⟨⟨hheader, hi⟩, hbody⟩ := hs
      rw [Statement.exec, Statement.lineCount, ← Nat.zero_add (header.trips * _)]
      refine (Exec.prints_moveTo header.location).bind ?_
      exact Header.prints_run htime hpasses hheader
        (Program.prints_exec htime hpasses body hbody)
        (Program.stepwise_exec limits body) hi
termination_by structural statement

/-- A static program completes, and displays the lines counted from its text. -/
theorem Program.prints_exec {limits : Limits} (htime : limits.timeout = .never)
    (hpasses : 2 ^ 53 < limits.pace.passes) (program : List Statement)
    (hs : Program.isStatic program = true)
    : (Program.exec limits program).Prints (Program.lineCount program) := by
  cases program with
  | nil =>
      rw [Program.exec, Program.lineCount]
      exact Exec.prints_pure
  | cons statement rest =>
      rw [Program.isStatic, Bool.and_eq_true] at hs
      rw [Program.exec, Program.lineCount]
      exact (Statement.prints_exec htime hpasses statement hs.1).bind
        (Program.prints_exec htime hpasses rest hs.2)
termination_by structural program

end

namespace Session

/-- Without a time limit for loops, a static program completes from any variables, and displays as
many lines as its displays have trips around them. -/
theorem execute_static {program : Program} (hs : Program.isStatic program = true) {s : Session}
    (htime : s.options.loopTimeout = .never) {pace : Pace} (hpasses : 2 ^ 53 < pace.passes)
    : (s.execute pace program).ending = .completed
      ∧ (s.execute pace program).events.countP Event.isPrinted
        = ((Program.displays [] program).map Header.tripsAround).sum := by
  obtain ⟨next, hnext, hlines⟩ :=
    @Program.prints_exec ⟨pace, s.options.loopTimeout⟩ htime hpasses program hs
      (.start s.store s.location)
  have hexec : executeOn s.options pace program (.start s.store s.location)
      = (.completed, next) := by
    rw [executeOn, hnext]
  rw [execute, hexec]
  refine ⟨rfl, ?_⟩
  rw [Program.sum_displays]
  refine hlines.trans ?_
  rw [Header.tripsAround, List.map_nil, List.prod_nil, Nat.one_mul]
  exact Nat.zero_add _

/-- A session that sets no time limit for loops. -/
def unlimited : Session :=
  { fresh with options := ⟨false, .never, .never⟩ }

/-- Three passes around a display, a loop that counts down in large steps to the least small
integer, and a loop that starts past its end. -/
def nestedCounts : Program :=
  [.loop (header .theta 1 3 1 1)
    [.disp (.reference .theta) ⟨2, 1⟩,
      .loop (header .ans (2 ^ 52) (-2 ^ 52) (1 - 2 ^ 52) 3) [.disp (.reference .ans) ⟨4, 1⟩],
      .loop (header .ans 2 1 1 6) [.disp (.reference .ans) ⟨7, 1⟩]]]
where
  header (v : Variable) (start stop step : Int) (line : Nat) : Header :=
    ⟨v, .literal (.ofInt start), .literal (.ofInt stop), .literal (.ofInt step), ⟨line, 1⟩⟩

/-- Each of the three passes displays one line itself, three in the loop that counts down and none
in the last loop. -/
theorem execute_static_nestedCounts
    : Program.isStatic nestedCounts = true
      ∧ unlimited.options.loopTimeout = .never
      ∧ 2 ^ 53 < Pace.steady.passes
      ∧ (unlimited.execute .steady nestedCounts).ending = .completed
      ∧ (unlimited.execute .steady nestedCounts).events.countP Event.isPrinted = 3 + 3 * 3 := by
  have hs : Program.isStatic nestedCounts = true := by decide +kernel
  have hpasses : 2 ^ 53 < Pace.steady.passes := by decide
  have hsum : ((Program.displays [] nestedCounts).map Header.tripsAround).sum = 3 + 3 * 3 := by
    decide +kernel
  have hrun := execute_static hs (show unlimited.options.loopTimeout = .never from rfl) hpasses
  rw [hsum] at hrun
  exact ⟨hs, rfl, hpasses, hrun⟩

end Session

end LoopCalc
