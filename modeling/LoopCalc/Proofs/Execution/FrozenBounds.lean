import LoopCalc.Proofs.Execution.Endings
import LoopCalc.Proofs.Execution.Laps

/-! Loops whose end and step nothing moves. A loop reads its end and its step anew for every check,
so its body can move them. If they refer to no variable that the loop or a loop inside it counts in,
then they stay what they were when the loop started, and literals in their places do the same. The
start is read only once, so it may refer to any variable.
-/

namespace LoopCalc

/-- The operand refers to none of the variables. -/
def Operand.Avoids (names : List Variable) : Operand → Prop
  | literal _ => True
  | reference v => v ∉ names

/-- What the operand is with the given variables, as a literal. -/
def Operand.frozen (s : Store) : Operand → Operand
  | literal x => literal x
  | reference v => literal (s.get v)

/-- A frozen operand has the value that the operand had in the store it was frozen in. -/
theorem Machine.value_frozen (m other : Machine) (operand : Operand)
    : m.value (operand.frozen other.store) = other.value operand := by
  cases operand <;> rfl

/-- An operand that avoids the iterators of some steps has the same value after them. -/
theorem Machine.Steps.value_eq {iterators : List Variable} {m next : Machine}
    (h : Steps iterators m next) {operand : Operand} (hoperand : operand.Avoids iterators)
    : next.value operand = m.value operand := by
  cases operand with
  | literal x => rfl
  | reference v => exact h.get_eq hoperand

namespace Header

open Exec (Stepwise)

/-- The header with its bounds and its step fixed at what they are with the given variables. -/
def frozen (h : Header) (s : Store) : Header :=
  { h with start := h.start.frozen s, stop := h.stop.frozen s, step := h.step.frozen s }

/-- The end and the step are what they were in the machine in which the loop was entered. -/
structure Unmoved (h : Header) (entry m : Machine) : Prop where
  stop_eq : m.value h.stop = entry.value h.stop
  step_eq : m.value h.step = entry.value h.step

variable {h : Header} {entry m : Machine}

/-- The condition of the loop is that of the frozen loop as long as its bounds have not moved. -/
theorem Unmoved.holds_eq (hu : h.Unmoved entry m)
    : h.holds m = (h.frozen entry.store).holds m := by
  rw [holds, holds, hu.stop_eq, hu.step_eq, frozen, Machine.value_frozen, Machine.value_frozen]

/-- The loop and the frozen loop agree on whether a pass is due. -/
theorem Unmoved.isDue_eq (hu : h.Unmoved entry m) (clock : Clock) (deadline? : Option Nat)
    : h.isDue clock deadline? m = (h.frozen entry.store).isDue clock deadline? m := by
  rw [isDue_apply, isDue_apply, hu.holds_eq]

/-- The loop and the frozen loop add the same step. -/
theorem Unmoved.increment_eq (hu : h.Unmoved entry m)
    : h.increment m = (h.frozen entry.store).increment m := by
  rw [increment_apply, increment_apply, hu.step_eq, frozen, Machine.value_frozen]

variable {iterators : List Variable} {body : Exec Unit}

section Passes

variable (hstop : h.stop.Avoids iterators) (hstep : h.step.Avoids iterators)

include hstop hstep

/-- Steps that avoid the bounds do not move them. -/
theorem Unmoved.steps {next : Machine} (hu : h.Unmoved entry m)
    (hsteps : Machine.Steps iterators m next)
    : h.Unmoved entry next :=
  ⟨(hsteps.value_eq hstop).trans hu.stop_eq, (hsteps.value_eq hstep).trans hu.step_eq⟩

/-- Both loops go pass by pass through the same machines, by induction on the number of passes
allowed. -/
theorem passes_frozen (hi : h.iterator ∈ iterators) (hbody : body.Stepwise iterators)
    (clock : Clock) (deadline? : Option Nat) (left : Nat) (hu : h.Unmoved entry m)
    : h.passes clock deadline? body left m
      = (h.frozen entry.store).passes clock deadline? body left m := by
  have hdue : ((h.frozen entry.store).isDue clock deadline?).Stepwise iterators :=
    stepwise_isDue _ _ _
  have hsum : (h.frozen entry.store).increment.Stepwise iterators := stepwise_increment hi
  induction left generalizing m with
  | zero => exact Exec.bind_congr_of_stepwise (hu.isDue_eq clock deadline?) hdue fun _ _ _ => rfl
  | succ left ih =>
      refine Exec.bind_congr_of_stepwise (hu.isDue_eq clock deadline?) hdue fun due m₁ h₁ => ?_
      have hu := hu.steps hstop hstep h₁
      split
      · refine Exec.bind_congr_of_stepwise rfl hbody fun _ m₂ h₂ => ?_
        have hu := hu.steps hstop hstep h₂
        refine Exec.bind_congr_of_stepwise hu.increment_eq hsum fun _ m₃ h₃ => ?_
        exact ih (hu.steps hstop hstep h₃)
      · rfl

/-- A loop does what the loop does whose bounds are frozen at its entry, as its passes do not move
them. -/
theorem run_frozen (hi : h.iterator ∈ iterators) (hbody : body.Stepwise iterators)
    (limits : Limits) (m : Machine)
    : h.run limits body m = (h.frozen m.store).run limits body m := by
  rw [run, run, Exec.get_bind_apply, Exec.get_bind_apply]
  dsimp only [frozen]
  rw [Machine.value_frozen]
  refine Exec.bind_congr_of_stepwise rfl (Exec.stepwise_assign hi _) fun _ next hsteps => ?_
  have hu : h.Unmoved m m := ⟨rfl, rfl⟩
  exact passes_frozen hstop hstep hi hbody _ _ _ (hu.steps hstop hstep (hsteps.tail (.look next)))

end Passes

end Header

namespace Session

variable {h : Header} {body : List Statement}

/-- A program of one loop executes as with the bounds frozen in the store of the session. -/
theorem execute_frozen (hstop : h.stop.Avoids (Statement.loop h body).iterators)
    (hstep : h.step.Avoids (Statement.loop h body).iterators) (s : Session) (pace : Pace)
    : s.execute pace [.loop h body] = s.execute pace [.loop (h.frozen s.store) body] := by
  rw [Statement.iterators] at hstop hstep
  let limits : Limits := ⟨pace, s.options.loopTimeout⟩
  have hbody : (Program.exec limits body).Stepwise (h.iterator :: Program.iterators body) :=
    (Program.stepwise_exec limits body).mono (List.subset_cons_self _ _)
  have hexec : Program.exec limits [.loop h body] (.start s.store s.location)
      = Program.exec limits [.loop (h.frozen s.store) body] (.start s.store s.location) := by
    rw [Program.exec_singleton, Program.exec_singleton, Statement.exec_loop, Statement.exec_loop]
    exact Header.run_frozen hstop hstep List.mem_cons_self hbody limits _
  rw [execute, execute, executeOn, executeOn, hexec]

/-- A loop whose end and step refer to no variable that it or a loop inside it counts in does the
same with literals in their places and in that of its start, of what they are when it is entered:
both are endless, or both end with the same report. -/
theorem untouched_bounds_can_be_frozen
    (hstop : h.stop.Avoids (Statement.loop h body).iterators)
    (hstep : h.step.Avoids (Statement.loop h body).iterators) (s : Session) (clock : Clock)
    : s.Endless clock [.loop h body] ∧ s.Endless clock [.loop (h.frozen s.store) body]
      ∨ ∃ report,
          s.Ends clock [.loop h body] report
          ∧ s.Ends clock [.loop (h.frozen s.store) body] report := by
  have hsame := fun passes => execute_frozen hstop hstep s (.prompt clock passes)
  by_cases hendless : s.Endless clock [.loop h body]
  · exact Or.inl ⟨hendless, fun passes => hsame passes ▸ hendless passes⟩
  · obtain ⟨report, hending, enough, hreport⟩ := exists_ends_iff.2 hendless
    refine Or.inr ⟨report, ⟨hending, enough, hreport⟩, hending, enough, ?_⟩
    intro passes hle
    rw [← hsame passes]
    exact hreport passes hle

/-- Count on from where the variable stands, up to `Ans` and in steps of `Ans`. -/
def countingOn (line : Nat) : Header :=
  ⟨.theta, .reference .theta, .reference .ans, .reference .ans, ⟨line, 1⟩⟩

/-- A loop inside moves on the variable that the loop around it counts in. -/
def countingOnBody : List Statement :=
  [.loop (countingOn 2) [.disp (.reference .theta) ⟨3, 1⟩]]

/-- A session without time limits in which `Ans` is one. -/
def ansIsOne : Session :=
  ⟨Store.blank.set .ans (.ofInt 1), none, ⟨false, .never, .never⟩⟩

/-- With `Ans` at one, the loop ends as the loop does that counts up to one in steps of one. -/
theorem untouched_bounds_can_be_frozen_countingOn
    : (countingOn 1).stop.Avoids (Statement.loop (countingOn 1) countingOnBody).iterators
      ∧ (countingOn 1).step.Avoids (Statement.loop (countingOn 1) countingOnBody).iterators
      ∧ ∃ report,
          ansIsOne.Ends .steady [.loop (countingOn 1) countingOnBody] report
          ∧ ansIsOne.Ends .steady [.loop ((countingOn 1).frozen ansIsOne.store) countingOnBody]
            report := by
  have hans : Variable.ans ∉ (Statement.loop (countingOn 1) countingOnBody).iterators := by decide
  have hstop
      : (countingOn 1).stop.Avoids (Statement.loop (countingOn 1) countingOnBody).iterators := hans
  have hstep
      : (countingOn 1).step.Avoids (Statement.loop (countingOn 1) countingOnBody).iterators := hans
  have hending : (ansIsOne.execute (.prompt .steady 3) [.loop (countingOn 1) countingOnBody]).ending
      = .completed := by
    decide +kernel
  refine ⟨hstop, hstep, ?_⟩
  refine (untouched_bounds_can_be_frozen hstop hstep ansIsOne .steady).resolve_left ?_
  rintro ⟨hendless, -⟩
  have hgiven := hendless 3
  rw [hending] at hgiven
  cases hgiven

end Session

end LoopCalc
