import LoopCalc.Proofs.Execution.Steps

/-! Executions on two clocks. A clock is read to arm the watchdog of a loop and to see whether it
has expired, and nothing else depends on it. Where two clocks give all watchdogs the same verdicts,
the executions on them are the same, whatever the times are.
-/

namespace LoopCalc

-----------------------------------------------------------------------------------------
-- Watchdogs that behave alike
-----------------------------------------------------------------------------------------

/-- A loop watchdog that was armed at one reading of the clock has expired at another. -/
def Clock.Expired (clock : Clock) (timeout : Timeout) (armed reading : Nat) : Prop :=
  ∃ deadline ∈ timeout.deadline? (clock armed), deadline < clock reading

/-- Under both paces a loop may make as many passes, and its watchdog has expired at a later reading
under both or under neither. -/
structure Pace.Alike (timeout : Timeout) (pace other : Pace) : Prop where
  passes_eq : pace.passes = other.passes
  expired_iff : ∀ armed reading, armed < reading
    → (pace.clock.Expired timeout armed reading ↔ other.clock.Expired timeout armed reading)

/-- The pace on the same clock as a run reads it that starts later. -/
def Pace.later (delay : Nat) (pace : Pace) : Pace :=
  { pace with clock := fun reading => pace.clock reading + delay }

/-- A run that starts later on the same clock is alike. Only differences of times decide on a
watchdog. -/
theorem Pace.alike_later (timeout : Timeout) (pace : Pace) (delay : Nat)
    : pace.Alike timeout (pace.later delay) where
  passes_eq := rfl
  expired_iff armed reading _ := by
    cases timeout with
    | never => simp [Clock.Expired, Timeout.deadline?]
    | after milliseconds =>
        simp only [Clock.Expired, Timeout.deadline?, later, Option.mem_some_iff, exists_eq_left']
        omega

-----------------------------------------------------------------------------------------
-- Readings are counted
-----------------------------------------------------------------------------------------

/-- No step takes back a reading, by cases on the step. -/
theorem Machine.Step.readings_le {iterators : List Variable} {m next : Machine}
    (h : Step iterators m next)
    : m.readings ≤ next.readings := by
  cases h with
  | move location => exact Nat.le_refl _
  | display operand => exact Nat.le_refl _
  | write counts finite => exact Nat.le_refl _
  | look => exact Nat.le_succ _

/-- No reading is taken back, as an invariant of the steps. -/
theorem Machine.Steps.readings_le {iterators : List Variable} {m next : Machine}
    (h : Steps iterators m next)
    : m.readings ≤ next.readings :=
  h.keeps (fun step hle => Nat.le_trans hle step.readings_le) (Nat.le_refl _)

/-- Two actions do the same if their first parts do, and their second parts do from every machine
with no fewer readings. -/
theorem Exec.bind_congr_of_readings {α β : Type} {iterators : List Variable} {x y : Exec α}
    {f g : α → Exec β} {m : Machine} (hx : x m = y m) (hy : y.Stepwise iterators)
    (hf : ∀ a next, m.readings ≤ next.readings → f a next = g a next)
    : (x >>= f) m = (y >>= g) m :=
  bind_congr_of_stepwise hx hy fun a next hsteps => hf a next hsteps.readings_le

-----------------------------------------------------------------------------------------
-- Executions
-----------------------------------------------------------------------------------------

variable {timeout : Timeout} {pace other : Pace}

/-- A watchdog that was armed at an earlier reading gives the same verdict on both clocks. -/
theorem Pace.Alike.isPast_eq (h : pace.Alike timeout other) {armed : Nat} {m : Machine}
    (ha : armed < m.readings)
    : Exec.isPast pace.clock (timeout.deadline? (pace.clock armed)) m
      = Exec.isPast other.clock (timeout.deadline? (other.clock armed)) m := by
  cases timeout with
  | never => rfl
  | after milliseconds =>
      have hverdict : pace.clock armed + 1000 * milliseconds < pace.clock m.readings
          ↔ other.clock armed + 1000 * milliseconds < other.clock m.readings := by
        simpa [Clock.Expired, Timeout.deadline?] using h.expired_iff armed m.readings ha
      exact congrArg (EStateM.Result.ok · { m with readings := m.readings + 1 })
        (decide_eq_decide.2 hverdict)

namespace Header

/-- The watchdog gives the same verdict on both clocks, so a pass is due on both or on neither. -/
theorem isDue_eq_of_alike (h : pace.Alike timeout other) (header : Header) {armed : Nat}
    {m : Machine} (ha : armed < m.readings)
    : header.isDue pace.clock (timeout.deadline? (pace.clock armed)) m
      = header.isDue other.clock (timeout.deadline? (other.clock armed)) m := by
  rw [isDue, isDue, Exec.get_bind_apply, Exec.get_bind_apply]
  split
  · rw [Exec.bind_apply, Exec.bind_apply, h.isPast_eq ha]
  · rfl

variable {header : Header} {iterators : List Variable} {body : Exec Unit}

/-- The passes of a loop are the same on both clocks, by induction on the number of passes allowed.
The watchdog was armed before the first of them, and readings only grow. -/
theorem passes_eq_of_alike (h : pace.Alike timeout other) (hi : header.iterator ∈ iterators)
    (hbody : body.Stepwise iterators) {armed : Nat} (left : Nat) {m : Machine}
    (ha : armed < m.readings)
    : header.passes pace.clock (timeout.deadline? (pace.clock armed)) body left m
      = header.passes other.clock (timeout.deadline? (other.clock armed)) body left m := by
  have hdue : (header.isDue other.clock (timeout.deadline? (other.clock armed))).Stepwise
      iterators := header.stepwise_isDue _ _
  induction left generalizing m with
  | zero =>
      exact Exec.bind_congr_of_readings (header.isDue_eq_of_alike h ha) hdue fun _ _ _ => rfl
  | succ left ih =>
      refine Exec.bind_congr_of_readings (header.isDue_eq_of_alike h ha) hdue fun due m₁ h₁ => ?_
      split
      · refine Exec.bind_congr_of_readings rfl hbody fun _ m₂ h₂ => ?_
        refine Exec.bind_congr_of_readings rfl (stepwise_increment hi) fun _ m₃ h₃ => ?_
        exact ih (by omega)
      · rfl

/-- A loop does the same at both paces. It arms its watchdog before its passes read the clock. -/
theorem run_eq_of_alike (h : pace.Alike timeout other) (hi : header.iterator ∈ iterators)
    (hbody : body.Stepwise iterators)
    : header.run ⟨pace, timeout⟩ body = header.run ⟨other, timeout⟩ body := by
  funext m
  rw [run, run, Exec.get_bind_apply, Exec.get_bind_apply]
  refine Exec.bind_congr_of_readings rfl (Exec.stepwise_assign hi _) fun _ next _ => ?_
  rw [Exec.now_bind_apply, Exec.now_bind_apply, h.passes_eq]
  exact passes_eq_of_alike h hi hbody _ (Nat.lt_succ_self _)

end Header

mutual

/-- A statement does the same at both paces, by recursion on it together with programs. -/
theorem Statement.exec_eq_of_alike (h : pace.Alike timeout other) (statement : Statement)
    : statement.exec ⟨pace, timeout⟩ = statement.exec ⟨other, timeout⟩ := by
  cases statement with
  | disp value location => rw [Statement.exec, Statement.exec]
  | loop header body =>
      rw [Statement.exec, Statement.exec, Program.exec_eq_of_alike h body]
      have hbody : (Program.exec ⟨other, timeout⟩ body).Stepwise
          (header.iterator :: Program.iterators body) :=
        (Program.stepwise_exec _ body).mono (List.subset_cons_self _ _)
      rw [Header.run_eq_of_alike h List.mem_cons_self hbody]
termination_by structural statement

/-- An execution is the same under paces that let its watchdogs behave alike. -/
theorem Program.exec_eq_of_alike (h : pace.Alike timeout other) (program : List Statement)
    : Program.exec ⟨pace, timeout⟩ program = Program.exec ⟨other, timeout⟩ program := by
  cases program with
  | nil => rw [Program.exec, Program.exec]
  | cons statement rest =>
      rw [Program.exec, Program.exec, statement.exec_eq_of_alike h,
        Program.exec_eq_of_alike h rest]
termination_by structural program

end

end LoopCalc
