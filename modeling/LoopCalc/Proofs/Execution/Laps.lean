import LoopCalc.Proofs.Execution.Steps

/-! Loops lap by lap. A lap of a loop is one pass of its body and the addition of its step. A loop
stores its start and makes laps, and then it completes, or the next lap stops in the body or at the
step. There is no other way for a loop to end.
-/

namespace LoopCalc

/-- The deadline of a loop that has stored its start in the given machine. -/
def Limits.deadline? (limits : Limits) (m : Machine) : Option Nat :=
  limits.timeout.deadline? (limits.pace.clock m.readings)

namespace Header

-----------------------------------------------------------------------------------------
-- Laps
-----------------------------------------------------------------------------------------

/-- Laps one after the other, with the machines in which they start the body. -/
inductive Laps (h : Header) (clock : Clock) (deadline? : Option Nat) (body : Exec Unit)
    : Machine → List Machine → Machine → Prop
  | nil (m : Machine) : Laps h clock deadline? body m [] m
  | cons {m start after next last : Machine} {starts : List Machine}
    (due : h.isDue clock deadline? m = .ok true start) (done : body start = .ok () after)
    (stepped : h.increment after = .ok () next)
    (later : Laps h clock deadline? body next starts last)
    : Laps h clock deadline? body m (start :: starts) last

/-- The machine after the loop has stored its start and read the clock. -/
def begun (h : Header) (m : Machine) : Machine :=
  { m.write h.iterator (m.value h.start) with readings := m.readings + 1 }

/-- The loop makes laps that start the body in the given machines, and it completes. -/
def Makes (h : Header) (limits : Limits) (body : Exec Unit) (m : Machine) (starts : List Machine)
    (next : Machine) : Prop :=
  (m.value h.start).isFinite = true
  ∧ ∃ last,
      h.Laps limits.pace.clock (limits.deadline? m) body (h.begun m) starts last
      ∧ h.isDue limits.pace.clock (limits.deadline? m) last = .ok false next

/-- After some laps the loop starts its body again, in the given machine. -/
def Reenters (h : Header) (limits : Limits) (body : Exec Unit) (m : Machine)
    (starts : List Machine) (start : Machine) : Prop :=
  (m.value h.start).isFinite = true
  ∧ ∃ last,
      h.Laps limits.pace.clock (limits.deadline? m) body (h.begun m) starts last
      ∧ h.isDue limits.pace.clock (limits.deadline? m) last = .ok true start

/-- The ways in which a loop can end. -/
inductive Concludes (h : Header) (limits : Limits) (body : Exec Unit) (m : Machine)
    : EStateM.Result Stop Machine Unit → Prop
  | refused (start : (m.value h.start).isFinite = false)
    : Concludes h limits body m (.error (.aborted ⟨h.iterator, m.value h.start⟩) m)
  | completed {starts : List Machine} {next : Machine} (laps : h.Makes limits body m starts next)
    : Concludes h limits body m (.ok () next)
  | inBody {starts : List Machine} {start next : Machine} {stop : Stop}
    (laps : h.Reenters limits body m starts start) (stopped : body start = .error stop next)
    : Concludes h limits body m (.error stop next)
  | atStep {starts : List Machine} {start after next : Machine} {stop : Stop}
    (laps : h.Reenters limits body m starts start) (done : body start = .ok () after)
    (stopped : h.increment after = .error stop next)
    : Concludes h limits body m (.error stop next)
  /-- The next lap is due, and all laps that the host allows have been made. -/
  | givenUp {starts : List Machine} {start : Machine}
    (laps : h.Reenters limits body m starts start) (many : starts.length = limits.pace.passes)
    : Concludes h limits body m (.error .unfinished start)

-----------------------------------------------------------------------------------------
-- Loops make laps
-----------------------------------------------------------------------------------------

variable {h : Header} {clock : Clock} {deadline? : Option Nat} {body : Exec Unit}

/-- A lap is due if the condition holds and the deadline has not passed. Only the clock may be
touched by this. -/
theorem isDue_apply (h : Header) (clock : Clock) (deadline? : Option Nat) (m : Machine)
    : h.isDue clock deadline? m
      = .ok (h.holds m && !deadline?.any (· < clock m.readings))
          { m with
            readings := m.readings + if h.holds m && deadline?.isSome then 1 else 0 } := by
  rw [isDue, Exec.get_bind_apply]
  cases h.holds m with
  | false => rfl
  | true => cases deadline? <;> rfl

/-- The question whether a pass is due leaves the variables alone. -/
theorem store_of_isDue {due : Bool} {m start : Machine}
    (hdue : h.isDue clock deadline? m = .ok due start)
    : start.store = m.store := by
  rw [isDue_apply] at hdue
  cases hdue
  rfl

/-- A pass is due only where the condition holds. -/
theorem holds_of_isDue {m start : Machine} (hdue : h.isDue clock deadline? m = .ok true start)
    : h.holds m = true := by
  rw [isDue_apply] at hdue
  injection hdue with heq
  exact (Bool.and_eq_true_iff.1 heq).1

/-- Laps go by steps if the body does. -/
theorem Laps.steps {iterators : List Variable} (hi : h.iterator ∈ iterators)
    (hbody : body.Stepwise iterators) {m last : Machine} {starts : List Machine}
    (hlaps : h.Laps clock deadline? body m starts last)
    : Machine.Steps iterators m last := by
  induction hlaps with
  | nil m => exact .refl
  | @cons m start after next _ _ due done stepped _ ih =>
      have hdue : Machine.Steps iterators m start :=
        Exec.leaves_of_eq_ok due ▸ h.stepwise_isDue clock deadline? m
      have hdone : Machine.Steps iterators start after :=
        Exec.leaves_of_eq_ok done ▸ hbody start
      have hstepped : Machine.Steps iterators after next :=
        Exec.leaves_of_eq_ok stepped ▸ stepwise_increment hi after
      exact hdue.trans (hdone.trans (hstepped.trans ih))

/-- What the passes of a loop come to, given the laps that they make. -/
inductive Ends (h : Header) (clock : Clock) (deadline? : Option Nat) (body : Exec Unit)
    (left : Nat) (starts : List Machine) (last : Machine)
    : EStateM.Result Stop Machine Unit → Prop
  | completed {next : Machine} (due : h.isDue clock deadline? last = .ok false next)
    : Ends h clock deadline? body left starts last (.ok () next)
  | inBody {start next : Machine} {stop : Stop}
    (due : h.isDue clock deadline? last = .ok true start) (stopped : body start = .error stop next)
    : Ends h clock deadline? body left starts last (.error stop next)
  | atStep {start after next : Machine} {stop : Stop}
    (due : h.isDue clock deadline? last = .ok true start) (done : body start = .ok () after)
    (stopped : h.increment after = .error stop next)
    : Ends h clock deadline? body left starts last (.error stop next)
  | givenUp {start : Machine} (due : h.isDue clock deadline? last = .ok true start)
    (many : starts.length = left)
    : Ends h clock deadline? body left starts last (.error .unfinished start)

/-- One more lap in front, out of one more that is allowed, makes no difference to how the laps end.
-/
theorem Ends.cons {left : Nat} {start last : Machine} {starts : List Machine}
    {outcome : EStateM.Result Stop Machine Unit}
    (hends : h.Ends clock deadline? body left starts last outcome)
    : h.Ends clock deadline? body (left + 1) (start :: starts) last outcome := by
  cases hends with
  | completed due => exact .completed due
  | inBody due stopped => exact .inBody due stopped
  | atStep due done stopped => exact .atStep due done stopped
  | givenUp due many => exact .givenUp due (congrArg (· + 1) many)

/-- By induction on the number of passes allowed. -/
theorem passes_ends (h : Header) (clock : Clock) (deadline? : Option Nat) (body : Exec Unit)
    (left : Nat) (m : Machine)
    : ∃ starts last,
        h.Laps clock deadline? body m starts last
        ∧ h.Ends clock deadline? body left starts last
          (h.passes clock deadline? body left m) := by
  have hdue := h.isDue_apply clock deadline? m
  generalize (h.holds m && !deadline?.any (· < clock m.readings)) = due at hdue
  generalize { m with readings := m.readings + _ } = start at hdue
  induction left generalizing m start due with
  | zero =>
      refine ⟨[], m, .nil m, ?_⟩
      rw [passes, Exec.bind_apply, hdue]
      cases due with
      | false => exact .completed hdue
      | true => exact .givenUp hdue rfl
  | succ left ih =>
      rw [passes, Exec.bind_apply, hdue]
      cases due with
      | false => exact ⟨[], m, .nil m, .completed hdue⟩
      | true =>
          dsimp only
          rw [if_pos rfl, Exec.bind_apply]
          cases hbody : body start with
          | error stop next => exact ⟨[], m, .nil m, .inBody hdue hbody⟩
          | ok _ after =>
              dsimp only
              rw [Exec.bind_apply]
              cases hstep : h.increment after with
              | error stop next => exact ⟨[], m, .nil m, .atStep hdue hbody hstep⟩
              | ok _ next =>
                  obtain ⟨starts, last, hlaps, hends⟩ := ih next _ _ (h.isDue_apply ..)
                  exact ⟨start :: starts, last, .cons hdue hbody hstep hlaps, hends.cons⟩

/-- A loop whose start is finite goes on to its passes. -/
theorem run_of_finite {limits : Limits} {m : Machine} (hstart : (m.value h.start).isFinite = true)
    : h.run limits body m
      = h.passes limits.pace.clock (limits.deadline? m) body limits.pace.passes (h.begun m) := by
  rw [run, Exec.get_bind_apply, Exec.bind_apply, Exec.assign_of_finite hstart]
  rfl

/-- Every loop ends in one of these ways. -/
theorem run_concludes (h : Header) (limits : Limits) (body : Exec Unit) (m : Machine)
    : h.Concludes limits body m (h.run limits body m) := by
  cases hstart : (m.value h.start).isFinite with
  | false =>
      rw [run, Exec.get_bind_apply, Exec.bind_apply, Exec.assign_of_not_finite hstart]
      exact .refused hstart
  | true =>
      obtain ⟨starts, last, hlaps, hends⟩ :=
        h.passes_ends limits.pace.clock (limits.deadline? m) body limits.pace.passes (h.begun m)
      rw [run_of_finite hstart]
      generalize h.passes _ _ body _ (h.begun m) = outcome at hends
      cases hends with
      | completed due => exact .completed ⟨hstart, last, hlaps, due⟩
      | inBody due stopped => exact .inBody ⟨hstart, last, hlaps, due⟩ stopped
      | atStep due done stopped => exact .atStep ⟨hstart, last, hlaps, due⟩ done stopped
      | givenUp due many => exact .givenUp ⟨hstart, last, hlaps, due⟩ many

end Header

end LoopCalc
