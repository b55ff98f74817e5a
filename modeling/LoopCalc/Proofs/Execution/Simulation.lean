import LoopCalc.Proofs.Execution.Laps

/-! Executions side by side. One action simulates another if, from machines that correspond, both
complete or both stop, and the machines that they leave correspond again. Two loops that agree on
their condition and their step simulate each other as soon as their bodies do, however many passes
they make.
-/

namespace LoopCalc

namespace Exec

-----------------------------------------------------------------------------------------
-- Simulation of actions
-----------------------------------------------------------------------------------------

/-- Both outcomes are completions with the same answer or both are stops for reasons that
correspond, and they leave machines that correspond. -/
inductive Corresponds {α : Type} (R : Machine → Machine → Prop) (S : Stop → Stop → Prop)
    : EStateM.Result Stop Machine α → EStateM.Result Stop Machine α → Prop
  | ok (a : α) {m other : Machine} (machines : R m other)
    : Corresponds R S (.ok a m) (.ok a other)
  | error {stop reason : Stop} {m other : Machine} (stops : S stop reason) (machines : R m other)
    : Corresponds R S (.error stop m) (.error reason other)

/-- From all machines that correspond, the two actions have outcomes that correspond. -/
def Simulates {α : Type} (R : Machine → Machine → Prop) (S : Stop → Stop → Prop) (x y : Exec α)
    : Prop :=
  ∀ m other, R m other → Corresponds R S (x m) (y other)

variable {R : Machine → Machine → Prop} {S : Stop → Stop → Prop}

/-- Doing nothing is simulated by doing nothing. -/
theorem simulates_pure {α : Type} (a : α) : Simulates R S (pure a : Exec α) (pure a) :=
  fun _ _ h => .ok a h

/-- Stopping is simulated by stopping for a related reason. -/
theorem simulates_throw {α : Type} {stop reason : Stop} (hs : S stop reason)
    : Simulates R S (throw stop : Exec α) (throw reason) :=
  fun _ _ h => .error hs h

/-- Where the first parts correspond and the second parts simulate, the sequences correspond. -/
theorem Corresponds.bind {α β : Type} {x y : Exec α} {f g : α → Exec β} {m other : Machine}
    (hx : Corresponds R S (x m) (y other)) (hf : ∀ a, Simulates R S (f a) (g a))
    : Corresponds R S ((x >>= f) m) ((y >>= g) other) := by
  rw [bind_apply, bind_apply]
  generalize x m = one at hx
  generalize y other = two at hx
  cases hx with
  | ok a machines => exact hf a _ _ machines
  | error stops machines => exact .error stops machines

/-- Actions in sequence simulate as each of them does. -/
theorem Simulates.bind {α β : Type} {x y : Exec α} {f g : α → Exec β} (hx : Simulates R S x y)
    (hf : ∀ a, Simulates R S (f a) (g a))
    : Simulates R S (x >>= f) (y >>= g) :=
  fun m other h => (hx m other h).bind hf

end Exec

-----------------------------------------------------------------------------------------
-- Simulation of loops
-----------------------------------------------------------------------------------------

namespace Header

open Exec (Simulates)

variable {R : Machine → Machine → Prop} {S : Stop → Stop → Prop} {h k : Header}

/-- A pass is due in both loops or in neither if their conditions agree and the clock has been read
as often. -/
theorem simulates_isDue (hholds : ∀ {m other}, R m other → k.holds other = h.holds m)
    (hreadings : ∀ {m other}, R m other → other.readings = m.readings)
    (hlook : ∀ {m other}, R m other
      → R { m with readings := m.readings + 1 } { other with readings := other.readings + 1 })
    (clock : Clock) (deadline? : Option Nat)
    : Simulates R S (h.isDue clock deadline?) (k.isDue clock deadline?) := by
  intro m other hr
  have hpast : deadline?.any (· < clock other.readings) = deadline?.any (· < clock m.readings) := by
    rw [hreadings hr]
  rw [isDue_apply, isDue_apply, hholds hr, hpast]
  refine .ok _ ?_
  split
  · exact hlook hr
  · exact hr

/-- By induction on the number of passes allowed. -/
theorem simulates_passes (hgiven : S .unfinished .unfinished) {clock : Clock}
    {deadline? : Option Nat}
    (hdue : Simulates R S (h.isDue clock deadline?) (k.isDue clock deadline?))
    (hstep : Simulates R S h.increment k.increment) {body other : Exec Unit}
    (hbody : Simulates R S body other) (left : Nat)
    : Simulates R S (h.passes clock deadline? body left) (k.passes clock deadline? other left) := by
  induction left with
  | zero =>
      refine hdue.bind fun due => ?_
      split
      · exact Exec.simulates_throw hgiven
      · exact Exec.simulates_pure ()
  | succ left ih =>
      refine hdue.bind fun due => ?_
      split
      · exact hbody.bind fun _ => hstep.bind fun _ => ih
      · exact Exec.simulates_pure ()

end Header

-----------------------------------------------------------------------------------------
-- Machines that loops cannot tell apart
-----------------------------------------------------------------------------------------

/-- Machines that correspond hold the same numbers and have read the clock as often, and they still
correspond after the same move, the same write and a reading of the clock. -/
structure Machine.Compatible (R : Machine → Machine → Prop) : Prop where
  store_eq : ∀ {m other}, R m other → other.store = m.store
  readings_eq : ∀ {m other}, R m other → other.readings = m.readings
  move : ∀ {m other}, R m other
    → ∀ location : Location, R { m with location := location } { other with location := location }
  write : ∀ {m other}, R m other → ∀ v x, R (m.write v x) (other.write v x)
  look : ∀ {m other}, R m other
    → R { m with readings := m.readings + 1 } { other with readings := other.readings + 1 }

namespace Machine.Compatible

open Exec (Simulates)

variable {R : Machine → Machine → Prop} (hR : Compatible R)

include hR

/-- Related machines give every operand the same value. -/
theorem value_eq {m other : Machine} (h : R m other) (operand : Operand)
    : other.value operand = m.value operand := by
  cases operand with
  | literal x => rfl
  | reference v => rw [value, value, hR.store_eq h]

/-- Moving simulates itself. -/
theorem simulates_moveTo (location : Location)
    : Simulates R Eq (Exec.moveTo location) (Exec.moveTo location) :=
  fun _ _ h => .ok () (hR.move h location)

/-- Assigning simulates itself. Both sides are refused or none. -/
theorem simulates_assign (v : Variable) (x : Number)
    : Simulates R Eq (Exec.assign v x) (Exec.assign v x) := by
  intro m other h
  cases hx : x.isFinite with
  | true =>
      rw [Exec.assign_of_finite hx, Exec.assign_of_finite hx]
      exact .ok () (hR.write h v x)
  | false =>
      rw [Exec.assign_of_not_finite hx, Exec.assign_of_not_finite hx]
      exact .error rfl h

/-- Adding the step simulates itself, since both sides add the same numbers. -/
theorem simulates_increment (h : Header) : Simulates R Eq h.increment h.increment := by
  intro m other hr
  have hsum : other.store.get h.iterator + other.value h.step
      = m.store.get h.iterator + m.value h.step := by
    rw [hR.store_eq hr, hR.value_eq hr]
  rw [Header.increment_apply, Header.increment_apply, hsum]
  exact hR.simulates_assign _ _ _ _ (hR.move hr h.location)

/-- Related machines agree on the condition of a loop. -/
theorem holds_eq (h : Header) {m other : Machine} (hr : R m other)
    : h.holds other = h.holds m := by
  rw [Header.holds, Header.holds, hR.value_eq hr, hR.value_eq hr, hR.store_eq hr]

/-- A loop simulates itself around bodies that do. -/
theorem simulates_run (h : Header) (limits : Limits) {body other : Exec Unit}
    (hbody : Simulates R Eq body other)
    : Simulates R Eq (h.run limits body) (h.run limits other) := by
  intro m other hr
  rw [Header.run, Header.run, Exec.get_bind_apply, Exec.get_bind_apply, hR.value_eq hr]
  refine (hR.simulates_assign _ _ m other hr).bind fun _ => ?_
  intro m other hr
  have hstarted : limits.pace.clock other.readings = limits.pace.clock m.readings := by
    rw [hR.readings_eq hr]
  rw [Exec.now_bind_apply, Exec.now_bind_apply, hstarted]
  refine Header.simulates_passes rfl ?_ (hR.simulates_increment h) hbody _ _ _ (hR.look hr)
  exact Header.simulates_isDue (hR.holds_eq h) hR.readings_eq hR.look _ _

/-- A loop simulates a loop with the same header if its body simulates the body. -/
theorem simulates_loop (h : Header) (limits : Limits) {body other : List Statement}
    (hbody : Simulates R Eq (Program.exec limits body) (Program.exec limits other))
    : Simulates R Eq ((Statement.loop h body).exec limits)
        ((Statement.loop h other).exec limits) := by
  rw [Statement.exec, Statement.exec]
  exact (hR.simulates_moveTo h.location).bind fun _ => hR.simulates_run h limits hbody

end Machine.Compatible

end LoopCalc
