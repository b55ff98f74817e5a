import Mathlib.Logic.Relation
import LoopCalc.Execution

/-! Every execution is a sequence of steps, whether it completes, aborts or is given up, and however
its clock runs. A step moves on in the program, displays an operand, writes a finite number to an
iterator of the program, or reads the clock. What each step keeps, every execution keeps.
-/

namespace LoopCalc

-----------------------------------------------------------------------------------------
-- The iterators of a program
-----------------------------------------------------------------------------------------

mutual

/-- The variables that the loops of a statement count in, at any depth. -/
def Statement.iterators : Statement → List Variable
  | .disp .. => []
  | .loop header body => header.iterator :: Program.iterators body

/-- The variables that the loops of a program count in, at any depth. -/
def Program.iterators : List Statement → List Variable
  | [] => []
  | statement :: rest => statement.iterators ++ Program.iterators rest

end

-----------------------------------------------------------------------------------------
-- Steps of a machine
-----------------------------------------------------------------------------------------

namespace Machine

/-- One step of an execution whose loops count in the given variables. -/
inductive Step (iterators : List Variable) : Machine → Machine → Prop
  | move (m : Machine) (location : Location)
    : Step iterators m { m with location := some location }
  | display (m : Machine) (operand : Operand)
    : Step iterators m (m.tell (.printed (m.value operand).text))
  | write (m : Machine) {v : Variable} {x : Number} (counts : v ∈ iterators)
    (finite : x.isFinite = true)
    : Step iterators m (m.write v x)
  | look (m : Machine)
    : Step iterators m { m with readings := m.readings + 1 }

/-- Any number of steps. -/
abbrev Steps (iterators : List Variable) : Machine → Machine → Prop :=
  Relation.ReflTransGen (Step iterators)

/-- A step within some iterators is one within more of them. -/
theorem Step.mono {few many : List Variable} {m next : Machine} (h : Step few m next)
    (hsub : few ⊆ many)
    : Step many m next := by
  cases h with
  | move location => exact .move m location
  | display operand => exact .display m operand
  | write counts finite => exact .write m (hsub counts) finite
  | look => exact .look m

/-- Steps within some iterators are steps within more of them. -/
theorem Steps.mono {few many : List Variable} {m next : Machine} (h : Steps few m next)
    (hsub : few ⊆ many)
    : Steps many m next :=
  h.lift id fun _ _ hs => hs.mono hsub

/-- What every step keeps holds along all steps, by induction on their number. -/
theorem Steps.keeps {iterators : List Variable} {P : Machine → Prop} {m next : Machine}
    (h : Steps iterators m next) (step : ∀ {a b}, Step iterators a b → P a → P b) (start : P m)
    : P next := by
  induction h with
  | refl => exact start
  | tail _ last ih => exact step last ih

/-- A step leaves every other variable alone, by cases on the step. -/
theorem Step.get_eq {iterators : List Variable} {m next : Machine} (h : Step iterators m next)
    {v : Variable} (hv : v ∉ iterators)
    : next.store.get v = m.store.get v := by
  cases h with
  | move location => rfl
  | display operand => rfl
  | write counts finite =>
      refine Table.get_set_of_ne ?_
      rintro rfl
      exact hv counts
  | look => rfl

/-- A variable that no loop counts in keeps its value. -/
theorem Steps.get_eq {iterators : List Variable} {m next : Machine} (h : Steps iterators m next)
    {v : Variable} (hv : v ∉ iterators)
    : next.store.get v = m.store.get v :=
  h.keeps (fun hs he => (hs.get_eq hv).trans he) rfl

end Machine

-----------------------------------------------------------------------------------------
-- Actions that go step by step
-----------------------------------------------------------------------------------------

namespace Exec

open Machine (Step Steps)

/-- The machine that an action leaves, however it ends. -/
def leaves {α : Type} (x : Exec α) (m : Machine) : Machine :=
  match x m with
  | .ok _ next => next
  | .error _ next => next

/-- What an action leaves is the machine that it completes in. -/
theorem leaves_of_eq_ok {α : Type} {x : Exec α} {m next : Machine} {a : α}
    (h : x m = .ok a next)
    : x.leaves m = next := by
  rw [leaves, h]

/-- The action goes by steps from every machine. -/
def Stepwise {α : Type} (iterators : List Variable) (x : Exec α) : Prop :=
  ∀ m, Steps iterators m (x.leaves m)

variable {iterators : List Variable}

/-- An action that goes by steps within some iterators does so within more of them. -/
theorem Stepwise.mono {α : Type} {few many : List Variable} {x : Exec α} (h : Stepwise few x)
    (hsub : few ⊆ many)
    : Stepwise many x :=
  fun m => (h m).mono hsub

/-- Doing nothing takes no step. -/
theorem stepwise_pure {α : Type} (a : α) : Stepwise iterators (pure a : Exec α) :=
  fun _ => .refl

/-- Stopping takes no step. -/
theorem stepwise_throw {α : Type} (stop : Stop) : Stepwise iterators (throw stop : Exec α) :=
  fun _ => .refl

/-- A sequence goes on from where its first part completes, and stops where that stops. -/
theorem bind_apply {α β : Type} (x : Exec α) (f : α → Exec β) (m : Machine)
    : (x >>= f) m =
        match x m with
        | .ok a next => f a next
        | .error stop next => .error stop next := by
  simp only [Bind.bind, EStateM.bind]
  cases x m <;> rfl

/-- Looking at the machine changes nothing about it. -/
theorem get_bind_apply {α : Type} (f : Machine → Exec α) (m : Machine)
    : (get >>= f : Exec α) m = f m m :=
  rfl

/-- Reading the clock gives the time of the reading, and counts it. -/
theorem now_bind_apply {α : Type} (clock : Clock) (f : Nat → Exec α) (m : Machine)
    : (now clock >>= f) m = f (clock m.readings) { m with readings := m.readings + 1 } :=
  rfl

/-- Actions in sequence go by steps as each of them does, also where the first one stops. -/
theorem Stepwise.bind {α β : Type} {x : Exec α} {f : α → Exec β} (hx : Stepwise iterators x)
    (hf : ∀ a, Stepwise iterators (f a))
    : Stepwise iterators (x >>= f) := by
  intro m
  have first := hx m
  rw [leaves] at first ⊢
  rw [bind_apply]
  cases hm : x m with
  | ok a next =>
      rw [hm] at first
      exact first.trans (hf a next)
  | error stop next =>
      rw [hm] at first
      exact first

/-- Two actions do the same from a machine if their first parts do, and their second parts do from
every machine that can be reached from it. -/
theorem bind_congr_of_stepwise {α β : Type} {x y : Exec α} {f g : α → Exec β} {m : Machine}
    (hx : x m = y m) (hy : Stepwise iterators y)
    (hf : ∀ a next, Steps iterators m next → f a next = g a next)
    : (x >>= f) m = (y >>= g) m := by
  have hsteps := hy m
  rw [leaves] at hsteps
  rw [bind_apply, bind_apply, hx]
  cases hm : y m with
  | error stop next => rfl
  | ok a next =>
      rw [hm] at hsteps
      exact hf a next hsteps

/-- An action that looks at the machine first goes by steps if it does so whatever it sees. -/
theorem stepwise_get_bind {α : Type} {f : Machine → Exec α}
    (hf : ∀ m, Stepwise iterators (f m))
    : Stepwise iterators (get >>= f) :=
  fun m => hf m m

/-- Moving is a step. -/
theorem stepwise_moveTo (location : Location) : Stepwise iterators (moveTo location) :=
  fun m => .single (.move m location)

/-- Displaying is a step. -/
theorem stepwise_display (operand : Operand) : Stepwise iterators (display operand) :=
  fun m => .single (.display m operand)

/-- Reading the clock is a step. -/
theorem stepwise_now (clock : Clock) : Stepwise iterators (now clock) :=
  fun m => .single (.look m)

/-- A finite value is written. -/
theorem assign_of_finite {v : Variable} {x : Number} (hx : x.isFinite = true) (m : Machine)
    : assign v x m = .ok () (m.write v x) := by
  rw [assign, if_pos hx]
  rfl

/-- A value that is not finite is refused, and nothing is changed. -/
theorem assign_of_not_finite {v : Variable} {x : Number} (hx : x.isFinite = false) (m : Machine)
    : assign v x m = .error (.aborted ⟨v, x⟩) m := by
  rw [assign, if_neg (by simp [hx])]
  rfl

/-- A write is one step, and a refused one is none. -/
theorem stepwise_assign {v : Variable} (hv : v ∈ iterators) (x : Number)
    : Stepwise iterators (assign v x) := by
  intro m
  rw [leaves]
  cases hx : x.isFinite with
  | true =>
      rw [assign_of_finite hx]
      exact .single (.write m hv hx)
  | false =>
      rw [assign_of_not_finite hx]

/-- The question whether the deadline has passed goes by steps: one reading, or none without a
deadline. -/
theorem stepwise_isPast (clock : Clock) (deadline? : Option Nat)
    : Stepwise iterators (isPast clock deadline?) := by
  cases deadline? with
  | none => exact stepwise_pure false
  | some deadline => exact (stepwise_now clock).bind fun _ => stepwise_pure _

end Exec

-----------------------------------------------------------------------------------------
-- Loops and programs go step by step
-----------------------------------------------------------------------------------------

namespace Header

open Exec (Stepwise)

variable {iterators : List Variable}

/-- The sum is the one of the machine before it moves to the header. -/
theorem increment_apply (h : Header) (m : Machine)
    : h.increment m
      = Exec.assign h.iterator (m.store.get h.iterator + m.value h.step)
          { m with location := some h.location } :=
  rfl

/-- Adding the step goes by steps, if the loop counts in one of the iterators. -/
theorem stepwise_increment {h : Header} (hi : h.iterator ∈ iterators)
    : Stepwise iterators h.increment :=
  (Exec.stepwise_moveTo h.location).bind fun _ =>
    Exec.stepwise_get_bind fun _ => Exec.stepwise_assign hi _

/-- The question whether a pass is due goes by steps, since it only reads the clock. -/
theorem stepwise_isDue (h : Header) (clock : Clock) (deadline? : Option Nat)
    : Stepwise iterators (h.isDue clock deadline?) := by
  refine Exec.stepwise_get_bind fun m => ?_
  split
  · exact (Exec.stepwise_isPast clock deadline?).bind fun _ => Exec.stepwise_pure _
  · exact Exec.stepwise_pure false

/-- Passes go by steps if the body does, by induction on the number of passes allowed. -/
theorem stepwise_passes {h : Header} (hi : h.iterator ∈ iterators) (clock : Clock)
    (deadline? : Option Nat) {body : Exec Unit} (hbody : Stepwise iterators body) (left : Nat)
    : Stepwise iterators (h.passes clock deadline? body left) := by
  induction left with
  | zero =>
      refine (h.stepwise_isDue clock deadline?).bind fun due => ?_
      split
      · exact Exec.stepwise_throw _
      · exact Exec.stepwise_pure _
  | succ left ih =>
      refine (h.stepwise_isDue clock deadline?).bind fun due => ?_
      split
      · exact hbody.bind fun _ => (stepwise_increment hi).bind fun _ => ih
      · exact Exec.stepwise_pure _

/-- A loop goes by steps if its body does and it counts in one of the iterators. -/
theorem stepwise_run {h : Header} (hi : h.iterator ∈ iterators) (limits : Limits)
    {body : Exec Unit} (hbody : Stepwise iterators body)
    : Stepwise iterators (h.run limits body) := by
  refine Exec.stepwise_get_bind fun m => ?_
  refine (Exec.stepwise_assign hi _).bind fun _ => ?_
  refine (Exec.stepwise_now _).bind fun started => ?_
  exact stepwise_passes hi _ _ hbody _

end Header

/-- A loop starts from its header. -/
theorem Statement.exec_loop (limits : Limits) (h : Header) (body : List Statement) (m : Machine)
    : (loop h body).exec limits m
      = h.run limits (Program.exec limits body) { m with location := some h.location } := by
  rw [Statement.exec]
  rfl

namespace Program

/-- Programs one behind the other are executed in sequence, by induction on the first. -/
theorem exec_append (limits : Limits) (front rest : List Statement)
    : exec limits (front ++ rest) = (exec limits front >>= fun _ => exec limits rest) := by
  induction front with
  | nil => rfl
  | cons statement front ih => rw [List.cons_append, exec, exec, ih, bind_assoc]

/-- A program of one statement is executed as the statement. -/
theorem exec_singleton (limits : Limits) (statement : Statement)
    : exec limits [statement] = statement.exec limits := by
  rw [exec, exec]
  exact bind_pure _

end Program

mutual

/-- A statement goes by steps within its iterators, by recursion on it together with programs. -/
theorem Statement.stepwise_exec (limits : Limits) (statement : Statement)
    : (statement.exec limits).Stepwise statement.iterators := by
  cases statement with
  | disp value location =>
      rw [Statement.exec]
      exact (Exec.stepwise_moveTo location).bind fun _ => Exec.stepwise_display value
  | loop header body =>
      rw [Statement.exec, Statement.iterators]
      refine (Exec.stepwise_moveTo header.location).bind fun _ => ?_
      refine Header.stepwise_run List.mem_cons_self limits ?_
      exact (Program.stepwise_exec limits body).mono (List.subset_cons_self _ _)
termination_by structural statement

/-- An execution goes by steps that write to nothing but the iterators of its program. -/
theorem Program.stepwise_exec (limits : Limits) (program : List Statement)
    : (Program.exec limits program).Stepwise (Program.iterators program) := by
  cases program with
  | nil =>
      rw [Program.exec]
      exact Exec.stepwise_pure ()
  | cons statement rest =>
      rw [Program.exec, Program.iterators]
      refine Exec.Stepwise.bind ?_ fun _ => ?_
      · exact (statement.stepwise_exec limits).mono (List.subset_append_left _ _)
      · exact (Program.stepwise_exec limits rest).mono (List.subset_append_right _ _)
termination_by structural program

end

end LoopCalc
