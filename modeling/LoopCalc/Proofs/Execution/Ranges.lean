import Mathlib
import LoopCalc.Proofs.Execution.Clocks
import LoopCalc.Proofs.Execution.Laps
import LoopCalc.Proofs.Number.Integers

/-! Loops that count through fixed integers, around any body that leaves the iterator alone. As long
as the body completes and the watchdog of the loop stays silent, the passes are those of the
integers: each starts at its own integer, none is missed, and the iterator ends one step past the
last.
-/

namespace LoopCalc

-----------------------------------------------------------------------------------------
-- Trip counts
-----------------------------------------------------------------------------------------

/-- The integers that a loop counts through: from the start on by the step, as far as the end. -/
structure Range where
  start : Int
  stop : Int
  step : Int
deriving DecidableEq

namespace Range

/-- The start lies past the end in the direction of the step. -/
def isPast (r : Range) : Bool :=
  if 0 < r.step then r.stop < r.start else r.start < r.stop

/-- How many passes a loop makes. -/
def trips (r : Range) : Nat :=
  if r.isPast then 0 else ((r.stop - r.start).fdiv r.step + 1).toNat

/-- What is left to count through after one pass. -/
def next (r : Range) : Range :=
  { r with start := r.start + r.step }

/-- The integers have at most 52 bits, and the loop does not stand still. -/
def isSmall (r : Range) : Bool :=
  r.start.natAbs ≤ 2 ^ 52 && r.stop.natAbs ≤ 2 ^ 52 && r.step.natAbs ≤ 2 ^ 52 && r.step != 0

/-- What stays true of a small range while its loop counts: the start moves on from where it was,
so it is bounded on one side only. -/
structure Exact (r : Range) : Prop where
  stop_le : r.stop.natAbs ≤ 2 ^ 52
  step_le : r.step.natAbs ≤ 2 ^ 52
  step_ne : r.step ≠ 0
  up : 0 < r.step → -2 ^ 52 ≤ r.start
  down : r.step < 0 → r.start ≤ 2 ^ 52

/-- A small range is exact from the start. -/
theorem exact_of_isSmall {r : Range} (h : r.isSmall = true) : r.Exact := by
  simp only [isSmall, Bool.and_eq_true, decide_eq_true_eq, bne_iff_ne] at h
  obtain ⟨⟨⟨hstart, hstop⟩, hstep⟩, hne⟩ := h
  exact ⟨hstop, hstep, hne, by omega, by omega⟩

/-- A start past the end is one that is a negative number of steps from it, by the sign of the step.
-/
theorem isPast_iff {r : Range} (h : r.step ≠ 0)
    : r.isPast = true ↔ (r.stop - r.start).fdiv r.step < 0 := by
  rw [isPast]
  rcases Int.lt_or_gt_of_ne h with hneg | hpos
  · rw [if_neg hneg.not_gt, decide_eq_true_eq]
    constructor
    · intro hlt
      rw [← Int.neg_fdiv_neg]
      exact Int.fdiv_neg_of_neg_of_pos (by omega) (by omega)
    · intro hq
      by_contra hle
      exact hq.not_ge (Int.fdiv_nonneg_of_nonpos_of_nonpos (by omega) hneg.le)
  · rw [if_pos hpos, decide_eq_true_eq]
    constructor
    · intro hlt
      exact Int.fdiv_neg_of_neg_of_pos (by omega) hpos
    · intro hq
      by_contra hle
      exact hq.not_ge (Int.fdiv_nonneg (by omega) hpos.le)

/-- The condition in the trip count only cuts off negative quotients. -/
theorem trips_eq {r : Range} (h : r.step ≠ 0)
    : r.trips = ((r.stop - r.start).fdiv r.step + 1).toNat := by
  have hpast := isPast_iff h
  rw [trips]
  split
  · next hr =>
    have := hpast.1 hr
    omega
  · rfl

/-- No passes are made exactly if the start lies past the end. -/
theorem trips_eq_zero_iff {r : Range} (h : r.step ≠ 0) : r.trips = 0 ↔ r.isPast = true := by
  rw [trips_eq h, isPast_iff h]
  omega

namespace Exact

variable {r : Range}

/-- A pass keeps a range exact. The start moves in the direction in which it is not bounded. -/
theorem next (h : r.Exact) : r.next.Exact := by
  obtain ⟨hstop, hstep, hne, hup, hdown⟩ := h
  refine ⟨hstop, hstep, hne, ?_, ?_⟩
  · intro hpos
    have := hup hpos
    simp only [Range.next] at hpos ⊢
    omega
  · intro hneg
    have := hdown hneg
    simp only [Range.next] at hneg ⊢
    omega

/-- A pass is one of the trips, as the floored quotient goes down by one. -/
theorem trips_next (h : r.Exact) (hr : r.isPast = false) : r.next.trips + 1 = r.trips := by
  have hq : (r.next.stop - r.next.start).fdiv r.next.step
      = (r.stop - r.start).fdiv r.step - 1 := by
    have := Int.add_mul_fdiv_right (r.stop - r.start) (-1) h.step_ne
    rw [Range.next]
    rw [show r.stop - (r.start + r.step) = r.stop - r.start + -1 * r.step by ring, this]
    rfl
  have hnot := mt (isPast_iff h.step_ne).2 (by simp [hr])
  rw [trips_eq h.step_ne, trips_eq h.next.step_ne, hq]
  omega

/-- While the loop counts, its values have at most 52 bits. -/
theorem natAbs_start_le (h : r.Exact) (hr : r.isPast = false) : r.start.natAbs ≤ 2 ^ 52 := by
  obtain ⟨hstop, -, hne, hup, hdown⟩ := h
  rw [isPast] at hr
  split at hr
  · next hpos =>
    have := hup hpos
    have := of_decide_eq_false hr
    omega
  · have := hdown (by omega)
    have := of_decide_eq_false hr
    omega

/-- An exact range has at most `2 ^ 53 + 1` integers. -/
theorem trips_le (h : r.Exact) : r.trips ≤ 2 ^ 53 + 1 := by
  rw [trips]
  split
  · exact Nat.zero_le _
  · next hr =>
    have hstart := h.natAbs_start_le (Bool.eq_false_of_not_eq_true hr)
    have hstop := h.stop_le
    have hq := Int.natAbs_fdiv_le_natAbs (r.stop - r.start) r.step
    omega

end Exact

/-- What is left to count through after some passes. -/
def after (r : Range) (passes : Nat) : Range :=
  { r with start := r.start + passes * r.step }

/-- Before the first pass the whole range is left. -/
theorem after_zero (r : Range) : r.after 0 = r := by
  simp [after]

/-- The first of some passes takes the first integer off the range. -/
theorem after_succ (r : Range) (passes : Nat) : r.after (passes + 1) = r.next.after passes := by
  simp only [after, next, Nat.cast_add, Nat.cast_one, mk.injEq, and_true]
  ring

end Range

/-- The integer that an operand always is. -/
def Operand.toInt? : Operand → Option Int
  | literal x => x.toInt?
  | reference _ => none

/-- A variable that was written has the value. -/
theorem Machine.get_write (m : Machine) (v : Variable) (x : Number)
    : (m.write v x).store.get v = x :=
  Table.get_set_self m.store v x

-----------------------------------------------------------------------------------------
-- What remains
-----------------------------------------------------------------------------------------

namespace Header

/-- Where the sum is finite, adding the step goes to the header and writes the sum. -/
theorem increment_of_finite {h : Header} {m : Machine}
    (hsum : (m.store.get h.iterator + m.value h.step).isFinite = true)
    : h.increment m
      = .ok ()
          ({ m with location := some h.location }.write h.iterator
            (m.store.get h.iterator + m.value h.step)) := by
  rw [increment_apply]
  exact Exec.assign_of_finite hsum _

/-- The range is what is left for the loop to count through. -/
structure Remains (h : Header) (r : Range) (m : Machine) : Prop where
  current : (m.store.get h.iterator).toInt? = some r.start
  stop : h.stop.toInt? = some r.stop
  step : h.step.toInt? = some r.step

/-- An operand that is always an integer is that integer in every machine. -/
theorem toInt?_value {operand : Operand} {i : Int} (h : operand.toInt? = some i) (m : Machine)
    : (m.value operand).toInt? = some i := by
  cases operand with
  | literal x => exact h
  | reference v => cases h

variable {h : Header} {r : Range} {m : Machine}

/-- The condition holds exactly while something remains, as numbers are compared like the integers.
-/
theorem Remains.holds_eq (hr : h.Remains r m) (hne : r.step ≠ 0)
    : h.holds m = !r.isPast := by
  have hzero : Number.zero.toInt? = some 0 := Number.toInt?_zeroOf .plus
  have hstop := toInt?_value hr.stop m
  have hstep := toInt?_value hr.step m
  rw [holds, Range.isPast, Number.lt_of_toInt? hstep hzero, Number.le_of_toInt? hstop hr.current,
    Number.le_of_toInt? hzero hstep, Number.le_of_toInt? hr.current hstop]
  have hflip (i j : Int) : decide (i ≤ j) = !decide (j < i) := by
    rw [← decide_not, decide_eq_decide, Int.not_lt]
  split
  · next hpos => simp [hpos.le, Int.not_lt.2 hpos.le, hflip r.start]
  · next hpos =>
    have hneg : r.step < 0 := by omega
    simp [hneg, Int.not_le.2 hneg, hflip r.stop]

/-- Adding the step takes the first integer off the range. -/
theorem Remains.exists_increment (hr : h.Remains r m) (he : r.Exact) (hpast : r.isPast = false)
    : ∃ next, h.increment m = .ok () next ∧ h.Remains r.next next := by
  have hbound : (r.start + r.step).natAbs ≤ 2 ^ 53 := by
    have := he.natAbs_start_le hpast
    have := he.step_le
    omega
  have hsum := Number.toInt?_add hr.current (toInt?_value hr.step m) hbound
  refine ⟨_, increment_of_finite (Number.isFinite_of_toInt? hsum), ?_, hr.stop, hr.step⟩
  rw [Machine.get_write]
  exact hsum

/-- What remains depends on the iterator only. -/
theorem Remains.of_get_eq {after : Machine} (hr : h.Remains r m)
    (hget : after.store.get h.iterator = m.store.get h.iterator)
    : h.Remains r after :=
  ⟨hget ▸ hr.current, hr.stop, hr.step⟩

variable {clock : Clock} {deadline? : Option Nat} {body : Exec Unit}

-----------------------------------------------------------------------------------------
-- Laps count
-----------------------------------------------------------------------------------------

/-- Laps that started the body in the given machines have counted through the range so far. -/
structure Counted (h : Header) (r : Range) (starts : List Machine) (last : Machine) : Prop where
  values : ∀ (k : Nat) (start : Machine), starts[k]? = some start
    → (start.store.get h.iterator).toInt? = some (r.start + k * r.step)
  remains : h.Remains (r.after starts.length) last
  exact : (r.after starts.length).Exact
  trips_eq : (r.after starts.length).trips + starts.length = r.trips

/-- After the laps, the condition tells whether something remains. -/
theorem Counted.isPast_eq {starts : List Machine} {last : Machine} (hc : h.Counted r starts last)
    : (r.after starts.length).isPast = !h.holds last := by
  rw [hc.remains.holds_eq hc.exact.step_ne, Bool.not_not]

/-- One more lap in front. -/
theorem Counted.cons {starts : List Machine} {start last : Machine}
    (hc : h.Counted r.next starts last) (he : r.Exact) (hpast : r.isPast = false)
    (hstart : (start.store.get h.iterator).toInt? = some r.start)
    : h.Counted r (start :: starts) last where
  values k begun hk := by
    cases k with
    | zero =>
        obtain rfl : start = begun := by simpa using hk
        simpa using hstart
    | succ k =>
        rw [hc.values k begun (by simpa using hk)]
        simp only [Range.next, Nat.cast_add, Nat.cast_one]
        ring_nf
  remains := by
    rw [List.length_cons, Range.after_succ]
    exact hc.remains
  exact := by
    rw [List.length_cons, Range.after_succ]
    exact hc.exact
  trips_eq := by
    rw [List.length_cons, Range.after_succ, ← Nat.add_assoc, hc.trips_eq, he.trips_next hpast]

/-- A lap takes the first integer off the range, so laps count through it. The loops of the body
count in other variables. -/
theorem Laps.counted {iterators : List Variable} (hbody : body.Stepwise iterators)
    (hi : h.iterator ∉ iterators) {m last : Machine} {starts : List Machine}
    (hlaps : h.Laps clock deadline? body m starts last) (hr : h.Remains r m) (he : r.Exact)
    : h.Counted r starts last := by
  induction hlaps generalizing r with
  | nil m =>
      refine ⟨by simp, ?_, ?_, congrArg Range.trips r.after_zero⟩
      · rw [List.length_nil, Range.after_zero]
        exact hr
      · rw [List.length_nil, Range.after_zero]
        exact he
  | @cons m start after next _ _ due done stepped _ ih =>
      have hpast : r.isPast = false := by
        rw [← Bool.not_not r.isPast, ← hr.holds_eq he.step_ne, holds_of_isDue due, Bool.not_true]
      have hstart : h.Remains r start := hr.of_get_eq (by rw [store_of_isDue due])
      have hkept : after.store.get h.iterator = start.store.get h.iterator :=
        (Exec.leaves_of_eq_ok done ▸ hbody start).get_eq hi
      obtain ⟨moved, hmoved, hnext⟩ := (hstart.of_get_eq hkept).exists_increment he hpast
      obtain rfl : next = moved := by
        rw [stepped] at hmoved
        cases hmoved
        rfl
      exact (ih hnext he.next).cons he hpast hstart.current

-----------------------------------------------------------------------------------------
-- Loops count
-----------------------------------------------------------------------------------------

/-- Once the start is stored, the whole range remains. -/
theorem remains_begun {m : Machine} (hstart : h.start.toInt? = some r.start)
    (hstop : h.stop.toInt? = some r.stop) (hstep : h.step.toInt? = some r.step)
    : h.Remains r (h.begun m) := by
  refine ⟨?_, hstop, hstep⟩
  rw [← toInt?_value hstart m]
  exact congrArg Number.toInt? (m.get_write h.iterator _)

/-- Where the watchdog that the loop armed is silent, the condition alone says whether a pass is
due. The laps before are later readings of the clock. -/
theorem isDue_of_silent {limits : Limits} {iterators : List Variable} {m last : Machine}
    {starts : List Machine} (hbody : body.Stepwise iterators)
    (hsilent : ∀ reading, m.readings < reading
      → ¬limits.pace.clock.Expired limits.timeout m.readings reading)
    (hlaps : h.Laps limits.pace.clock (limits.deadline? m) body (h.begun m) starts last)
    {due : Bool} {next : Machine}
    (hdue : h.isDue limits.pace.clock (limits.deadline? m) last = .ok due next)
    : due = h.holds last := by
  have hlater : m.readings < last.readings :=
    (hlaps.steps List.mem_cons_self (hbody.mono (List.subset_cons_self _ _))).readings_le
  have hany : (limits.deadline? m).any (· < limits.pace.clock last.readings) = false := by
    rw [← Bool.not_eq_true, Option.any_eq_true]
    rintro ⟨deadline, hmem, hlt⟩
    exact hsilent last.readings hlater ⟨deadline, hmem, of_decide_eq_true hlt⟩
  rw [isDue_apply, hany, Bool.not_false, Bool.and_true] at hdue
  injection hdue with heq
  exact heq.symm

/-- At the end of a loop with a silent watchdog nothing remains to count through. -/
theorem Makes.counted {limits : Limits} {iterators : List Variable} {m next : Machine}
    {starts : List Machine} (hmakes : h.Makes limits body m starts next)
    (hbody : body.Stepwise iterators) (hi : h.iterator ∉ iterators)
    (hr : h.Remains r (h.begun m)) (he : r.Exact)
    (hsilent : ∀ reading, m.readings < reading
      → ¬limits.pace.clock.Expired limits.timeout m.readings reading)
    : h.Counted r starts next ∧ starts.length = r.trips := by
  obtain ⟨-, last, hlaps, hdone⟩ := hmakes
  have hc := hlaps.counted hbody hi hr he
  have hpast : (r.after starts.length).isPast = true := by
    rw [hc.isPast_eq, ← isDue_of_silent hbody hsilent hlaps hdone, Bool.not_false]
  refine ⟨{ hc with remains := hc.remains.of_get_eq (by rw [store_of_isDue hdone]) }, ?_⟩
  rw [← hc.trips_eq, (Range.trips_eq_zero_iff hc.exact.step_ne).2 hpast, Nat.zero_add]

/-- When a loop enters its body, it has something left to count through. -/
theorem Reenters.counted {limits : Limits} {iterators : List Variable} {m start : Machine}
    {starts : List Machine} (hreenters : h.Reenters limits body m starts start)
    (hbody : body.Stepwise iterators) (hi : h.iterator ∉ iterators)
    (hr : h.Remains r (h.begun m)) (he : r.Exact)
    : h.Counted r starts start ∧ (r.after starts.length).isPast = false := by
  obtain ⟨-, last, hlaps, hdue⟩ := hreenters
  have hc := hlaps.counted hbody hi hr he
  refine ⟨{ hc with remains := hc.remains.of_get_eq (by rw [store_of_isDue hdue]) }, ?_⟩
  rw [hc.isPast_eq, holds_of_isDue hdue, Bool.not_true]

/-- A loop over fixed integers makes a lap for each of them and completes, if the loops of its body
count in other variables, the watchdog that it arms is silent, and the body completes whenever it is
entered. Every other way to end is ruled out by what remains to count through. -/
theorem exists_makes {limits : Limits} {iterators : List Variable} {m : Machine}
    (hsteps : body.Stepwise iterators) (hi : h.iterator ∉ iterators)
    (hstart : h.start.toInt? = some r.start) (hstop : h.stop.toInt? = some r.stop)
    (hstep : h.step.toInt? = some r.step) (he : r.Exact)
    (hsilent : ∀ reading, m.readings < reading
      → ¬limits.pace.clock.Expired limits.timeout m.readings reading)
    (hpasses : r.trips ≤ limits.pace.passes)
    (hbody : ∀ starts start, h.Reenters limits body m starts start
      → ∃ after, body start = .ok () after)
    : ∃ starts next,
        h.run limits body m = .ok () next
        ∧ h.Makes limits body m starts next
        ∧ h.Counted r starts next
        ∧ starts.length = r.trips := by
  have hr : h.Remains r (h.begun m) := remains_begun hstart hstop hstep
  have hconcludes := h.run_concludes limits body m
  generalize h.run limits body m = outcome at hconcludes
  cases hconcludes with
  | refused hinf =>
      have hfinite := Number.isFinite_of_toInt? (toInt?_value hstart m)
      rw [hinf] at hfinite
      cases hfinite
  | @completed starts next hmakes =>
      exact ⟨starts, next, rfl, hmakes, hmakes.counted hsteps hi hr he hsilent⟩
  | inBody hreenters stopped =>
      obtain ⟨after, hafter⟩ := hbody _ _ hreenters
      rw [stopped] at hafter
      cases hafter
  | @atStep starts start after _ _ hreenters done stopped =>
      obtain ⟨hc, hpast⟩ := hreenters.counted hsteps hi hr he
      have hkept : after.store.get h.iterator = start.store.get h.iterator :=
        (Exec.leaves_of_eq_ok done ▸ hsteps start).get_eq hi
      obtain ⟨moved, hmoved, -⟩ := (hc.remains.of_get_eq hkept).exists_increment hc.exact hpast
      rw [stopped] at hmoved
      cases hmoved
  | givenUp hreenters many =>
      obtain ⟨hc, hpast⟩ := hreenters.counted hsteps hi hr he
      have hleft := hc.exact.trips_next hpast
      have hall := hc.trips_eq
      omega

end Header

end LoopCalc
