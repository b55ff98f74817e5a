import LoopCalc.Source.Watch

/-! What a watched step spends. A step makes a certain number of reads before it ends. If the
watchdog lets that many pass, the step ends as it would without one, and otherwise it is stopped at
the read that comes too late. Steps in sequence spend what each of them spends, and so do the rounds
of a loop.
-/

namespace LoopCalc.Watch

variable {α β : Type}

-----------------------------------------------------------------------------------------
-- Steps
-----------------------------------------------------------------------------------------

/-- What a step comes to, with so many reads left. -/
def under (left : Nat) : EStateM.Result Fault Cursor α → EStateM.Result Fault Watched α
  | .ok a c => .ok a ⟨c, left⟩
  | .error fault c => .error fault ⟨c, left⟩

/-- The watchdog has stopped the step where the cursor stood. -/
def IsLate (result : EStateM.Result Fault Watched α) : Prop :=
  ∃ stop : Cursor, result = .error ⟨.timeout, stop.location⟩ ⟨stop, 0⟩

/-- The step makes so many reads and comes to the given result, or it is stopped before. -/
structure Spends (x : Watch α) (c : Cursor) (reads : Nat) (result : EStateM.Result Fault Cursor α)
    : Prop where
  in_time : ∀ left, x ⟨c, reads + left⟩ = under left result
  late : ∀ n < reads, IsLate (x ⟨c, n⟩)

/-- The step comes to the given result if it is not stopped before. -/
def Ends (x : Watch α) (c : Cursor) (result : EStateM.Result Fault Cursor α) : Prop :=
  ∃ reads, Spends x c reads result

/-- The step comes to the given result, and not without a read. -/
def Looks (x : Watch α) (c : Cursor) (result : EStateM.Result Fault Cursor α) : Prop :=
  ∃ reads, 0 < reads ∧ Spends x c reads result

/-- Two steps in sequence, on a state. -/
theorem bind_apply (x : Watch α) (f : α → Watch β) (w : Watched)
    : (x >>= f) w =
        match x w with
        | .ok a w => f a w
        | .error fault w => .error fault w := by
  simp only [Bind.bind, EStateM.bind]
  cases x w <;> rfl

variable {x : Watch α} {f : α → Watch β} {c middle stop : Cursor} {a : α} {fault : Fault}
  {result : EStateM.Result Fault Cursor β} {reads later : Nat}

/-- A step that is stopped stops what comes after it. -/
theorem IsLate.bind {w : Watched} (h : IsLate (x w)) (f : α → Watch β) : IsLate ((x >>= f) w) := by
  obtain ⟨stop, hstop⟩ := h
  refine ⟨stop, ?_⟩
  rw [bind_apply, hstop]

/-- Steps in sequence spend what both of them spend. -/
theorem Spends.bind (hx : Spends x c reads (.ok a middle)) (hf : Spends (f a) middle later result)
    : Spends (x >>= f) c (reads + later) result where
  in_time := by
    intro left
    rw [Nat.add_assoc, bind_apply, hx.in_time]
    exact hf.in_time left
  late := by
    intro n hn
    rcases Nat.lt_or_ge n reads with hlt | hge
    · exact (hx.late n hlt).bind f
    · obtain ⟨rest, rfl⟩ := Nat.exists_eq_add_of_le hge
      rw [bind_apply, hx.in_time]
      exact hf.late rest (by omega)

/-- Nothing comes after a step that fails. -/
theorem Spends.bind_error (hx : Spends x c reads (.error fault stop)) (f : α → Watch β)
    : Spends (x >>= f) c reads (.error fault stop) where
  in_time := by
    intro left
    rw [bind_apply, hx.in_time]
    rfl
  late := fun n hn => (hx.late n hn).bind f

/-- A step that does the same whatever the watchdog does spends nothing. -/
theorem ends_of_free {x : Watch α} {result : EStateM.Result Fault Cursor α}
    (h : ∀ left, x ⟨c, left⟩ = under left result)
    : Ends x c result := by
  refine ⟨0, fun left => ?_, fun n hn => absurd hn (Nat.not_lt_zero n)⟩
  rw [Nat.zero_add]
  exact h left

/-- Doing nothing takes no read. -/
theorem ends_pure (a : α) (c : Cursor) : Ends (pure a) c (.ok a c) :=
  ends_of_free fun _ => rfl

/-- Failing takes no read. -/
theorem ends_fail (cause : Fault.Cause) (c : Cursor)
    : Ends (fail cause : Watch α) c (.error ⟨cause, c.location⟩ c) :=
  ends_of_free fun _ => rfl

/-- Moving the cursor takes no read. -/
theorem ends_move (f : Cursor → Cursor) (c : Cursor) : Ends (move f) c (.ok () (f c)) :=
  ends_of_free fun _ => rfl

/-- Asking where the cursor stands takes no read. -/
theorem ends_standing (c : Cursor) : Ends standing c (.ok c c) :=
  ends_of_free fun _ => rfl

/-- A look is one read. -/
theorem looks_look (c : Cursor) : Looks look c (.ok c c) := by
  refine ⟨1, Nat.one_pos, fun left => ?_, fun n hn => ?_⟩
  · rw [Nat.add_comm]
    rfl
  · obtain rfl := Nat.lt_one_iff.1 hn
    exact ⟨c, rfl⟩

/-- A step that looks comes to its result as any other. -/
theorem Looks.ends {x : Watch α} {result : EStateM.Result Fault Cursor α} (h : Looks x c result)
    : Ends x c result := by
  obtain ⟨reads, -, hspends⟩ := h
  exact ⟨reads, hspends⟩

/-- Steps in sequence come to the result of the second, as what they spend adds up. -/
theorem Ends.bind (hx : Ends x c (.ok a middle)) (hf : Ends (f a) middle result)
    : Ends (x >>= f) c result := by
  obtain ⟨reads, hx⟩ := hx
  obtain ⟨later, hf⟩ := hf
  exact ⟨reads + later, hx.bind hf⟩

/-- The result of a step may be read in another way. -/
theorem Ends.bind_pure (hx : Ends x c (.ok a middle)) (g : α → β)
    : Ends (x >>= fun a => pure (g a)) c (.ok (g a) middle) :=
  hx.bind (ends_pure (g a) middle)

/-- A sequence looks if its first step does. -/
theorem Looks.bind (hx : Looks x c (.ok a middle)) (hf : Ends (f a) middle result)
    : Looks (x >>= f) c result := by
  obtain ⟨reads, hpos, hx⟩ := hx
  obtain ⟨later, hf⟩ := hf
  exact ⟨reads + later, Nat.add_pos_left hpos later, hx.bind hf⟩

/-- A sequence looks if its second step does. -/
theorem Ends.bind_looks (hx : Ends x c (.ok a middle)) (hf : Looks (f a) middle result)
    : Looks (x >>= f) c result := by
  obtain ⟨reads, hx⟩ := hx
  obtain ⟨later, hpos, hf⟩ := hf
  exact ⟨reads + later, Nat.add_pos_right reads hpos, hx.bind hf⟩

/-- A sequence fails where its first step does. -/
theorem Ends.bind_error (hx : Ends x c (.error fault stop)) (f : α → Watch β)
    : Ends (x >>= f) c (.error fault stop) := by
  obtain ⟨reads, hx⟩ := hx
  exact ⟨reads, hx.bind_error f⟩

-----------------------------------------------------------------------------------------
-- Loops
-----------------------------------------------------------------------------------------

/-- The rounds of a loop make so many reads together and come to the given result, as long as they
are not fewer than the reads that are left. -/
structure SpendsRounds (round : β → Watch (β ⊕ α)) (b : β) (c : Cursor) (reads : Nat)
    (result : EStateM.Result Fault Cursor α)
    : Prop where
  in_time : ∀ count left, reads + left < count
    → rounds round count b ⟨c, reads + left⟩ = under left result
  late : ∀ count n, n < reads → n < count → IsLate (rounds round count b ⟨c, n⟩)

/-- The rounds of a loop come to the given result, and not without a read. -/
def Loops (round : β → Watch (β ⊕ α)) (b : β) (c : Cursor)
    (result : EStateM.Result Fault Cursor α)
    : Prop :=
  ∃ reads, 0 < reads ∧ SpendsRounds round b c reads result

variable {round : β → Watch (β ⊕ α)} {b next : β} {result : EStateM.Result Fault Cursor α}

/-- A round with a result is the last one. -/
theorem Loops.done (h : Looks (round b) c (.ok (.inr a) stop)) : Loops round b c (.ok a stop) := by
  obtain ⟨reads, hpos, hround⟩ := h
  refine ⟨reads, hpos, fun count left hcount => ?_, fun count n hn hcount => ?_⟩
  · obtain ⟨count, rfl⟩ := Nat.exists_eq_add_one.2 (Nat.zero_lt_of_lt hcount)
    rw [rounds, bind_apply, hround.in_time]
    rfl
  · obtain ⟨count, rfl⟩ := Nat.exists_eq_add_one.2 (Nat.zero_lt_of_lt hcount)
    exact (hround.late n hn).bind _

/-- A round without a result is followed by the others. It takes a read, so enough rounds are left
for the reads that are left. -/
theorem Loops.more (h : Looks (round b) c (.ok (.inl next) middle))
    (hloop : Loops round next middle result)
    : Loops round b c result := by
  obtain ⟨reads, hpos, hround⟩ := h
  obtain ⟨later, -, hloop⟩ := hloop
  refine ⟨reads + later, Nat.add_pos_left hpos later, fun count left hcount => ?_,
    fun count n hn hcount => ?_⟩
  · obtain ⟨count, rfl⟩ := Nat.exists_eq_add_one.2 (Nat.zero_lt_of_lt hcount)
    rw [Nat.add_assoc, rounds, bind_apply, hround.in_time]
    exact hloop.in_time count left (by omega)
  · obtain ⟨count, rfl⟩ := Nat.exists_eq_add_one.2 (Nat.zero_lt_of_lt hcount)
    rcases Nat.lt_or_ge n reads with hlt | hge
    · exact (hround.late n hlt).bind _
    · obtain ⟨rest, rfl⟩ := Nat.exists_eq_add_of_le hge
      rw [rounds, bind_apply, hround.in_time]
      exact hloop.late count rest (by omega) (by omega)

/-- A loop has rounds enough for every number of reads. -/
theorem Loops.looks (h : Loops round b c result) : Looks (repeated round b) c result := by
  obtain ⟨reads, hpos, hrounds⟩ := h
  refine ⟨reads, hpos, fun left => ?_, fun n hn => ?_⟩
  · exact hrounds.in_time _ left (Nat.lt_succ_self _)
  · exact hrounds.late _ n hn (Nat.lt_succ_self n)

end LoopCalc.Watch
