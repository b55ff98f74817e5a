import LoopCalc.Proofs.Parsing.Blocks
import LoopCalc.Proofs.Watch.Pieces

/-! Readings under a watchdog. A reading makes a number of reads until it has found the end of the
source, and some more until all blocks are closed. If the watchdog lets all of them pass, the
reading comes to what it comes to without a watchdog. If not, it is stopped. Stopped before the end
is found it has given no notice, and stopped behind it, it has given the one that it gives without a
watchdog.
-/

namespace LoopCalc.Parser

-----------------------------------------------------------------------------------------
-- The end of the source
-----------------------------------------------------------------------------------------

/-- Where a block was closed at the end of the source, there is nothing more to remark on. -/
theorem noticeOpen_closeBlock (p : Parser) : p.closeBlock.noticeOpen = p.closeBlock := by
  by_cases h : p.depth = 0 ∨ p.warned
  · have hclose : p.closeBlock = { p with depth := p.depth - 1 } := by
      rw [closeBlock, noticeOpen, if_pos h]
    rw [hclose, noticeOpen, if_pos (h.imp (fun hd => by dsimp only; omega) id)]
  · have hclose : p.closeBlock
        = { p with
            warned := true, notices := p.notices ++ [⟨p.depth, p.cursor.location⟩],
            depth := p.depth - 1 } := by
      rw [closeBlock, noticeOpen, if_neg h]
    rw [hclose, noticeOpen, if_pos (Or.inr rfl)]

/-- All blocks are closed at once, or one after the other. -/
theorem finish_cons (frame : OpenLoop) (outer : List OpenLoop) (block : List Statement) (p : Parser)
    : finish (frame :: outer) block p = finish outer (frame.close block) p.closeBlock := by
  rw [finish, finish, noticeOpen_closeBlock, closeAll, closeBlock, List.length_cons, Nat.sub_sub,
    Nat.add_comm 1]

/-- With a read left for every open loop, the end of the reading is what it is without a watchdog.
By induction on the open loops. -/
theorem finishWatched_of_le (stack : List OpenLoop) (block : List Statement) (p : Parser) {n : Nat}
    (h : stack.length ≤ n)
    : finishWatched stack block p n
      = ((finish stack block p).1,
          { (finish stack block p).2 with watchdog := .after (n - stack.length) }) := by
  induction stack generalizing block p n with
  | nil => rfl
  | cons frame outer ih =>
      obtain ⟨n, rfl⟩ := Nat.exists_eq_add_one.2 (Nat.lt_of_lt_of_le (Nat.succ_pos _) h)
      rw [finishWatched, ih _ _ (Nat.le_of_succ_le_succ h), finish_cons, List.length_cons,
        Nat.add_sub_add_right]

/-- With fewer reads a block finds the watchdog at the end of the source, and the notice has been
given. -/
theorem finishWatched_of_lt {stack : List OpenLoop} (block : List Statement) (p : Parser) {n : Nat}
    (h : n < stack.length)
    : (finishWatched stack block p n).1 = .error ⟨.timeout, p.cursor.location⟩
      ∧ (finishWatched stack block p n).2.notices = (finish stack block p).2.notices := by
  induction stack generalizing block p n with
  | nil => exact absurd h (Nat.not_lt_zero n)
  | cons frame outer ih =>
      cases n with
      | zero =>
          refine ⟨rfl, ?_⟩
          rw [finishWatched, finish]
          rfl
      | succ n =>
          have hcursor : p.closeBlock.cursor = p.cursor := by
            rw [closeBlock, noticeOpen]
            split <;> rfl
          have hlater := ih (frame.close block) p.closeBlock (Nat.lt_of_succ_lt_succ h)
          rw [finishWatched, finish_cons]
          rwa [hcursor] at hlater

-----------------------------------------------------------------------------------------
-- Readings
-----------------------------------------------------------------------------------------

/-- The reading has been stopped by its watchdog, where its cursor stood, and has given the
notices. -/
def IsStopped (result : Except Fault Program × Parser) (notices : List Notice) : Prop :=
  (∃ stop : Cursor, result.1 = .error ⟨.timeout, stop.location⟩) ∧ result.2.notices = notices

/-- A reading finds the last of its pieces with so many reads and is over with so many, whichever
watchdog the parser has had before. -/
structure Meets (stack : List OpenLoop) (block : List Statement) (p : Parser) (found whole : Nat)
    (result : Except Fault Program × Parser)
    : Prop where
  found_le : found ≤ whole
  in_time : ∀ dog count n, whole ≤ n → n < count
    → readWatched count stack block { p with watchdog := dog } n
      = (result.1, { result.2 with watchdog := .after (n - whole) })
  early : ∀ dog count n, n < found → n < count
    → IsStopped (readWatched count stack block { p with watchdog := dog } n) p.notices
  behind : ∀ dog count n, found ≤ n → n < whole → n < count
    → (∃ program, result.1 = .ok program)
      ∧ IsStopped (readWatched count stack block { p with watchdog := dog } n) result.2.notices

variable {stack outer : List OpenLoop} {block inner : List Statement} {p q : Parser}
  {reads found whole : Nat} {result : Except Fault Program × Parser} {piece : Piece}
  {cursor : Cursor}

/-- A reading that is stopped on the way to a piece has given no notice. -/
theorem isStopped_of_isLate {count n : Nat} {dog : Watchdog}
    (h : Watch.IsLate (Watch.next ⟨p.cursor, n⟩)) (hcount : n < count)
    : IsStopped (readWatched count stack block { p with watchdog := dog } n) p.notices := by
  obtain ⟨stop, hstop⟩ := h
  obtain ⟨count, rfl⟩ := Nat.exists_eq_add_one.2 (Nat.zero_lt_of_lt hcount)
  rw [readWatched, hstop]
  exact ⟨⟨stop, rfl⟩, rfl⟩

/-- Nothing is read behind the piece at which a reading is over. -/
theorem meets_of_over {taken : EStateM.Result Fault Cursor Piece}
    (h : Watch.Spends Watch.next p.cursor reads taken)
    (hover : ∀ dog count left,
      readWatched (count + 1) stack block { p with watchdog := dog } (reads + left)
        = (result.1, { result.2 with watchdog := .after left }))
    : Meets stack block p reads reads result where
  found_le := Nat.le_refl reads
  in_time := by
    intro dog count n hn hcount
    obtain ⟨left, rfl⟩ := Nat.exists_eq_add_of_le hn
    obtain ⟨count, rfl⟩ := Nat.exists_eq_add_one.2 (Nat.zero_lt_of_lt hcount)
    rw [hover, Nat.add_sub_cancel_left]
  early := fun dog count n hn hcount => isStopped_of_isLate (h.late n hn) hcount
  behind := fun dog count n hle hlt _ => absurd hlt (Nat.not_lt.2 hle)

/-- A piece behind which the reading goes on, with fewer reads left. -/
theorem Meets.of_next {taken : EStateM.Result Fault Cursor Piece}
    (h : Meets outer inner q found whole result) (hpos : 0 < reads)
    (hspends : Watch.Spends Watch.next p.cursor reads taken) (hnotices : q.notices = p.notices)
    (hgo : ∀ dog count left,
      readWatched (count + 1) stack block { p with watchdog := dog } (reads + left)
        = readWatched count outer inner { q with watchdog := dog } left)
    : Meets stack block p (reads + found) (reads + whole) result where
  found_le := Nat.add_le_add_left h.found_le reads
  in_time := by
    intro dog count n hn hcount
    obtain ⟨left, rfl⟩ := Nat.exists_eq_add_of_le (Nat.le_of_add_right_le hn)
    obtain ⟨count, rfl⟩ := Nat.exists_eq_add_one.2 (Nat.zero_lt_of_lt hcount)
    rw [hgo, h.in_time dog count left (by omega) (by omega), Nat.add_sub_add_left]
  early := by
    intro dog count n hn hcount
    rcases Nat.lt_or_ge n reads with hlt | hge
    · exact isStopped_of_isLate (hspends.late n hlt) hcount
    · obtain ⟨left, rfl⟩ := Nat.exists_eq_add_of_le hge
      obtain ⟨count, rfl⟩ := Nat.exists_eq_add_one.2 (Nat.zero_lt_of_lt hcount)
      rw [hgo, ← hnotices]
      exact h.early dog count left (by omega) (by omega)
  behind := by
    intro dog count n hle hlt hcount
    obtain ⟨left, rfl⟩ := Nat.exists_eq_add_of_le (Nat.le_of_add_right_le hle)
    obtain ⟨count, rfl⟩ := Nat.exists_eq_add_one.2 (Nat.zero_lt_of_lt hcount)
    rw [hgo]
    exact h.behind dog count left (by omega) (by omega) (by omega)

/-- At the end of the source there is a read for each open loop. -/
theorem meets_of_finished (h : Watch.Spends Watch.next p.cursor reads (.ok .finished cursor))
    : Meets stack block p reads (reads + stack.length) (finish stack block { p with cursor }) := by
  have hgo (dog : Watchdog) (count left : Nat)
      : readWatched (count + 1) stack block { p with watchdog := dog } (reads + left)
        = finishWatched stack block { p with cursor, watchdog := dog } left := by
    rw [readWatched, h.in_time]
    rfl
  have hfinish (dog : Watchdog)
      : finish stack block { p with cursor, watchdog := dog }
        = ((finish stack block { p with cursor }).1,
            { (finish stack block { p with cursor }).2 with watchdog := dog }) := by
    rw [finish, finish, noticeOpen, noticeOpen]
    split <;> rfl
  constructor
  · exact Nat.le_add_right _ _
  · intro dog count n hn hcount
    obtain ⟨left, rfl⟩ := Nat.exists_eq_add_of_le (Nat.le_of_add_right_le hn)
    obtain ⟨count, rfl⟩ := Nat.exists_eq_add_one.2 (Nat.zero_lt_of_lt hcount)
    rw [hgo, finishWatched_of_le _ _ _ (by omega), hfinish, Nat.add_sub_add_left]
  · exact fun dog count n hn hcount => isStopped_of_isLate (h.late n hn) hcount
  · intro dog count n hle hlt hcount
    obtain ⟨left, rfl⟩ := Nat.exists_eq_add_of_le hle
    obtain ⟨count, rfl⟩ := Nat.exists_eq_add_one.2 (Nat.zero_lt_of_lt hcount)
    obtain ⟨hstopped, hnotices⟩ := finishWatched_of_lt block { p with cursor, watchdog := dog }
      (Nat.lt_of_add_lt_add_left hlt)
    refine ⟨⟨_, rfl⟩, ?_⟩
    rw [hgo]
    rw [hfinish] at hnotices
    exact ⟨⟨_, hstopped⟩, hnotices⟩

/-- Every reading meets its deadlines, by induction on the reading. Where it gives a notice, loops
are open, so it has not read all by the time it finds the end. -/
theorem exists_meets (stack : List OpenLoop) (block : List Statement) (p : Parser)
    : ∃ found whole,
        Meets stack block p found whole (readBlock stack block p)
        ∧ (p.depth = stack.length → (readBlock stack block p).2.notices ≠ p.notices
          → found < whole) := by
  fun_induction readBlock stack block p with
  -- over at a fault, or at the end of the source
  | case1 stack block p fault cursor hnext =>
      obtain ⟨reads, -, hspends⟩ := Watch.looks_next p.cursor
      rw [hnext] at hspends
      refine ⟨reads, reads, meets_of_over hspends fun dog count left => ?_, ?_⟩
      · rw [readWatched, hspends.in_time]
        rfl
      · exact fun _ hnotices => absurd rfl hnotices
  | case2 stack block p cursor hnext =>
      obtain ⟨reads, -, hspends⟩ := Watch.looks_next p.cursor
      rw [hnext] at hspends
      refine ⟨_, _, meets_of_finished hspends, fun hdepth hnotices => ?_⟩
      have hopen : p.depth ≠ 0 := by
        intro hzero
        rw [finish, noticeOpen, if_pos (Or.inl hzero)] at hnotices
        exact hnotices rfl
      omega
  -- a display and a header are followed by other pieces
  | case3 stack block p value location cursor hnext ih =>
      obtain ⟨reads, hpos, hspends⟩ := Watch.looks_next p.cursor
      obtain ⟨found, whole, hmeets, hlt⟩ := ih
      rw [hnext] at hspends
      refine ⟨_, _, hmeets.of_next hpos hspends rfl fun dog count left => ?_, ?_⟩
      · rw [readWatched, hspends.in_time]
        rfl
      · exact fun hdepth hnotices => Nat.add_lt_add_left (hlt hdepth hnotices) reads
  | case4 stack block p header cursor hnext ih =>
      obtain ⟨reads, hpos, hspends⟩ := Watch.looks_next p.cursor
      obtain ⟨found, whole, hmeets, hlt⟩ := ih
      rw [hnext] at hspends
      refine ⟨_, _, hmeets.of_next hpos hspends rfl fun dog count left => ?_, ?_⟩
      · rw [readWatched, hspends.in_time]
        rfl
      · intro hdepth hnotices
        exact Nat.add_lt_add_left (hlt (congrArg (· + 1) hdepth) hnotices) reads
  -- an `End` closes nothing, a block that was open before, or a loop of this reading
  | case5 stack block p location cursor hnext hdepth =>
      obtain ⟨reads, -, hspends⟩ := Watch.looks_next p.cursor
      rw [hnext] at hspends
      refine ⟨reads, reads, meets_of_over hspends fun dog count left => ?_, ?_⟩
      · rw [readWatched, hspends.in_time]
        exact if_pos hdepth
      · exact fun _ hnotices => absurd rfl hnotices
  | case6 block p location cursor hnext hdepth =>
      obtain ⟨reads, -, hspends⟩ := Watch.looks_next p.cursor
      rw [hnext] at hspends
      refine ⟨reads, reads, meets_of_over hspends fun dog count left => ?_, ?_⟩
      · rw [readWatched, hspends.in_time]
        exact if_neg hdepth
      · exact fun _ hnotices => absurd rfl hnotices
  | case7 block p location cursor hnext hdepth frame outer ih =>
      obtain ⟨reads, hpos, hspends⟩ := Watch.looks_next p.cursor
      obtain ⟨found, whole, hmeets, hlt⟩ := ih
      rw [hnext] at hspends
      refine ⟨_, _, hmeets.of_next hpos hspends rfl fun dog count left => ?_, ?_⟩
      · rw [readWatched, hspends.in_time]
        exact if_neg hdepth
      · intro hd hnotices
        exact Nat.add_lt_add_left (hlt (Nat.sub_eq_of_eq_add hd) hnotices) reads

-----------------------------------------------------------------------------------------
-- Sources
-----------------------------------------------------------------------------------------

/-- What reading a source comes to without a watchdog. -/
def undisturbed (source : String) : Except Fault Program × Parser :=
  (ofSource source .silent).parse

/-- Reading the source takes so many reads to find its end, or the fault in it, and so many in all.
-/
structure Takes (source : String) (found whole : Nat) : Prop where
  found_le : found ≤ whole
  found_lt : (undisturbed source).2.notices ≠ [] → found < whole
  in_time : ∀ dog : Watchdog, dog.Allows whole
    → ((ofSource source dog).parse).1 = (undisturbed source).1
      ∧ ((ofSource source dog).parse).2.notices = (undisturbed source).2.notices
  early : ∀ dog : Watchdog, ¬dog.Allows found → IsStopped ((ofSource source dog).parse) []
  behind : ∀ dog : Watchdog, dog.Allows found → ¬dog.Allows whole
    → (∃ program, (undisturbed source).1 = .ok program)
      ∧ IsStopped ((ofSource source dog).parse) (undisturbed source).2.notices

/-- Every source takes its number of reads, whatever watchdog it is read under. -/
theorem exists_takes (source : String) : ∃ found whole, Takes source found whole := by
  obtain ⟨found, whole, hmeets, hlt⟩ := exists_meets [] [] (ofSource source .silent)
  refine ⟨found, whole, hmeets.found_le, hlt rfl, ?_, ?_, ?_⟩
  · intro dog hdog
    cases dog with
    | silent => exact ⟨rfl, rfl⟩
    | after n =>
        have hparse := hmeets.in_time (.after n) (n + 1) n hdog (Nat.lt_succ_self n)
        have heq : (ofSource source (.after n)).parse = _ := hparse
        rw [heq]
        exact ⟨rfl, rfl⟩
  · intro dog hdog
    cases dog with
    | silent => exact absurd trivial hdog
    | after n => exact hmeets.early (.after n) (n + 1) n (Nat.not_le.1 hdog) (Nat.lt_succ_self n)
  · intro dog hfound hwhole
    cases dog with
    | silent => exact absurd trivial hwhole
    | after n =>
        exact hmeets.behind (.after n) (n + 1) n hfound (Nat.not_le.1 hwhole) (Nat.lt_succ_self n)

end LoopCalc.Parser
