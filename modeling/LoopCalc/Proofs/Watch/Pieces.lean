import LoopCalc.Proofs.Parsing.Pieces
import LoopCalc.Proofs.Parsing.Values
import LoopCalc.Proofs.Watch.Skipping
import LoopCalc.Source.Probe

/-! Pieces, look by look. Whatever is taken from a source text under a watchdog is what would be
taken without one, as long as the watchdog lets the reads pass. The walk to the next statement is
followed round by round, the rest step by step.
-/

namespace LoopCalc

namespace Cursor

variable {c : Cursor}

/-- Past the end of the source a round finds nothing to pass. -/
theorem skipRound_of_atEnd (h : (c.passLines List.isEmpty).atEnd = true)
    : c.skipRound = c.passLines List.isEmpty := by
  generalize hd : c.passLines List.isEmpty = d at h ⊢
  have ha : d.ahead = [] := List.isEmpty_iff.1 h
  have hblanks : d.skipBlanks = d := skipBlanks_of_flush (by rw [rest, ha]; exact Text.flush_nil)
  have hstart : d.startsWith [':'] = false := by
    rw [startsWith, rest, ha]
    rfl
  rw [skipRound, hd, hblanks, hstart, if_neg Bool.false_ne_true, skipComments, passLines_nil ha,
    hblanks]

/-- Past the end of the source the cursor stands where the walk ends. -/
theorem toStatement_of_nil (ha : c.ahead = []) : c.toStatement = c := by
  have hpass : c.passLines List.isEmpty = c := passLines_nil ha
  have hround : c.skipRound = c.passLines List.isEmpty :=
    skipRound_of_atEnd (by rw [hpass]; exact atEnd_of_ahead_eq_nil ha)
  have hlast : c.passesSeparator = false := by
    rw [← Bool.not_eq_true]
    intro hpasses
    have hless := remaining_skipRound_lt hpasses
    rw [hround, hpass] at hless
    exact absurd hless (Nat.lt_irrefl _)
  rw [toStatement, hlast, if_neg Bool.false_ne_true, hround, hpass]

end Cursor

-----------------------------------------------------------------------------------------
-- Taking a text
-----------------------------------------------------------------------------------------

namespace Watch

/-- A text is taken character by character, by induction on it. -/
theorem ends_take (text : List Char) (c : Cursor)
    : Ends (take text) c (.ok (Cursor.take text c).1 (Cursor.take text c).2) := by
  induction text generalizing c with
  | nil => exact ends_pure true c
  | cons want more ih =>
      rw [Cursor.take]
      refine ((looks_look c).bind ?_).ends
      split
      · exact (ends_move _ c).bind (ih c.advance)
      · exact ends_pure false c

/-- Expecting a text under a watchdog comes to what it comes to without one. -/
theorem ends_expect (text : List Char) (c : Cursor)
    : Ends (expect text) c (Scan.expect text c) := by
  rw [Scan.expect_apply]
  have htake := ends_take text c
  generalize Cursor.take text c = taken at htake ⊢
  obtain ⟨_ | _, next⟩ := taken
  · exact htake.bind (ends_fail _ next)
  · exact htake.bind ((looks_skipBlanks next).ends.bind (ends_pure () _))

-----------------------------------------------------------------------------------------
-- The walk to the next statement
-----------------------------------------------------------------------------------------

/-- A round passes the line end ahead and looks for the end below it, or it is the last one. -/
theorem looks_passLineEnd (skipped : Bool) (c : Cursor)
    : Looks (passLineEnd skipped) c
        (if c.atLineEnd then
          .ok (if c.advanceLine.atEnd then .inr none else .inl true) c.advanceLine
          else .ok (.inr (some skipped)) c) := by
  refine (looks_look c).bind ?_
  cases c.atLineEnd with
  | false => exact ends_pure _ c
  | true =>
      refine (ends_move _ c).bind ((looks_look _).bind ?_).ends
      cases c.advanceLine.atEnd with
      | false => exact ends_pure _ _
      | true => exact ends_pure _ _

/-- Exhausted lines are passed one by one, by induction on the lines. The loop tells where it has
passed the last of them. -/
theorem loops_passLineEnd (skipped : Bool) {c : Cursor} (h : c.ahead ≠ [])
    : Loops passLineEnd skipped c
        (.ok (if (c.passLines List.isEmpty).atEnd then none else some (skipped || c.atLineEnd))
          (c.passLines List.isEmpty)) := by
  generalize ha : c.ahead = lines at h
  induction lines generalizing c skipped with
  | nil => contradiction
  | cons first below ih =>
      have hexhausted : c.atLineEnd = first.isEmpty := by
        rw [Cursor.atLineEnd, Cursor.rest, ha]
        rfl
      have hround := looks_passLineEnd skipped c
      rw [hexhausted] at hround ⊢
      cases hfirst : first.isEmpty with
      | false =>
          rw [hfirst] at hround
          rw [Cursor.passLines_of_not ha hfirst, Cursor.atEnd_of_ahead_eq_cons ha, Bool.or_false]
          exact .done hround
      | true =>
          have hbelow := Cursor.ahead_advanceLine ha
          rw [hfirst] at hround
          rw [Cursor.passLines_of_pos ha hfirst, Bool.or_true]
          cases below with
          | nil =>
              rw [Cursor.atEnd_of_ahead_eq_nil hbelow] at hround
              rw [Cursor.passLines_nil hbelow, Cursor.atEnd_of_ahead_eq_nil hbelow]
              exact .done hround
          | cons second below =>
              have hloop := ih true hbelow (List.cons_ne_nil second below)
              rw [Cursor.atEnd_of_ahead_eq_cons hbelow] at hround
              rw [Bool.true_or] at hloop
              exact .more hround hloop

/-- A separator is passed if one stands ahead. -/
theorem ends_passSeparator (c : Cursor)
    : Ends passSeparator c
        (.ok (c.startsWith [':'])
          (if c.startsWith [':'] then c.advance.skipBlanks.startLine else c)) := by
  refine ((looks_look c).bind ?_).ends
  cases hs : c.startsWith [':'] with
  | false => exact ends_pure false c
  | true =>
      have hexpect : Scan.expect [':'] c = .ok () c.advance.skipBlanks := by
        have hcurrent : c.current? = some ':' := Cursor.startsWith_singleton.1 hs
        rw [Scan.expect_apply, Cursor.take, if_pos hcurrent]
        rfl
      have hends := ends_expect [':'] c
      rw [hexpect] at hends
      exact hends.bind ((ends_move _ _).bind (ends_pure true _))

/-- Where nothing is left behind exhausted lines, a round looks for the end and finds it. -/
theorem looks_passRound_of_atEnd {c : Cursor} (h : (c.passLines List.isEmpty).atEnd = true)
    : Looks (passRound ()) c (.ok (.inr true) c.skipRound) := by
  rw [Cursor.skipRound_of_atEnd h]
  refine (looks_look c).bind ?_
  cases hc : c.atEnd with
  | true =>
      rw [Cursor.passLines_nil (List.isEmpty_iff.1 hc)]
      exact ends_pure _ c
  | false =>
      have hloop := loops_passLineEnd false (c := c) (by simpa [Cursor.atEnd] using hc)
      rw [h] at hloop
      exact hloop.looks.ends.bind (ends_pure _ _)

/-- Before the end of the source a round is followed by another one exactly if it passes more than
blanks. -/
theorem looks_passRound {c : Cursor} (h : (c.passLines List.isEmpty).atEnd = false)
    : Looks (passRound ()) c
        (.ok (if c.passesSeparator then .inl () else .inr false) c.skipRound) := by
  have hc : c.atEnd = false := by
    cases hc : c.atEnd with
    | false => rfl
    | true => rw [Cursor.passLines_nil (List.isEmpty_iff.1 hc), hc] at h; cases h
  have hloop := loops_passLineEnd false (c := c) (by simpa [Cursor.atEnd] using hc)
  rw [h] at hloop
  refine (looks_look c).bind ?_
  rw [hc]
  refine hloop.looks.ends.bind ((looks_skipBlanks _).ends.bind ((ends_passSeparator _).bind
    ((looks_skipComments _).ends.bind ?_)))
  rw [Cursor.passesSeparator, Cursor.skipRound, hc, Bool.false_or, Bool.not_false, Bool.and_true]
  exact ends_pure _ _

/-- The walk to the next statement, by induction on its rounds. -/
theorem loops_passRound (c : Cursor)
    : ∃ finished,
        (finished = true → c.toStatement.atEnd = true)
        ∧ Loops passRound () c (.ok finished c.toStatement) := by
  fun_induction Cursor.toStatement c with
  | case1 c hpasses ih =>
      cases hend : (c.passLines List.isEmpty).atEnd with
      | true =>
          have hround := looks_passRound_of_atEnd hend
          have hskip := Cursor.skipRound_of_atEnd hend
          rw [Cursor.toStatement_of_nil (List.isEmpty_iff.1 (hskip ▸ hend))]
          exact ⟨true, fun _ => hskip ▸ hend, .done hround⟩
      | false =>
          obtain ⟨finished, hfinished, hloop⟩ := ih
          have hround := looks_passRound hend
          rw [hpasses, if_pos rfl] at hround
          exact ⟨finished, hfinished, .more hround hloop⟩
  | case2 c hpasses =>
      cases hend : (c.passLines List.isEmpty).atEnd with
      | true =>
          have hround := looks_passRound_of_atEnd hend
          have hskip := Cursor.skipRound_of_atEnd hend
          exact ⟨true, fun _ => hskip ▸ hend, .done hround⟩
      | false =>
          have hround := looks_passRound hend
          rw [if_neg hpasses] at hround
          exact ⟨false, by simp, .done hround⟩

/-- The walk to the next statement looks at least once, and comes to where the cursor is moved at
once. -/
theorem looks_toStatement (c : Cursor)
    : Looks toStatement c (.ok c.toStatement.atEnd c.toStatement) := by
  obtain ⟨finished, hfinished, hloop⟩ := loops_passRound c
  refine hloop.looks.bind ?_
  cases finished with
  | true =>
      rw [hfinished rfl]
      exact ends_pure true _
  | false =>
      refine ((looks_look c.toStatement).bind ?_).ends
      exact ends_pure _ _

-----------------------------------------------------------------------------------------
-- Names and operands
-----------------------------------------------------------------------------------------

/-- A step after another one, where the steps without a watchdog are in the same sequence. -/
theorem Ends.scan_bind {α β : Type} {x : Watch α} {f : α → Watch β} {s : Scan α}
    {g : α → Scan β} {c : Cursor} (hx : Ends x c (s c))
    (hf : ∀ a next, s c = .ok a next → Ends (f a) next (g a next))
    : Ends (x >>= f) c ((s >>= g) c) := by
  simp only [Bind.bind, EStateM.bind]
  cases hs : s c with
  | ok a next =>
      rw [hs] at hx
      exact hx.bind (hf a next hs)
  | error fault stop =>
      rw [hs] at hx
      exact hx.bind_error f

/-- Where no blanks stand ahead, skipping them again leads nowhere. -/
theorem Ends.skip_bind {α : Type} {x : Watch α} {c : Cursor}
    {result : EStateM.Result Fault Cursor α} (hflush : Text.Flush c.rest) (hx : Ends x c result)
    : Ends (skipBlanks >>= fun _ => x) c result := by
  have hskip := looks_skipBlanks c
  rw [Cursor.skipBlanks_of_flush hflush] at hskip
  exact hskip.ends.bind hx

end Watch

/-- Different variables have different names. -/
theorem Variable.eq_of_chars_eq {v w : Variable} (h : v.chars = w.chars) : v = w := by
  have hapart : Text.Apart [] := by simp [Text.Apart]
  have hv := v.atFront?_append hapart
  have hw := w.atFront?_append hapart
  rw [h, hw] at hv
  exact (Option.some.inj hv).symm

/-- Of the names looked at, the longest that opens the text has been found. -/
def Variable.IsLongest (text : List Char) (names : List Variable) : Option Variable → Prop
  | none => ∀ v ∈ names, ¬v.chars <+: text
  | some found =>
      found.chars <+: text ∧ ∀ v ∈ names, v.chars <+: text → v.chars.length ≤ found.chars.length

/-- The longest of all names is the one that stands at the front. -/
theorem Variable.IsLongest.eq_atFront? {text : List Char} {found : Option Variable}
    (h : IsLongest text all found)
    : found = atFront? text := by
  cases found with
  | none =>
      cases hfront : atFront? text with
      | none => rfl
      | some w =>
          obtain ⟨rest, rfl⟩ := exists_of_atFront? hfront
          exact absurd (List.prefix_append w.chars rest) (h w (mem_all w))
  | some v =>
      obtain ⟨⟨rest, rfl⟩, hlongest⟩ := h
      obtain ⟨w, hfront, hle⟩ := v.exists_atFront? rest
      obtain ⟨more, hmore⟩ := exists_of_atFront? hfront
      have hw : w.chars <+: v.chars ++ rest := hmore ▸ List.prefix_append w.chars more
      have hlength : w.chars.length = v.chars.length :=
        Nat.le_antisymm (hlongest w (mem_all w) hw) hle
      have hchars : v.chars = w.chars := (List.append_inj hmore hlength.symm).1
      rw [hfront, eq_of_chars_eq hchars]

/-- One more name is looked at. It is the longest now if it opens the text and is longer than the
one found before. -/
theorem Variable.IsLongest.look {text : List Char} {names : List Variable}
    {found : Option Variable} (h : IsLongest text names found) (v : Variable)
    : IsLongest text (names ++ [v])
        (if v.chars.isPrefixOf text && found.all fun other => other.chars.length < v.chars.length
          then some v else found) := by
  cases hv : v.chars.isPrefixOf text with
  | false =>
      have hnot : ¬v.chars <+: text := fun hfront => by
        rw [List.isPrefixOf_iff_prefix.2 hfront] at hv
        cases hv
      cases found with
      | none =>
          exact List.forall_mem_append.2 ⟨h, List.forall_mem_singleton.2 hnot⟩
      | some other =>
          refine ⟨h.1, List.forall_mem_append.2 ⟨h.2, List.forall_mem_singleton.2 ?_⟩⟩
          exact fun hfront => absurd hfront hnot
  | true =>
      have hfront : v.chars <+: text := List.isPrefixOf_iff_prefix.1 hv
      cases found with
      | none =>
          refine ⟨hfront, List.forall_mem_append.2 ⟨fun w hw hopens => ?_, ?_⟩⟩
          · exact absurd hopens (h w hw)
          · exact List.forall_mem_singleton.2 fun _ => Nat.le_refl _
      | some other =>
          by_cases hlonger : other.chars.length < v.chars.length
          · rw [if_pos (by simpa using hlonger)]
            refine ⟨hfront, List.forall_mem_append.2 ⟨fun w hw hopens => ?_, ?_⟩⟩
            · exact Nat.le_of_lt (Nat.lt_of_le_of_lt (h.2 w hw hopens) hlonger)
            · exact List.forall_mem_singleton.2 fun _ => Nat.le_refl _
          · rw [if_neg (by simpa using hlonger)]
            refine ⟨h.1, List.forall_mem_append.2 ⟨h.2, List.forall_mem_singleton.2 fun _ => ?_⟩⟩
            exact Nat.not_lt.1 hlonger

namespace Watch

/-- Each name gets a look, and a longer one takes the place of the one found before, by induction on
the names. -/
theorem ends_longestName (names seen : List Variable) {found : Option Variable} {c : Cursor}
    (h : Variable.IsLongest c.rest seen found)
    : ∃ longest,
        Variable.IsLongest c.rest (seen ++ names) longest
        ∧ Ends (longestName names found) c (.ok longest c) := by
  induction names generalizing seen found with
  | nil => exact ⟨found, by rwa [List.append_nil], ends_pure found c⟩
  | cons v more ih =>
      obtain ⟨longest, hlongest, hends⟩ := ih (seen ++ [v]) (h.look v)
      rw [List.append_assoc, List.singleton_append] at hlongest
      exact ⟨longest, hlongest, ((looks_look c).bind hends).ends⟩

/-- Looking for a name comes to what it comes to without a watchdog, by whether one is found. -/
theorem ends_reference? (c : Cursor) : Ends reference? c (Scan.reference? c) := by
  have hnone : Variable.IsLongest c.rest [] none := fun v hv => absurd hv List.not_mem_nil
  obtain ⟨found, hfound, hends⟩ := ends_longestName Variable.all [] hnone
  obtain rfl : found = Variable.atFront? c.rest := hfound.eq_atFront?
  rw [Scan.reference?_apply]
  refine hends.bind ?_
  cases Variable.atFront? c.rest with
  | none => exact ends_pure none c
  | some v => exact (ends_expect v.chars c).scan_bind fun _ next _ => ends_pure (some v) next

/-- Reading an operand comes to what it comes to without a watchdog, by what is found. -/
theorem ends_operand (c : Cursor) : Ends operand c (Scan.operand c) := by
  rw [Scan.operand_apply]
  refine ((looks_look c).bind ?_).ends
  cases Literal.atFront? c.rest with
  | some l =>
      exact (ends_expect l.chars c).scan_bind fun _ next _ => ends_pure _ next
  | none =>
      refine (ends_reference? c).scan_bind fun found next _ => ?_
      cases found with
      | some v => exact ends_pure _ next
      | none => exact ends_fail .noValue next

/-- Reading an iterator comes to what it comes to without a watchdog, by what is found. -/
theorem ends_iterator (c : Cursor) : Ends iterator c (Scan.iterator c) := by
  refine (ends_reference? c).scan_bind fun found next _ => ?_
  cases found with
  | none => exact ends_fail .noVariable next
  | some v =>
      cases v with
      | ans => exact ends_fail .ansIterator next
      | letter place => exact ends_pure _ next
      | theta => exact ends_pure _ next

-----------------------------------------------------------------------------------------
-- Pieces
-----------------------------------------------------------------------------------------

/-- The blanks behind an operand are passed with it, so skipping them again changes nothing. -/
theorem ends_nextOperand (c : Cursor) : Ends nextOperand c (Scan.nextOperand c) := by
  refine (ends_expect [','] c).scan_bind fun _ middle _ => ?_
  have hoperand := ends_operand middle
  cases hvalue : Scan.operand middle with
  | error fault stop =>
      rw [hvalue] at hoperand
      exact hoperand.bind_error _
  | ok value next =>
      rw [hvalue] at hoperand
      exact hoperand.bind ((ends_pure value next).skip_bind (Scan.passed_of_operand hvalue).2)

/-- Reading a step comes to what it comes to without a watchdog, be it written or not. -/
theorem ends_step (c : Cursor) : Ends step c (Scan.step c) := by
  rw [Scan.step, Scan.get_bind_apply]
  refine ((looks_look c).bind ?_).ends
  cases c.startsWith [','] with
  | true => exact ends_nextOperand c
  | false => exact ends_pure _ c

/-- Reading a closing bracket comes to what it comes to without a watchdog, be it written or not. -/
theorem ends_closing (c : Cursor) : Ends closing c (Scan.closing c) := by
  rw [Scan.closing, Scan.get_bind_apply]
  refine ((looks_look c).bind ?_).ends
  cases c.startsWith [')'] with
  | true => exact ends_expect [')'] c
  | false => exact ends_pure () c

/-- Reading a header comes to what it comes to without a watchdog, as its parts do. -/
theorem ends_header (location : Location) (c : Cursor)
    : Ends (header location) c (Scan.header location c) := by
  refine (ends_expect _ c).scan_bind fun _ c _ => ?_
  refine (ends_iterator c).scan_bind fun v next hv => ?_
  refine Ends.skip_bind (Scan.passed_of_iterator hv).2.2 ?_
  refine (ends_nextOperand next).scan_bind fun start next _ => ?_
  refine (ends_nextOperand next).scan_bind fun stop next _ => ?_
  refine (ends_step next).scan_bind fun step next _ => ?_
  exact (ends_closing next).scan_bind fun _ next _ => ends_pure _ next

/-- The check for a line start takes no read. -/
theorem ends_checkLineStart (keyword : Keyword) (c : Cursor)
    : Ends (checkLineStart keyword) c (Scan.checkLineStart keyword c) := by
  rw [Scan.checkLineStart, Scan.get_bind_apply]
  refine (ends_standing c).bind ?_
  cases c.lineStart with
  | true => exact ends_pure () c
  | false => exact ends_fail (.misplaced keyword) c

/-- Taking a piece comes to what it comes to without a watchdog, by the keyword that stands there.
-/
theorem ends_here {c : Cursor} (h : c.atEnd = false) : Ends here c (Piece.here c) := by
  rw [Piece.here, Scan.get_bind_apply, h, if_neg Bool.false_ne_true]
  refine (ends_standing c).bind ((looks_look c).bind ?_).ends
  cases c.startsWith Keyword.loop.chars with
  | true =>
      exact (ends_checkLineStart .loop c).scan_bind fun _ c _ =>
        (ends_header _ c).scan_bind fun _ c _ => ends_pure _ c
  | false =>
  refine ((looks_look c).bind ?_).ends
  cases c.startsWith Keyword.disp.chars with
  | true =>
      exact (ends_checkLineStart .disp c).scan_bind fun _ c _ =>
        (ends_expect _ c).scan_bind fun _ c _ =>
          (ends_operand c).scan_bind fun _ c _ => ends_pure _ c
  | false =>
  refine ((looks_look c).bind ?_).ends
  cases c.startsWith Keyword.close.chars with
  | true =>
      exact (ends_checkLineStart .close c).scan_bind fun _ c _ =>
        (ends_expect _ c).scan_bind fun _ c _ => ends_pure _ c
  | false => exact ends_fail .noStatement c

/-- The next piece is the same under a watchdog, as long as it lets the reads pass. -/
theorem looks_next (c : Cursor) : Looks next c (Piece.next c) := by
  refine (looks_toStatement c).bind ?_
  rw [Piece.next_apply]
  cases hend : c.toStatement.atEnd with
  | true =>
      rw [Piece.here_of_nil (List.isEmpty_iff.1 hend)]
      exact ends_pure _ _
  | false => exact ends_here hend

end Watch

-----------------------------------------------------------------------------------------
-- Single steps
-----------------------------------------------------------------------------------------

namespace Probe

/-- A step comes to the answer that it has without a watchdog. -/
theorem exists_ends_watch (probe : Probe) (c : Cursor)
    : ∃ result, Watch.Ends probe.watch c result ∧ answer result = look c probe := by
  cases probe with
  | advance => exact ⟨_, (Watch.ends_move _ c).bind_pure _, rfl⟩
  | advanceLine => exact ⟨_, (Watch.ends_move _ c).bind_pure _, rfl⟩
  | startLine => exact ⟨_, (Watch.ends_move _ c).bind_pure _, rfl⟩
  | current => exact ⟨_, (Watch.looks_look c).ends.bind_pure _, rfl⟩
  | rest => exact ⟨_, (Watch.looks_look c).ends.bind_pure _, rfl⟩
  | atLineEnd => exact ⟨_, (Watch.looks_look c).ends.bind_pure _, rfl⟩
  | atEnd => exact ⟨_, (Watch.looks_look c).ends.bind_pure _, rfl⟩
  | startsWith text => exact ⟨_, (Watch.looks_look c).ends.bind_pure _, rfl⟩
  | skipBlanks =>
      refine ⟨_, (Watch.looks_skipBlanks c).ends.bind_pure _, ?_⟩
      rw [Cursor.any_isBlank_current?]
      rfl
  | skipBlankLines => exact ⟨_, (Watch.looks_skipBlankLines c).ends.bind_pure _, rfl⟩
  | skipComments => exact ⟨_, (Watch.looks_skipComments c).ends.bind_pure _, rfl⟩
  | expect text =>
      have hexpect := Watch.ends_expect text.toList c
      rw [look]
      cases he : Scan.expect text.toList c with
      | ok u next =>
          rw [he] at hexpect
          exact ⟨_, hexpect.bind_pure _, rfl⟩
      | error fault stop =>
          rw [he] at hexpect
          exact ⟨_, hexpect.bind_error _, rfl⟩

/-- A step under a watchdog is the step without one if its reads are let pass, and otherwise it is
stopped at one of them. -/
theorem exists_run_after (probe : Probe) (c : Cursor)
    : ∃ reads,
        (∀ n, reads ≤ n → run (.after n) probe c = run .silent probe c)
        ∧ ∀ n < reads,
            ∃ stop, run (.after n) probe c = (.fault ⟨.timeout, stop.location⟩, stop) := by
  obtain ⟨result, ⟨reads, hspends⟩, hanswer⟩ := exists_ends_watch probe c
  refine ⟨reads, fun n hn => ?_, fun n hn => ?_⟩
  · obtain ⟨left, rfl⟩ := Nat.exists_eq_add_of_le hn
    rw [run, run, ← hanswer, hspends.in_time]
    cases result <;> rfl
  · obtain ⟨stop, hstop⟩ := hspends.late n hn
    refine ⟨stop, ?_⟩
    rw [run, hstop]
    rfl

end Probe

end LoopCalc
