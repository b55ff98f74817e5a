import LoopCalc.Proofs.Parsing.Scanning
import LoopCalc.Proofs.Parsing.Walking
import LoopCalc.Proofs.Watch.Spending

/-! Skipping, look by look. The loops that pass blanks, blank lines and comments one at a time come
to where the cursor is moved at once, and answer whether anything was there. Each loop is followed
round by round: a round that passes something leaves the same goal behind it.
-/

namespace LoopCalc

-----------------------------------------------------------------------------------------
-- What one round leaves to the others
-----------------------------------------------------------------------------------------

namespace Cursor

variable {c : Cursor} {first : List Char} {below : List (List Char)}

/-- A cursor with a line ahead is not at the end. -/
theorem atEnd_of_ahead_eq_cons (ha : c.ahead = first :: below) : c.atEnd = false := by
  rw [atEnd, ha]
  rfl

/-- A cursor without a line ahead is at the end. -/
theorem atEnd_of_ahead_eq_nil (ha : c.ahead = []) : c.atEnd = true := by
  rw [atEnd, ha]
  rfl

/-- Passing a line drops it. -/
theorem ahead_advanceLine (ha : c.ahead = first :: below) : c.advanceLine.ahead = below := by
  rw [advanceLine, ha]
  rfl

/-- It makes no difference whether blanks are skipped before the line is passed. -/
theorem advanceLine_skipBlanks (c : Cursor) : c.skipBlanks.advanceLine = c.advanceLine := by
  rcases c with ⟨_ | ⟨text, below⟩, line, column, start⟩ <;> rfl

/-- Skipping blanks does not reach the end of the source. -/
theorem atEnd_skipBlanks (c : Cursor) : c.skipBlanks.atEnd = c.atEnd := by
  rcases c with ⟨_ | ⟨text, below⟩, line, column, start⟩ <;> rfl

/-- Blanks are all of a line exactly if nothing is left of it behind them. -/
theorem atLineEnd_skipBlanks (ha : c.ahead = first :: below)
    : c.skipBlanks.atLineEnd = Text.isBlankLine first := by
  have hrest : c.rest = first := by
    rw [rest, ha]
    rfl
  rw [Bool.eq_iff_iff, atLineEnd, rest_skipBlanks, hrest, List.isEmpty_iff, Text.isBlankLine_iff]

/-- A blank ahead is what skipping blanks moves over. -/
theorem any_isBlank_current? (c : Cursor)
    : c.current?.any Text.isBlank = decide (c.skipBlanks.location ≠ c.location) := by
  rcases c with ⟨_ | ⟨_ | ⟨x, text⟩, below⟩, line, column, start⟩
  · simp [current?, rest, skipBlanks]
  · simp [current?, rest, skipBlanks, location]
  · cases hx : Text.isBlank x <;> simp [current?, rest, skipBlanks, location, hx]

/-- Blanks are skipped one by one, but for where a logical line starts. -/
theorem skipBlanks_of_head {x : Char} {text : List Char} (h : c.rest = x :: text)
    (hx : Text.isBlank x = true) (lineStart : Bool)
    : { c.skipBlanks with lineStart } = { c.advance.skipBlanks with lineStart } := by
  rcases c with ⟨_ | ⟨text, below⟩, line, column, start⟩
  · cases h
  · obtain rfl : text = _ := h
    rw [skipBlanks_of_blank rfl hx]
    rfl

/-- At the end there are no blank lines to skip. -/
theorem skipBlankLines_of_nil (ha : c.ahead = []) : c.skipBlankLines = c.skipBlanks := by
  rw [skipBlankLines, passLines_nil ha]

/-- On a line with ink, only its blanks are skipped. -/
theorem skipBlankLines_of_ink (ha : c.ahead = first :: below)
    (hb : Text.isBlankLine first = false)
    : c.skipBlankLines = c.skipBlanks := by
  rw [skipBlankLines, passLines_of_not ha hb]

/-- A blank line is passed, and then the others. -/
theorem skipBlankLines_of_blank (ha : c.ahead = first :: below)
    (hb : Text.isBlankLine first = true)
    : c.skipBlankLines = c.advanceLine.skipBlankLines := by
  rw [skipBlankLines, passLines_of_pos ha hb, skipBlankLines]

/-- Skipping blanks stays on its line. -/
theorem line_skipBlanks (c : Cursor) : c.skipBlanks.line = c.line := by
  rcases c with ⟨_ | ⟨text, below⟩, line, column, start⟩ <;> rfl

/-- Passing lines does not go back. -/
theorem line_le_passLines (p : List Char → Bool) (c : Cursor) : c.line ≤ (c.passLines p).line := by
  unfold passLines
  split
  · exact Nat.le_refl _
  · exact Nat.le_add_right _ _

/-- Where a line is passed the cursor moves. -/
theorem location_skipBlankLines_ne (ha : c.ahead = first :: below)
    (hb : Text.isBlankLine first = true)
    : c.skipBlankLines.location ≠ c.location := by
  have hline : c.line + 1 ≤ c.skipBlankLines.line := by
    rw [skipBlankLines_of_blank ha hb, skipBlankLines, line_skipBlanks]
    exact line_le_passLines Text.isBlankLine c.advanceLine
  intro h
  have := congrArg Location.line h
  simp only [location] at this
  omega

/-- A line that holds nothing for the reader is passed, and then the others. -/
theorem skipComments_of_idle (ha : c.ahead = first :: below) (hi : Text.isIdleLine first = true)
    : c.skipComments = c.advanceLine.skipComments
      ∧ c.passesComment = (Text.isCommentLine first || c.advanceLine.passesComment) := by
  refine ⟨?_, ?_⟩
  · rw [skipComments, passLines_of_pos ha hi, skipComments]
  · rw [passesComment, passesComment, ahead_advanceLine ha, ha, List.takeWhile_cons_of_pos hi,
      List.any_cons]

/-- On a line with ink that is no comment, only its blanks are skipped. -/
theorem skipComments_of_ink (ha : c.ahead = first :: below) (hi : Text.isIdleLine first = false)
    : c.skipComments = c.skipBlanks ∧ c.passesComment = false := by
  refine ⟨?_, ?_⟩
  · rw [skipComments, passLines_of_not ha hi]
  · rw [passesComment, ha, List.takeWhile_cons_of_neg (by simp [hi]), List.any_nil]

/-- A comment stands behind the blanks of a line exactly if it is a comment line. -/
theorem startsWith_skipBlanks (ha : c.ahead = first :: below)
    : c.skipBlanks.startsWith ['/', '/'] = Text.isCommentLine first := by
  have hrest : c.rest = first := by
    rw [rest, ha]
    rfl
  rw [startsWith, rest_skipBlanks, hrest, Text.isCommentLine]

/-- Behind blank lines there is a comment, which is passed before the others, or there is nothing to
pass, by induction on the lines. -/
theorem skipComments_eq (c : Cursor)
    : if c.skipBlankLines.startsWith ['/', '/'] then
        c.skipComments = c.skipBlankLines.advanceLine.skipComments ∧ c.passesComment = true
      else
        c.skipComments = c.skipBlankLines ∧ c.passesComment = false := by
  generalize ha : c.ahead = lines
  induction lines generalizing c with
  | nil =>
      have hstart : c.skipBlanks.startsWith ['/', '/'] = false := by
        rw [startsWith, rest_skipBlanks, rest, ha]
        rfl
      rw [skipBlankLines_of_nil ha, hstart, skipComments, passLines_nil ha, passesComment, ha]
      exact ⟨rfl, rfl⟩
  | cons first below ih =>
      cases hb : Text.isBlankLine first with
      | true =>
          have hi : Text.isIdleLine first = true := by simp [Text.isIdleLine, hb]
          have hc : Text.isCommentLine first = false := by
            rw [Text.isCommentLine, Text.isBlankLine_iff.1 hb]
            rfl
          obtain ⟨hskip, hpasses⟩ := skipComments_of_idle ha hi
          rw [skipBlankLines_of_blank ha hb, hskip, hpasses, hc, Bool.false_or]
          exact ih c.advanceLine (ahead_advanceLine ha)
      | false =>
          rw [skipBlankLines_of_ink ha hb, startsWith_skipBlanks ha]
          cases hc : Text.isCommentLine first with
          | true =>
              have hi : Text.isIdleLine first = true := by simp [Text.isIdleLine, hc]
              obtain ⟨hskip, hpasses⟩ := skipComments_of_idle ha hi
              rw [advanceLine_skipBlanks, hpasses, hc, Bool.true_or]
              exact ⟨hskip, rfl⟩
          | false =>
              have hi : Text.isIdleLine first = false := by simp [Text.isIdleLine, hb, hc]
              exact skipComments_of_ink ha hi

/-- Skipping blank lines leaves no more lines. -/
theorem length_ahead_skipBlankLines_le (c : Cursor)
    : c.skipBlankLines.ahead.length ≤ c.ahead.length := by
  rw [skipBlankLines, ahead_skipBlanks, List.length_modifyHead, ahead_passLines]
  exact (List.dropWhile_sublist _).length_le

end Cursor

-----------------------------------------------------------------------------------------
-- The loops
-----------------------------------------------------------------------------------------

namespace Watch

/-- A round passes the blank ahead, or it is the last one. -/
theorem looks_passBlank (skipped : Bool) (c : Cursor)
    : Looks (passBlank skipped) c
        (if c.current?.any Text.isBlank then .ok (.inl true) c.advance
          else .ok (.inr skipped) c) := by
  refine (looks_look c).bind ?_
  cases c.current?.any Text.isBlank with
  | false => exact ends_pure _ c
  | true => exact (ends_move _ c).bind (ends_pure _ _)

/-- Blanks are passed one by one, by induction on what is left of the line. Passing one means that
no logical line starts behind it any more. -/
theorem loops_passBlank (skipped : Bool) (c : Cursor)
    : ∃ lineStart,
        Loops passBlank skipped c
          (.ok (skipped || c.current?.any Text.isBlank) { c.skipBlanks with lineStart }) := by
  generalize hrest : c.rest = text
  induction text generalizing c skipped with
  | nil =>
      have hcurrent : c.current?.any Text.isBlank = false := by simp [Cursor.current?, hrest]
      have hround := looks_passBlank skipped c
      rw [hcurrent] at hround
      refine ⟨c.lineStart, ?_⟩
      rw [Cursor.skipBlanks_of_flush (hrest ▸ Text.flush_nil), hcurrent, Bool.or_false]
      exact .done hround
  | cons x rest ih =>
      have hcurrent : c.current?.any Text.isBlank = Text.isBlank x := by
        simp [Cursor.current?, hrest]
      have hround := looks_passBlank skipped c
      rw [hcurrent] at hround ⊢
      cases hx : Text.isBlank x with
      | false =>
          rw [hx] at hround
          refine ⟨c.lineStart, ?_⟩
          rw [Cursor.skipBlanks_of_flush (hrest ▸ Text.flush_cons.2 hx), Bool.or_false]
          exact .done hround
      | true =>
          obtain ⟨lineStart, hloop⟩ := ih true c.advance (by rw [Cursor.rest_advance, hrest]; rfl)
          rw [hx] at hround
          refine ⟨lineStart, ?_⟩
          rw [Cursor.skipBlanks_of_head hrest hx, Bool.or_true]
          exact .more hround hloop

/-- Blanks on the line are skipped, and whether a logical line starts is kept. -/
theorem looks_skipBlanks (c : Cursor)
    : Looks skipBlanks c (.ok (c.current?.any Text.isBlank) c.skipBlanks) := by
  obtain ⟨lineStart, hloop⟩ := loops_passBlank false c
  have hstart : { c.skipBlanks with lineStart := c.lineStart } = c.skipBlanks := by
    rw [← Cursor.lineStart_skipBlanks]
  have hrestore : Ends (move fun next => { next with lineStart := c.lineStart })
      { c.skipBlanks with lineStart } (.ok () c.skipBlanks) := by
    have hmove := ends_move (fun next => { next with lineStart := c.lineStart })
      { c.skipBlanks with lineStart }
    rwa [hstart] at hmove
  exact (ends_standing c).bind_looks (hloop.looks.bind (hrestore.bind (ends_pure _ _)))

/-- A round passes the blanks ahead with the line end behind them, or it is the last one. -/
theorem looks_passBlankLine (skipped : Bool) (c : Cursor)
    : Looks (passBlankLine skipped) c
        (if !c.atEnd && c.skipBlanks.atLineEnd then .ok (.inl true) c.advanceLine
          else
            .ok (.inr (skipped || decide (c.skipBlanks.location ≠ c.location))) c.skipBlanks) := by
  refine (looks_skipBlanks c).bind ((looks_look _).bind ?_).ends
  rw [Cursor.atEnd_skipBlanks, Cursor.any_isBlank_current?, ← Cursor.advanceLine_skipBlanks]
  cases c.atEnd with
  | true => exact ends_pure _ _
  | false =>
      refine ((looks_look _).bind ?_).ends
      cases c.skipBlanks.atLineEnd with
      | false => exact ends_pure _ _
      | true => exact (ends_move _ _).bind (ends_pure _ _)

/-- Blank lines are passed one by one, by induction on the lines. -/
theorem loops_passBlankLine (skipped : Bool) (c : Cursor)
    : Loops passBlankLine skipped c
        (.ok (skipped || decide (c.skipBlankLines.location ≠ c.location)) c.skipBlankLines) := by
  generalize ha : c.ahead = lines
  induction lines generalizing c skipped with
  | nil =>
      have hround := looks_passBlankLine skipped c
      rw [Cursor.atEnd_of_ahead_eq_nil ha] at hround
      rw [Cursor.skipBlankLines_of_nil ha]
      exact .done hround
  | cons first below ih =>
      have hround := looks_passBlankLine skipped c
      rw [Cursor.atEnd_of_ahead_eq_cons ha, Cursor.atLineEnd_skipBlanks ha] at hround
      cases hb : Text.isBlankLine first with
      | false =>
          rw [hb] at hround
          rw [Cursor.skipBlankLines_of_ink ha hb]
          exact .done hround
      | true =>
          have hmoved : decide (c.skipBlankLines.location ≠ c.location) = true :=
            decide_eq_true (Cursor.location_skipBlankLines_ne ha hb)
          have hloop := ih true c.advanceLine (Cursor.ahead_advanceLine ha)
          rw [Bool.true_or, ← Cursor.skipBlankLines_of_blank ha hb] at hloop
          rw [hb] at hround
          rw [hmoved, Bool.or_true]
          exact .more hround hloop

/-- The loop over blank lines looks at least once, comes to where the cursor is moved at once, and
tells whether it moved. -/
theorem looks_skipBlankLines (c : Cursor)
    : Looks skipBlankLines c
        (.ok (decide (c.skipBlankLines.location ≠ c.location)) c.skipBlankLines) := by
  have hloop := loops_passBlankLine false c
  rw [Bool.false_or] at hloop
  exact hloop.looks

/-- A round passes the comment ahead with what is blank below it, or it is the last one. -/
theorem looks_passComment (skipped : Bool) (c : Cursor)
    : Looks (passComment skipped) c
        (if !c.atEnd && c.startsWith ['/', '/'] then .ok (.inl true) c.advanceLine.skipBlankLines
          else .ok (.inr skipped) c) := by
  refine (looks_look c).bind ?_
  cases c.atEnd with
  | true => exact ends_pure _ c
  | false =>
      refine ((looks_look c).bind ?_).ends
      cases c.startsWith ['/', '/'] with
      | false => exact ends_pure _ c
      | true => exact (ends_move _ c).bind ((looks_skipBlankLines _).ends.bind (ends_pure _ _))

/-- Comments are passed one by one, each with the blank lines below it. Each leaves fewer lines
ahead. -/
theorem loops_passComment (skipped : Bool) (c : Cursor)
    : Loops passComment skipped c.skipBlankLines
        (.ok (skipped || c.passesComment) c.skipComments) := by
  generalize hlength : c.ahead.length = length
  induction length using Nat.strongRecOn generalizing c skipped with
  | ind length ih =>
  have heq := c.skipComments_eq
  have hfewer := c.length_ahead_skipBlankLines_le
  generalize c.skipBlankLines = d at heq hfewer ⊢
  have hround := looks_passComment skipped d
  cases hstart : d.startsWith ['/', '/'] with
  | false =>
      rw [hstart] at heq hround
      obtain ⟨hskip, hpasses⟩ := heq
      rw [Bool.and_false] at hround
      rw [hskip, hpasses, Bool.or_false]
      exact .done hround
  | true =>
      obtain ⟨first, below, ha⟩ : ∃ first below, d.ahead = first :: below := by
        refine List.exists_cons_of_ne_nil fun ha => Cursor.rest_ne_nil_of_startsWith hstart ?_
        rw [Cursor.rest, ha]
        rfl
      rw [hstart] at heq hround
      obtain ⟨hskip, hpasses⟩ := heq
      have hless : d.advanceLine.ahead.length < length := by
        rw [ha, List.length_cons] at hfewer
        rw [Cursor.ahead_advanceLine ha]
        omega
      have hloop := ih _ hless true d.advanceLine rfl
      rw [Bool.true_or, ← hskip] at hloop
      rw [Cursor.atEnd_of_ahead_eq_cons ha] at hround
      rw [hpasses, Bool.or_true]
      exact .more hround hloop

/-- The loop over comments looks at least once, comes to where the cursor is moved at once, and
tells whether it passed a comment. -/
theorem looks_skipComments (c : Cursor)
    : Looks skipComments c (.ok c.passesComment c.skipComments) := by
  have hloop := loops_passComment false c
  rw [Bool.false_or] at hloop
  exact (looks_skipBlankLines c).bind hloop.looks.ends

end Watch

end LoopCalc
