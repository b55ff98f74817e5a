import LoopCalc.Proofs.Grammar.LogicalLines
import LoopCalc.Source.Cursor

/-! The walk of a cursor to the next statement, measured in logical lines. The walk never loses one.
It ends before ink that is no comment, and before no separator either, except from one kind of
place: blanks and nothing else on the current line, with a separator opening the next line that
holds anything.
-/

namespace LoopCalc.Cursor

open LineByLine (ofLine ofLines Boundary LogicalLine)

/-- The logical lines ahead of a cursor. -/
def pending (c : Cursor) : List LogicalLine :=
  ofLines c.line c.column c.ahead

/-- Skipping blanks trims the line at the cursor. -/
theorem ahead_skipBlanks (c : Cursor)
    : c.skipBlanks.ahead = c.ahead.modifyHead Text.trimStart := by
  unfold skipBlanks
  split <;> simp [*]

/-- Passing lines drops them. -/
theorem ahead_passLines (p : List Char → Bool) (c : Cursor)
    : (c.passLines p).ahead = c.ahead.dropWhile p := by
  unfold passLines
  split
  · next h =>
    have hd := List.takeWhile_append_dropWhile (p := p) (l := c.ahead)
    rw [h, List.nil_append] at hd
    exact hd.symm
  · rfl

/-- Passing lines does nothing when the current line is not one of them. -/
theorem passLines_of_not {p : List Char → Bool} {c : Cursor} {line : List Char}
    {below : List (List Char)} (ha : c.ahead = line :: below) (hp : p line = false)
    : c.passLines p = c := by
  simp [passLines, ha, hp]

/-- Without lines ahead there is nothing to pass. -/
theorem passLines_nil {p : List Char → Bool} {c : Cursor} (ha : c.ahead = [])
    : c.passLines p = c := by
  simp [passLines, ha]

-----------------------------------------------------------------------------------------
-- No logical line is lost
-----------------------------------------------------------------------------------------

/-- Skipping blanks passes no logical line. -/
theorem pending_skipBlanks (c : Cursor) : c.skipBlanks.pending = c.pending := by
  rcases c with ⟨_ | ⟨text, below⟩, line, column, start⟩
  · rfl
  · simp only [pending, skipBlanks, ofLines, LineByLine.ofLine_trimStart]

/-- Lines that say nothing can be dropped, by induction on the lines. -/
theorem ofLines_dropWhile {p : List Char → Bool}
    (hp : ∀ text, p text = true → Text.isIdleLine text = true) (line : Nat)
    (lines : List (List Char))
    : ofLines (line + (lines.takeWhile p).length) 0 (lines.dropWhile p) = ofLines line 0 lines := by
  induction lines generalizing line with
  | nil => rfl
  | cons text below ih =>
      cases h : p text with
      | false => simp [h]
      | true =>
          have hi := ih (line + 1)
          simp only [List.takeWhile_cons, List.dropWhile_cons, h, if_true, List.length_cons,
            ofLines, LineByLine.ofLine_of_isIdleLine (hp text h), List.nil_append]
          rw [← hi]
          congr 1
          omega

/-- Passing lines passes no logical line, if only idle lines are passed. -/
theorem pending_passLines {p : List Char → Bool}
    (hp : ∀ text, p text = true → Text.isIdleLine text = true) (c : Cursor)
    : (c.passLines p).pending = c.pending := by
  rcases c with ⟨_ | ⟨text, below⟩, line, column, start⟩
  · rw [passLines_nil rfl]
  · cases h : p text with
    | false => rw [passLines_of_not rfl h]
    | true =>
        have hd := ofLines_dropWhile hp (line + 1) below
        simp only [passLines, pending, List.takeWhile_cons, List.dropWhile_cons, h, if_true,
          List.length_cons, ofLines, LineByLine.ofLine_of_isIdleLine (hp text h),
          List.nil_append]
        rw [← hd]
        congr 1
        omega

/-- A cursor that sees some text has it at the front of the current line. -/
theorem ahead_of_startsWith {c : Cursor} {x : Char} {text : List Char}
    (h : c.startsWith (x :: text) = true)
    : ∃ rest below, c.ahead = (x :: text ++ rest) :: below := by
  rcases c with ⟨_ | ⟨line, below⟩, _, _, _⟩
  · simp [startsWith, rest] at h
  · obtain ⟨rest, hr⟩ := List.isPrefixOf_iff_prefix.1 h
    exact ⟨rest, below, congrArg (· :: below) hr.symm⟩

/-- Passing a separator passes no logical line. -/
theorem pending_separator {c : Cursor} (h : c.startsWith [':'] = true)
    : c.advance.skipBlanks.startLine.pending = c.pending := by
  obtain ⟨rest, below, ha⟩ := ahead_of_startsWith h
  have hs : c.advance.pending = c.pending := by
    simp only [pending, advance, ha, List.cons_append, List.nil_append, List.tail_cons, ofLines,
      LineByLine.ofLine_separator]
  rw [← hs, ← pending_skipBlanks c.advance]
  rfl

/-- An empty line is idle. -/
theorem isIdleLine_of_isEmpty {text : List Char} (h : text.isEmpty = true)
    : Text.isIdleLine text = true := by
  rw [List.isEmpty_iff.1 h]
  rfl

/-- Skipping comments passes no logical line, as the lines it passes are idle. -/
theorem pending_skipComments (c : Cursor) : c.skipComments.pending = c.pending := by
  rw [skipComments, pending_skipBlanks, pending_passLines fun _ h => h]

/-- A round of skipping passes no logical line, whether it passes a separator or not. -/
theorem pending_skipRound (c : Cursor) : c.skipRound.pending = c.pending := by
  have hl : (c.passLines List.isEmpty).skipBlanks.pending = c.pending := by
    rw [pending_skipBlanks, pending_passLines fun _ => isIdleLine_of_isEmpty]
  unfold skipRound
  dsimp only
  rw [pending_skipComments]
  split
  · next h => rw [pending_separator h, hl]
  · exact hl

/-- The walk to the next statement passes no logical line, by induction on its rounds. -/
theorem pending_toStatement (c : Cursor) : c.toStatement.pending = c.pending := by
  fun_induction toStatement c with
  | case1 c _ ih => rw [ih, pending_skipRound]
  | case2 c _ => exact pending_skipRound c

-----------------------------------------------------------------------------------------
-- The end of the source stays where it is
-----------------------------------------------------------------------------------------

/-- The place of the cursor once it is past the last line. -/
def bottom (c : Cursor) : Location :=
  if c.ahead = [] then c.location else ⟨c.line + c.ahead.length + 1, 1⟩

/-- Skipping blanks leaves the bottom of the source where it is. -/
theorem bottom_skipBlanks (c : Cursor) : c.skipBlanks.bottom = c.bottom := by
  rcases c with ⟨_ | ⟨text, below⟩, line, column, start⟩ <;> rfl

/-- Passing lines leaves the bottom of the source where it is. -/
theorem bottom_passLines (p : List Char → Bool) (c : Cursor)
    : (c.passLines p).bottom = c.bottom := by
  unfold passLines
  split
  · rfl
  · next hp =>
    have hc : c.ahead ≠ [] := by
      intro ha
      simp [ha] at hp
    have hsum : (c.ahead.takeWhile p).length + (c.ahead.dropWhile p).length = c.ahead.length := by
      rw [← List.length_append, List.takeWhile_append_dropWhile]
    rw [bottom, bottom, if_neg hc, ← hsum]
    by_cases hd : c.ahead.dropWhile p = []
    · simp [hd, location]
    · simp [hd, Nat.add_assoc]

/-- Passing a separator leaves the bottom of the source where it is. -/
theorem bottom_separator {c : Cursor} (h : c.startsWith [':'] = true)
    : c.advance.skipBlanks.startLine.bottom = c.bottom := by
  obtain ⟨rest, below, ha⟩ := ahead_of_startsWith h
  have hs : c.advance.bottom = c.bottom := by simp [bottom, advance, ha]
  rw [← hs, ← bottom_skipBlanks c.advance]
  rfl

/-- A round of skipping leaves the bottom of the source where it is. -/
theorem bottom_skipRound (c : Cursor) : c.skipRound.bottom = c.bottom := by
  have hl : (c.passLines List.isEmpty).skipBlanks.bottom = c.bottom := by
    rw [bottom_skipBlanks, bottom_passLines]
  unfold skipRound
  dsimp only
  rw [skipComments, bottom_skipBlanks, bottom_passLines]
  split
  · next h => rw [bottom_separator h, hl]
  · exact hl

/-- The walk to the next statement leaves the bottom of the source where it is. -/
theorem bottom_toStatement (c : Cursor) : c.toStatement.bottom = c.bottom := by
  fun_induction toStatement c with
  | case1 c _ ih => rw [ih, bottom_skipRound]
  | case2 c _ => exact bottom_skipRound c

-----------------------------------------------------------------------------------------
-- Where the walk ends
-----------------------------------------------------------------------------------------

/-- The source is over, or ink that is no comment stands at the cursor. -/
def Settled (c : Cursor) : Prop :=
  c.ahead = [] ∨
    ∃ x text below,
      c.ahead = (x :: text) :: below
      ∧ Text.isBlank x = false
      ∧ ['/', '/'].isPrefixOf (x :: text) = false

/-- Behind skipped comments stands ink that is no comment, if the source is not over. -/
theorem settled_skipComments (c : Cursor) : c.skipComments.Settled := by
  have ha : c.skipComments.ahead
      = (c.ahead.dropWhile Text.isIdleLine).modifyHead Text.trimStart := by
    rw [skipComments, ahead_skipBlanks, ahead_passLines]
  cases hd : c.ahead.dropWhile Text.isIdleLine with
  | nil => exact Or.inl (by rw [ha, hd]; rfl)
  | cons line below =>
      have hn : Text.isIdleLine line = false := by
        simpa [hd] using List.head?_dropWhile_not Text.isIdleLine c.ahead
      rw [Text.isIdleLine, Bool.or_eq_false_iff] at hn
      rw [hd, List.modifyHead_cons] at ha
      cases ht : Text.trimStart line with
      | nil => simp [Text.isBlankLine_iff.2 ht] at hn
      | cons x text =>
          refine Or.inr ⟨x, text, below, by rw [ha, ht], ?_, ?_⟩
          · exact Text.flush_cons.1 (ht ▸ Text.flush_trimStart line)
          · exact ht ▸ hn.2

/-- A round of skipping ends with skipped comments, and so it settles. -/
theorem settled_skipRound (c : Cursor) : c.skipRound.Settled :=
  settled_skipComments _

/-- The walk to the next statement settles, as its last round does. -/
theorem settled_toStatement (c : Cursor) : c.toStatement.Settled := by
  fun_induction toStatement c with
  | case1 c _ ih => exact ih
  | case2 c _ => exact settled_skipRound c

/-- The first of the lines holds blanks, and only blanks, and the first line that holds more starts
with a separator. -/
def stalls : List (List Char) → Bool
  | [] => false
  | first :: below =>
      first ≠ []
      ∧ Text.isBlankLine first
      ∧ (Text.trimStart ((below.dropWhile Text.isBlankLine).headD [])).head? = some ':'

/-- No reading stalls where the line does not start with a blank. -/
theorem not_stalls_of_flush {c : Cursor} (h : Text.Flush c.rest) : stalls c.ahead = false := by
  rcases c with ⟨_ | ⟨_ | ⟨x, text⟩, below⟩, line, column, start⟩
  · rfl
  · rfl
  · have hx : Text.isBlank x = false := Text.flush_cons.1 h
    simp [stalls, Text.isBlankLine, hx]

/-- No reading stalls where the cursor has settled. -/
theorem Settled.not_stalls {c : Cursor} (h : c.Settled) : stalls c.ahead = false := by
  apply not_stalls_of_flush
  rcases h with h | ⟨x, text, below, h, hx, -⟩
  · rw [rest, h]
    exact Text.flush_nil
  · rw [rest, h]
    exact Text.flush_cons.2 hx

/-- Skipping blanks trims the rest of the line. -/
theorem rest_skipBlanks (c : Cursor) : c.skipBlanks.rest = Text.trimStart c.rest := by
  rcases c with ⟨_ | ⟨text, below⟩, line, column, start⟩ <;> rfl

/-- One character is found at the cursor exactly if it is the first of the rest. -/
theorem startsWith_singleton {c : Cursor} {x : Char}
    : c.startsWith [x] = true ↔ c.rest.head? = some x := by
  rw [startsWith]
  cases c.rest with
  | nil => simp
  | cons y rest => simpa using (eq_comm : x = y ↔ y = x)

/-- Without a comment among them, the lines that say nothing are the blank ones, by induction on the
lines. -/
theorem dropWhile_isIdleLine {lines : List (List Char)}
    (h : (lines.takeWhile Text.isIdleLine).any Text.isCommentLine = false)
    : lines.dropWhile Text.isIdleLine = lines.dropWhile Text.isBlankLine := by
  induction lines with
  | nil => rfl
  | cons text below ih =>
      cases hb : Text.isBlankLine text with
      | true =>
          have hi : Text.isIdleLine text = true := by simp [Text.isIdleLine, hb]
          simp only [List.takeWhile_cons, hi, if_true, List.any_cons, Bool.or_eq_false_iff] at h
          simp only [List.dropWhile_cons, hi, hb, if_true, ih h.2]
      | false =>
          have hi : Text.isIdleLine text = false := by
            cases hi : Text.isIdleLine text with
            | false => rfl
            | true =>
                have hc : Text.isCommentLine text = true := by simpa [Text.isIdleLine, hb] using hi
                simp [hi, hc] at h
          simp [hi, hb]

/-- Trimming neither blanks a line nor inks it. -/
theorem isBlankLine_trimStart (text : List Char)
    : Text.isBlankLine (Text.trimStart text) = Text.isBlankLine text := by
  rw [Bool.eq_iff_iff, Text.isBlankLine_iff, Text.isBlankLine_iff,
    Text.trimStart_of_flush (Text.flush_trimStart text)]

/-- Trimming makes no difference to whether a line is a comment. -/
theorem isCommentLine_trimStart (text : List Char)
    : Text.isCommentLine (Text.trimStart text) = Text.isCommentLine text := by
  rw [Text.isCommentLine, Text.trimStart_of_flush (Text.flush_trimStart text), Text.isCommentLine]

/-- Trimming makes no difference to whether a line is idle. -/
theorem isIdleLine_trimStart (text : List Char)
    : Text.isIdleLine (Text.trimStart text) = Text.isIdleLine text := by
  rw [Text.isIdleLine, isBlankLine_trimStart, isCommentLine_trimStart, Text.isIdleLine]

/-- Blanks before a comment do not hide it. -/
theorem passesComment_skipBlanks (c : Cursor) : c.skipBlanks.passesComment = c.passesComment := by
  rw [passesComment, passesComment, ahead_skipBlanks]
  cases c.ahead with
  | nil => rfl
  | cons first below =>
      simp only [List.modifyHead_cons, List.takeWhile_cons, isIdleLine_trimStart]
      split
      · simp only [List.any_cons, isCommentLine_trimStart]
      · rfl

/-- Where no blank stands, skipping blanks does nothing. -/
theorem skipBlanks_of_flush {c : Cursor} (h : Text.Flush c.rest) : c.skipBlanks = c := by
  rcases c with ⟨_ | ⟨text, below⟩, line, column, start⟩
  · rfl
  · have hf : Text.Flush text := h
    simp only [skipBlanks, Text.trimStart_of_flush hf, Text.takeWhile_of_flush hf, List.length_nil,
      Nat.add_zero]

/-- Before ink, skipping blanks does nothing. -/
theorem skipBlanks_of_ink {c : Cursor} {x : Char} {text : List Char} {below : List (List Char)}
    (ha : c.ahead = (x :: text) :: below) (hx : Text.isBlank x = false)
    : c.skipBlanks = c := by
  apply skipBlanks_of_flush
  rw [rest, ha]
  exact Text.flush_cons.2 hx

/-- Blanks are skipped one by one. -/
theorem skipBlanks_of_blank {c : Cursor} {x : Char} {text : List Char} {below : List (List Char)}
    (ha : c.ahead = (x :: text) :: below) (hx : Text.isBlank x = true)
    : c.skipBlanks = skipBlanks { c with ahead := text :: below, column := c.column + 1 } := by
  simp [skipBlanks, ha, Text.trimStart, hx, Nat.add_assoc, Nat.add_comm 1]

/-- In a line that is not exhausted and shows no separator behind its blanks, a round only looks for
comments. -/
theorem round_of_no_separator {c : Cursor} (hr : c.rest ≠ [])
    (hs : (Text.trimStart c.rest).head? ≠ some ':')
    : c.passesSeparator = c.passesComment ∧ c.skipRound = c.skipBlanks.skipComments := by
  have hp : c.passLines List.isEmpty = c := by
    cases ha : c.ahead with
    | nil => exact passLines_nil ha
    | cons first below =>
        refine passLines_of_not ha ?_
        simpa [rest, ha] using hr
  have hl : c.atLineEnd = false := by simpa [atLineEnd] using hr
  have hs : c.skipBlanks.startsWith [':'] = false := by
    rw [Bool.eq_false_iff, Ne, startsWith_singleton, rest_skipBlanks]
    exact hs
  simp only [passesSeparator, skipRound, hp, hl, hs, passesComment_skipBlanks, Bool.false_and,
    Bool.false_eq_true, if_false, Bool.or_false, Bool.false_or, and_self]

/-- Before ink that is no comment, comment skipping does nothing. -/
theorem skipComments_skipBlanks {c : Cursor} {first : List Char} {below : List (List Char)}
    (ha : c.ahead = first :: below) (hi : Text.isIdleLine first = false)
    : c.skipBlanks.skipComments = c.skipBlanks := by
  have ht : c.skipBlanks.ahead = Text.trimStart first :: below := by
    rw [ahead_skipBlanks, ha, List.modifyHead_cons]
  rw [skipComments, passLines_of_not ht (by rwa [isIdleLine_trimStart])]
  apply skipBlanks_of_flush
  rw [rest_skipBlanks]
  exact Text.flush_trimStart c.rest

/-- From a blank line without a comment below it, comment skipping leads to the first line with
ink. -/
theorem rest_skipComments_of_blank {c : Cursor} {first : List Char} {below : List (List Char)}
    (ha : c.ahead = first :: below) (hb : Text.isBlankLine first = true)
    (hc : c.passesComment = false)
    : c.skipBlanks.skipComments.rest
      = Text.trimStart ((below.dropWhile Text.isBlankLine).headD []) := by
  rw [← passesComment_skipBlanks, passesComment] at hc
  rw [skipComments, rest_skipBlanks, rest, ahead_passLines, dropWhile_isIdleLine hc,
    ahead_skipBlanks, ha, List.modifyHead_cons,
    List.dropWhile_cons_of_pos (by rwa [isBlankLine_trimStart])]

/-- The walk ends before a separator only from a place where it stalls: all rounds but the last
leave ink at the cursor, so only the first can start among blanks. -/
theorem not_startsWith_separator_toStatement {c : Cursor} (h : stalls c.ahead = false)
    : c.toStatement.startsWith [':'] = false := by
  fun_induction toStatement c with
  | case1 c _ ih => exact ih (settled_skipRound c).not_stalls
  | case2 c hq =>
      rw [Bool.eq_false_iff, Ne, startsWith_singleton]
      intro hs
      cases ha : c.ahead with
      | nil =>
          simp [skipRound, passLines, skipBlanks, skipComments, startsWith, rest, ha] at hs
      | cons first below =>
          have hr : c.rest = first := by simp [rest, ha]
          have hne : first ≠ [] := by
            intro hn
            simp [passesSeparator, atLineEnd, atEnd, rest, ha, hn] at hq
          have hcolon : (Text.trimStart first).head? ≠ some ':' := by
            intro hcolon
            have hp : c.passLines List.isEmpty = c := passLines_of_not ha (by simpa using hne)
            rw [← hr, ← rest_skipBlanks, ← startsWith_singleton] at hcolon
            simp [passesSeparator, hp, hcolon] at hq
          -- so the last round looked for comments only, and found none
          obtain ⟨hpc, hround⟩ := round_of_no_separator (hr ▸ hne) (hr ▸ hcolon)
          rw [hpc] at hq
          cases hb : Text.isBlankLine first with
          | true =>
              rw [hround, rest_skipComments_of_blank ha hb (by simpa using hq)] at hs
              rw [ha, stalls, decide_eq_false_iff_not] at h
              exact h ⟨hne, hb, hs⟩
          | false =>
              have hi : Text.isIdleLine first = false := by
                rw [Bool.eq_false_iff]
                intro hi
                have hc : Text.isCommentLine first = true := by simpa [Text.isIdleLine, hb] using hi
                simp [passesComment, ha, hi, hc] at hq
              rw [hround, skipComments_skipBlanks ha hi, rest_skipBlanks, hr] at hs
              exact hcolon hs

/-- No comment stands before a separator that opens the first line with ink, by induction on the
lines. -/
theorem no_comment_before_separator {lines : List (List Char)}
    (h : (Text.trimStart ((lines.dropWhile Text.isBlankLine).headD [])).head? = some ':')
    : (lines.takeWhile Text.isIdleLine).any Text.isCommentLine = false := by
  induction lines with
  | nil => rfl
  | cons text below ih =>
      have hc : Text.isCommentLine text = false := by
        rw [Text.isCommentLine]
        cases ht : Text.trimStart text with
        | nil => rfl
        | cons x rest =>
            have hb : Text.isBlankLine text = false := by
              rw [Bool.eq_false_iff, Ne, Text.isBlankLine_iff, ht]
              exact List.cons_ne_nil x rest
            rw [List.dropWhile_cons_of_neg (by simp [hb]), List.headD_cons, ht] at h
            cases h
            rfl
      cases hb : Text.isBlankLine text with
      | true =>
          rw [List.dropWhile_cons_of_pos hb] at h
          simp [Text.isIdleLine, hb, hc, ih h]
      | false => simp [Text.isIdleLine, hb, hc]

/-- Where the walk stalls, its first round passes blanks only and ends before the separator. -/
theorem round_of_stalls {c : Cursor} (h : stalls c.ahead = true)
    : c.passesSeparator = false ∧ c.skipRound.startsWith [':'] = true := by
  cases ha : c.ahead with
  | nil => simp [ha, stalls] at h
  | cons first below =>
      simp only [ha, stalls, decide_eq_true_eq] at h
      obtain ⟨hne, hb, hcolon⟩ := h
      have hr : c.rest = first := by simp [rest, ha]
      have hc : c.passesComment = false := by
        rw [passesComment, ha, List.takeWhile_cons_of_pos (by simp [Text.isIdleLine, hb]),
          List.any_cons, no_comment_before_separator hcolon, Bool.or_false, Text.isCommentLine,
          Text.isBlankLine_iff.1 hb]
        rfl
      obtain ⟨hpc, hround⟩ := round_of_no_separator (hr ▸ hne)
        (by simp [hr, Text.isBlankLine_iff.1 hb])
      refine ⟨hpc.trans hc, ?_⟩
      rw [startsWith_singleton, hround, rest_skipComments_of_blank ha hb hc, hcolon]

/-- Where it stalls, the walk ends before the separator. -/
theorem startsWith_separator_toStatement {c : Cursor} (h : stalls c.ahead = true)
    : c.toStatement.startsWith [':'] = true := by
  obtain ⟨hp, hs⟩ := round_of_stalls h
  rwa [toStatement, if_neg (by simp [hp])]

-----------------------------------------------------------------------------------------
-- Where statements may start
-----------------------------------------------------------------------------------------

/-- A logical line starts at the cursor, or one is over there. -/
def Ready (c : Cursor) : Prop :=
  c.lineStart = true ∨ Boundary (Text.trimStart c.rest)

/-- Skipping blanks neither starts a logical line nor ends one. -/
theorem lineStart_skipBlanks (c : Cursor) : c.skipBlanks.lineStart = c.lineStart := by
  unfold skipBlanks
  split <;> rfl

/-- Below passed lines a logical line starts, also if one started before. -/
theorem lineStart_passLines {p : List Char → Bool} {c : Cursor}
    (h : c.lineStart = true ∨ ∃ first below, c.ahead = first :: below ∧ p first = true)
    : (c.passLines p).lineStart = true := by
  unfold passLines
  split
  · next hn =>
    rcases h with h | ⟨first, below, ha, hp⟩
    · exact h
    · simp [ha, hp] at hn
  · rfl

/-- Behind skipped comments a logical line starts if one did before or an idle line was passed. -/
theorem lineStart_skipComments {c : Cursor}
    (h : c.lineStart = true
      ∨ ∃ first below, c.ahead = first :: below ∧ Text.isIdleLine first = true)
    : c.skipComments.lineStart = true := by
  rw [skipComments, lineStart_skipBlanks]
  exact lineStart_passLines h

/-- After a round from a ready place a statement may start. The line end, the separator or the
comment that closes the logical line is passed by a different step of the round each. -/
theorem Ready.lineStart_skipRound {c : Cursor} (h : c.Ready) (ha : c.ahead ≠ [])
    : c.skipRound.lineStart = true := by
  obtain ⟨first, below, ha⟩ := List.exists_cons_of_ne_nil ha
  have hr : c.rest = first := by simp [rest, ha]
  simp only [skipRound]
  -- a line end or the start of the line was passed, or the boundary is still ahead
  by_cases hl : (c.passLines List.isEmpty).skipBlanks.lineStart = true
  · split
    · exact lineStart_skipComments (Or.inl rfl)
    · exact lineStart_skipComments (Or.inl hl)
  · rw [lineStart_skipBlanks] at hl
    have hne : first ≠ [] := by
      intro hn
      exact hl (lineStart_passLines (Or.inr ⟨first, below, ha, by simp [hn]⟩))
    have hb : Boundary (Text.trimStart first) := by
      rcases h with h | h
      · exact absurd (lineStart_passLines (Or.inl h)) hl
      · exact hr ▸ h
    rw [passLines_of_not ha (by simpa using hne)]
    have ht : c.skipBlanks.ahead = Text.trimStart first :: below := by
      rw [ahead_skipBlanks, ha, List.modifyHead_cons]
    split
    · exact lineStart_skipComments (Or.inl rfl)
    · next hs =>
      refine lineStart_skipComments (Or.inr ⟨_, below, ht, ?_⟩)
      generalize Text.trimStart first = text at hb ht
      cases hb with
      | lineEnd => rfl
      | separator rest => exact absurd (by simp [startsWith, Cursor.rest, ht]) hs
      | comment rest => rfl

/-- From a ready place the walk leads to the end of the source or to a place where a statement may
start. -/
theorem Ready.lineStart_toStatement {c : Cursor} (h : c.Ready)
    : c.toStatement.ahead = [] ∨ c.toStatement.lineStart = true := by
  fun_induction toStatement c with
  | case1 c hp ih =>
      apply ih
      refine Or.inl (h.lineStart_skipRound ?_)
      intro ha
      simp [passesSeparator, atLineEnd, atEnd, passLines, skipBlanks, startsWith, rest,
        passesComment, ha] at hp
  | case2 c _ =>
      by_cases ha : c.ahead = []
      · refine Or.inl ?_
        simp [skipRound, passLines, skipBlanks, startsWith, rest, skipComments, ha]
      · exact Or.inr (h.lineStart_skipRound ha)

/-- Before ink that continues a logical line the walk passes blanks only. -/
theorem toStatement_of_not_boundary {c : Cursor} (h : ¬Boundary (Text.trimStart c.rest))
    : c.toStatement = c.skipBlanks := by
  cases ha : c.ahead with
  | nil =>
      refine absurd ?_ h
      rw [rest, ha]
      exact .lineEnd
  | cons first below =>
      have hr : c.rest = first := by simp [rest, ha]
      rw [hr] at h
      have hi : Text.isIdleLine first = false := by
        rw [Text.isIdleLine, Bool.or_eq_false_iff]
        constructor
        · rw [Bool.eq_false_iff, Ne, Text.isBlankLine_iff]
          intro hn
          exact h (hn ▸ .lineEnd)
        · rw [Bool.eq_false_iff]
          intro hc
          obtain ⟨rest, hrest⟩ := List.isPrefixOf_iff_prefix.1 hc
          exact h (hrest ▸ .comment rest)
      have hs : (Text.trimStart first).head? ≠ some ':' := by
        intro hs
        obtain ⟨rest, hrest⟩ := List.head?_eq_some_iff.1 hs
        exact h (hrest ▸ .separator rest)
      have hne : first ≠ [] := by
        intro hn
        exact h (hn ▸ .lineEnd)
      obtain ⟨hpc, hround⟩ := round_of_no_separator (hr ▸ hne) (hr ▸ hs)
      have hc : c.passesComment = false := by simp [passesComment, ha, hi]
      rw [toStatement, if_neg (by simp [hpc, hc]), hround, skipComments_skipBlanks ha hi]

end LoopCalc.Cursor
