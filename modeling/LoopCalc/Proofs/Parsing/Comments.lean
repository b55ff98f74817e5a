import LoopCalc.Proofs.Parsing.Moving
import LoopCalc.Source.Probe

/-! What comment skipping passes, from any place of a source: blanks, line ends and comments, each
of which takes the rest of its line. It goes on until the source is over or ink stands at the cursor
that is no comment, so that there is nothing left for a second call.
-/

namespace LoopCalc.Cursor

-----------------------------------------------------------------------------------------
-- Places of a source
-----------------------------------------------------------------------------------------

/-- The cursor at any place of a source text. Behind the end of a line nothing is left of it, and
below the last line nothing lies ahead. -/
def place (source : String) (line column : Nat) (lineStart : Bool) : Cursor :=
  ⟨((source.toList.splitOn '\n').drop line).modifyHead (List.drop column), line, column, lineStart⟩

/-- Everything ahead, each line with its line end. The last line counts as closed by one, too. -/
def textAhead (c : Cursor) : List Char :=
  c.ahead.flatMap (· ++ ['\n'])

variable {source : String} {c middle next : Cursor}

/-- A cursor on a source is decided by its place, and by whether a logical line starts there. -/
theorem On.eq_place (h : c.On (source.toList.splitOn '\n'))
    : c = place source c.line c.column c.lineStart := by
  rw [place, ← h]

/-- No line end stands within a line. -/
theorem On.inline {first : List Char} {below : List (List Char)}
    (h : c.On (source.toList.splitOn '\n')) (ha : c.ahead = first :: below)
    : '\n' ∉ first := by
  obtain ⟨line, hline, rfl, -⟩ := h.exists_line ha
  exact fun hm => Text.not_mem_of_mem_splitOn (List.mem_of_getElem? hline) (List.mem_of_mem_drop hm)

-----------------------------------------------------------------------------------------
-- What is passed
-----------------------------------------------------------------------------------------

/-- What comment skipping may pass: a blank, a line end, or a comment with the rest of its line. -/
inductive Idle where
  | blank (c : Char) (isBlank : Text.isBlank c = true) (inline : c ≠ '\n')
  | lineEnd
  | comment (text : List Char) (inline : '\n' ∉ text)

namespace Idle

def chars : Idle → List Char
  | blank c _ _ => [c]
  | lineEnd => ['\n']
  | comment text _ => '/' :: '/' :: (text ++ ['\n'])

def isComment : Idle → Bool
  | comment _ _ => true
  | _ => false

end Idle

/-- The cursor gets from one place of the source to the other by passing the given pieces. A logical
line starts there exactly if one did before or the line has changed. -/
structure Passes (source : String) (c : Cursor) (passed : List Idle) (next : Cursor) : Prop where
  place_eq : next = place source next.line next.column next.lineStart
  text_eq : c.textAhead = passed.flatMap Idle.chars ++ next.textAhead
  location_eq : next.location = c.location.past (passed.flatMap Idle.chars)
  line_le : c.line ≤ next.line
  lineStart_iff : next.lineStart = true ↔ c.lineStart = true ∨ next.line ≠ c.line

/-- Whatever is passed, the cursor stays on the source. -/
theorem Passes.on {passed : List Idle} (h : Passes source c passed next)
    : next.On (source.toList.splitOn '\n') :=
  congrArg Cursor.ahead h.place_eq

/-- From a place to itself nothing is passed. -/
theorem Passes.refl (h : c.On (source.toList.splitOn '\n')) : Passes source c [] c where
  place_eq := h.eq_place
  text_eq := rfl
  location_eq := rfl
  line_le := Nat.le_refl _
  lineStart_iff := by simp

/-- What is passed up to a place in between, and from there on, is passed in all. -/
theorem Passes.trans {passed more : List Idle} (h : Passes source c passed middle)
    (hm : Passes source middle more next)
    : Passes source c (passed ++ more) next where
  place_eq := hm.place_eq
  text_eq := by rw [h.text_eq, hm.text_eq, List.flatMap_append, List.append_assoc]
  location_eq := by
    rw [hm.location_eq, h.location_eq, List.flatMap_append, Location.past_append]
  line_le := Nat.le_trans h.line_le hm.line_le
  lineStart_iff := by
    have hle := h.line_le
    have hle' := hm.line_le
    rw [hm.lineStart_iff, h.lineStart_iff]
    constructor
    · rintro ((hl | hl) | hl)
      · exact Or.inl hl
      · exact Or.inr (by omega)
      · exact Or.inr (by omega)
    · rintro (hl | hl)
      · exact Or.inl (Or.inl hl)
      · by_cases hmiddle : middle.line = c.line
        · exact Or.inr (by omega)
        · exact Or.inl (Or.inr hmiddle)

-----------------------------------------------------------------------------------------
-- One piece
-----------------------------------------------------------------------------------------

/-- Passing one blank is passing a piece. -/
theorem passes_blank {x : Char} {rest : List Char} {below : List (List Char)}
    (h : c.On (source.toList.splitOn '\n')) (ha : c.ahead = (x :: rest) :: below)
    (hx : Text.isBlank x = true) (hinline : x ≠ '\n')
    : Passes source c [.blank x hx hinline]
        { c with ahead := rest :: below, column := c.column + 1 } where
  place_eq := (h.move (.char ha)).eq_place
  text_eq := by simp [textAhead, ha, Idle.chars]
  location_eq := by simp [Idle.chars, location, Location.past, hinline]
  line_le := Nat.le_refl _
  lineStart_iff := by simp

/-- To the line below, past a piece that is all that is left of the line. -/
theorem passes_lineEnd {piece : Idle} {first : List Char} {below : List (List Char)}
    (h : c.On (source.toList.splitOn '\n')) (ha : c.ahead = first :: below)
    (hpiece : piece.chars = first ++ ['\n'])
    : Passes source c [piece] c.advanceLine where
  place_eq := (h.moves (moves_advanceLine (by simp [ha]))).eq_place
  text_eq := by simp [textAhead, advanceLine, ha, hpiece]
  location_eq := by
    rw [List.flatMap_singleton, hpiece, Location.past_append,
      Location.past_of_not_mem (h.inline ha)]
    rfl
  line_le := Nat.le_succ _
  lineStart_iff := by simp [advanceLine]

-----------------------------------------------------------------------------------------
-- Whole calls
-----------------------------------------------------------------------------------------

/-- The blanks of the line are passed one by one, by induction on the line. -/
theorem passes_skipBlanks (h : c.On (source.toList.splitOn '\n'))
    : ∃ passed, Passes source c passed c.skipBlanks ∧ passed.any Idle.isComment = false := by
  rcases c with ⟨_ | ⟨text, below⟩, line, column, start⟩
  · exact ⟨[], .refl h, rfl⟩
  induction text generalizing column with
  | nil => exact ⟨[], .refl h, rfl⟩
  | cons x rest ih =>
      cases hx : Text.isBlank x with
      | false =>
          rw [skipBlanks_of_ink rfl hx]
          exact ⟨[], .refl h, rfl⟩
      | true =>
          have hinline : x ≠ '\n' := by
            have hline := h.inline rfl
            rintro rfl
            exact hline List.mem_cons_self
          have hblank := passes_blank h rfl hx hinline
          obtain ⟨passed, hpassed, hnone⟩ := ih (column + 1) hblank.on
          rw [skipBlanks_of_blank rfl hx]
          exact ⟨_, hblank.trans hpassed, hnone⟩

/-- A line that says nothing is passed with its line end: its blanks come first, and behind them
there is nothing or a comment. -/
theorem passes_advanceLine {first : List Char} {below : List (List Char)}
    (h : c.On (source.toList.splitOn '\n')) (ha : c.ahead = first :: below)
    (hi : Text.isIdleLine first = true)
    : ∃ passed,
        Passes source c passed c.advanceLine
        ∧ passed.any Idle.isComment = Text.isCommentLine first := by
  obtain ⟨blanks, hblanks, hnone⟩ := passes_skipBlanks h
  have hrest : c.skipBlanks.ahead = Text.trimStart first :: below := by
    rw [ahead_skipBlanks, ha, List.modifyHead_cons]
  have hdown : c.skipBlanks.advanceLine = c.advanceLine := by
    rw [advanceLine, advanceLine, hrest, skipBlanks, ha]
    rfl
  -- whatever is left of the line behind the blanks
  have hlast (piece : Idle) (hpiece : piece.chars = Text.trimStart first ++ ['\n'])
      : ∃ passed,
          Passes source c passed c.advanceLine
          ∧ passed.any Idle.isComment = piece.isComment := by
    refine ⟨blanks ++ [piece], ?_, by simp [hnone]⟩
    rw [← hdown]
    exact hblanks.trans (passes_lineEnd hblanks.on hrest hpiece)
  cases hc : Text.isCommentLine first with
  | true =>
      obtain ⟨text, htext⟩ := List.isPrefixOf_iff_prefix.1 hc
      have hinline : '\n' ∉ text := by
        have hline := hblanks.on.inline hrest
        rw [← htext] at hline
        exact fun hm => hline (List.mem_append_right _ hm)
      exact hlast (.comment text hinline) (by rw [← htext]; rfl)
  | false =>
      have hb : Text.isBlankLine first = true := by simpa [Text.isIdleLine, hc] using hi
      exact hlast .lineEnd (by rw [Text.isBlankLine_iff.1 hb]; rfl)

/-- Lines that say nothing are passed one after the other, by induction on the lines ahead. -/
theorem passes_passLines (h : c.On (source.toList.splitOn '\n'))
    : ∃ passed,
        Passes source c passed (c.passLines Text.isIdleLine)
        ∧ passed.any Idle.isComment = c.passesComment := by
  rw [passesComment]
  generalize ha : c.ahead = lines
  induction lines generalizing c with
  | nil =>
      rw [passLines_nil ha]
      exact ⟨[], .refl h, rfl⟩
  | cons first below ih =>
      cases hi : Text.isIdleLine first with
      | false =>
          rw [passLines_of_not ha hi]
          exact ⟨[], .refl h, by simp [hi]⟩
      | true =>
          have hbelow : c.advanceLine.ahead = below := by rw [advanceLine, ha]; rfl
          obtain ⟨front, hfront, hf⟩ := passes_advanceLine h ha hi
          obtain ⟨passed, hpassed, hp⟩ := ih hfront.on hbelow
          rw [passLines_of_pos ha hi, List.takeWhile_cons_of_pos hi, List.any_cons]
          exact ⟨front ++ passed, hfront.trans hpassed, by rw [List.any_append, hf, hp]⟩

/-- Skipping comments passes pieces, and tells whether a comment is among them. Its blanks and its
lines are passed one after the other. -/
theorem passes_skipComments (h : c.On (source.toList.splitOn '\n'))
    : ∃ passed,
        Passes source c passed c.skipComments
        ∧ passed.any Idle.isComment = c.passesComment := by
  obtain ⟨passed, hpassed, hp⟩ := passes_passLines h
  obtain ⟨blanks, hblanks, hnone⟩ := passes_skipBlanks hpassed.on
  exact ⟨passed ++ blanks, hpassed.trans hblanks, by rw [List.any_append, hp, hnone, Bool.or_false]⟩

/-- Where the source is over, or before ink that is no comment, there is nothing to skip. -/
theorem Settled.skipComments_eq (h : c.Settled)
    : c.skipComments = c ∧ c.passesComment = false := by
  rcases h with ha | ⟨x, text, below, ha, hx, hc⟩
  · have hstays : c.passLines Text.isIdleLine = c := passLines_nil ha
    have hflush : Text.Flush c.rest := by
      rw [rest, ha]
      exact Text.flush_nil
    rw [skipComments, hstays, passesComment, ha]
    exact ⟨skipBlanks_of_flush hflush, rfl⟩
  · have hflush : Text.Flush (x :: text) := Text.flush_cons.2 hx
    have hi : Text.isIdleLine (x :: text) = false := by
      simp [Text.isIdleLine, Text.isBlankLine, hx, Text.isCommentLine,
        Text.trimStart_of_flush hflush, hc]
    rw [skipComments, passLines_of_not ha hi, passesComment, ha]
    exact ⟨skipBlanks_of_ink ha hx, by simp [hi]⟩

/-- From any place of any source, on its lines or behind their ends, and whether or not a logical
line starts there: skipping comments passes blanks, line ends and comments only, and tells whether a
comment was among them. It stops at the end of the source or before ink that opens no comment, and a
second call does nothing. A logical line starts where it stops exactly if one did before or the line
has changed. -/
theorem skipComments_passes_idle (source : String) (line column : Nat) (lineStart : Bool)
    : ∃ passed next,
        Probe.run .silent .skipComments (place source line column lineStart)
          = (.flag (passed.any Idle.isComment), next)
        ∧ Passes source (place source line column lineStart) passed next
        ∧ next.Settled
        ∧ Probe.run .silent .skipComments next = (.flag false, next) := by
  have hon : (place source line column lineStart).On (source.toList.splitOn '\n') := rfl
  have hsettled := settled_skipComments (place source line column lineStart)
  obtain ⟨passed, hpassed, hp⟩ := passes_skipComments hon
  obtain ⟨hstays, hnone⟩ := hsettled.skipComments_eq
  refine ⟨passed, _, ?_, hpassed, hsettled, ?_⟩
  · rw [hp]
    rfl
  · rw [Probe.run, Probe.look, hstays, hnone]

end LoopCalc.Cursor
