import LoopCalc.Source.Fault
import LoopCalc.Text.Lines

/-!
A cursor over a source text. It holds what is still ahead: the rest of the current line and all
lines below it. With it go the place and whether a logical line has just started, which is where
statements may begin.

`remaining` counts the characters and line ends ahead. No step of the cursor makes it grow, and
every step that passes something makes it smaller.
-/

namespace LoopCalc

/-- A place in a source text with what lies ahead of it. `line` and `column` count what was
passed; `ahead` is empty past the last line. -/
structure Cursor where
  ahead : List (List Char)
  line : Nat
  column : Nat
  lineStart : Bool
deriving DecidableEq

namespace Cursor

/-- The cursor at the start of a source text. -/
def ofSource (source : String) : Cursor :=
  ⟨Text.lines source.toList, 0, 0, true⟩

/-- The place of the cursor. -/
def location (c : Cursor) : Location :=
  ⟨c.line + 1, c.column + 1⟩

/-- What is left of the current line; nothing past the last line. -/
def rest (c : Cursor) : List Char :=
  c.ahead.headD []

/-- The character under the cursor. -/
def current? (c : Cursor) : Option Char :=
  c.rest.head?

/-- At or past the end of the current line. -/
def atLineEnd (c : Cursor) : Bool :=
  c.rest.isEmpty

/-- Past the last line. -/
def atEnd (c : Cursor) : Bool :=
  c.ahead.isEmpty

/-- The rest of the line starts with the text. -/
def startsWith (c : Cursor) (text : List Char) : Bool :=
  text.isPrefixOf c.rest

/-- One character further on the same line. -/
def advance (c : Cursor) : Cursor :=
  let ahead :=
    match c.ahead with
    | [] => []
    | line :: below => line.tail :: below
  { c with ahead, column := c.column + 1, lineStart := false }

/-- To the start of the next line. -/
def advanceLine (c : Cursor) : Cursor :=
  ⟨c.ahead.tail, c.line + 1, 0, true⟩

/-- A logical line starts here. -/
def startLine (c : Cursor) : Cursor :=
  { c with lineStart := true }

/-- Past the blanks on the current line. Indentation is no content: a logical line that starts
before them starts after them too. -/
def skipBlanks (c : Cursor) : Cursor :=
  match c.ahead with
  | [] => c
  | line :: below =>
      { c with
        ahead := Text.trimStart line :: below
        column := c.column + (line.takeWhile Text.isBlank).length }

/-- Past all lines, from the current one on, that satisfy `p`. -/
def passLines (p : List Char → Bool) (c : Cursor) : Cursor :=
  match c.ahead.takeWhile p with
  | [] => c
  | passed => ⟨c.ahead.dropWhile p, c.line + passed.length, 0, true⟩

/-- Past the blanks and the lines that hold nothing else. -/
def skipBlankLines (c : Cursor) : Cursor :=
  (c.passLines Text.isBlankLine).skipBlanks

/-- Past blanks, blank lines and comments. -/
def skipComments (c : Cursor) : Cursor :=
  (c.passLines Text.isIdleLine).skipBlanks

/-- Whether `skipComments` passes a comment. -/
def passesComment (c : Cursor) : Bool :=
  (c.ahead.takeWhile Text.isIdleLine).any Text.isCommentLine

/-- The text character by character, as far as it stands ahead, and whether that is all of it. -/
def take : List Char → Cursor → Bool × Cursor
  | [], c => (true, c)
  | want :: more, c => if c.current? = some want then take more c.advance else (false, c)

/-- A place where a statement, an `End` or the end of the source is looked for: past one
separator `:` and past exhausted lines, blanks and comments. -/
def skipRound (c : Cursor) : Cursor :=
  let c := (c.passLines List.isEmpty).skipBlanks
  let c := if c.startsWith [':'] then c.advance.skipBlanks.startLine else c
  c.skipComments

/-- Whether `skipRound` passes more than blanks: a line end at the cursor, a separator or a
comment. -/
def passesSeparator (c : Cursor) : Bool :=
  let line := (c.passLines List.isEmpty).skipBlanks
  let body := if line.startsWith [':'] then line.advance.skipBlanks.startLine else line
  (c.atLineEnd && !c.atEnd) || line.startsWith [':'] || body.passesComment

/-- The characters and line ends of some lines. -/
def extent : List (List Char) → Nat
  | [] => 0
  | line :: below => line.length + 1 + extent below

/-- The characters and line ends ahead. -/
def remaining (c : Cursor) : Nat :=
  extent c.ahead

/-! ### The remaining text shrinks -/

/-- Advancing leaves no more of the source, by cases on the lines ahead. -/
theorem remaining_advance_le (c : Cursor) : c.advance.remaining ≤ c.remaining := by
  cases h : c.ahead with
  | nil => simp [advance, remaining, h]
  | cons line below => simp [advance, remaining, extent, h]

/-- Advancing past a character leaves less of the source. -/
theorem remaining_advance_lt {c : Cursor} (h : c.rest ≠ [])
    : c.advance.remaining < c.remaining := by
  cases ha : c.ahead with
  | nil => simp [rest, ha] at h
  | cons line below =>
      have : 0 < line.length := List.length_pos_iff.2 (by simpa [rest, ha] using h)
      simp only [advance, remaining, extent, ha, List.length_tail]
      omega

/-- Trimming does not lengthen a line. -/
theorem length_trimStart_le (line : List Char) : (Text.trimStart line).length ≤ line.length :=
  (List.dropWhile_sublist Text.isBlank).length_le

/-- Skipping blanks leaves no more of the source. -/
theorem remaining_skipBlanks_le (c : Cursor) : c.skipBlanks.remaining ≤ c.remaining := by
  cases h : c.ahead with
  | nil => simp [skipBlanks, remaining, h]
  | cons line below =>
      have := length_trimStart_le line
      simp only [skipBlanks, remaining, extent, h]
      omega

/-- Lines that are dropped do not lengthen what is left, by induction on the lines. -/
theorem extent_dropWhile_le (p : List Char → Bool) (lines : List (List Char))
    : extent (lines.dropWhile p) ≤ extent lines := by
  induction lines with
  | nil => simp
  | cons line below ih =>
      cases h : p line with
      | false => simp [h]
      | true =>
          simp only [List.dropWhile_cons, h, if_true, extent]
          omega

/-- Passing lines leaves no more of the source. -/
theorem remaining_passLines_le (p : List Char → Bool) (c : Cursor)
    : (c.passLines p).remaining ≤ c.remaining := by
  unfold passLines
  split
  · exact Nat.le_refl _
  · exact extent_dropWhile_le p c.ahead

/-- Passing a line, even an empty one, leaves less. -/
theorem remaining_passLines_lt {p : List Char → Bool} {c : Cursor}
    (h : c.ahead.takeWhile p ≠ [])
    : (c.passLines p).remaining < c.remaining := by
  unfold passLines
  split
  · contradiction
  · cases ha : c.ahead with
    | nil => simp [ha] at h
    | cons line below =>
        have hp : p line = true := by
          cases hp : p line with
          | true => rfl
          | false => simp [ha, hp] at h
        have := extent_dropWhile_le p below
        simp only [remaining, ha, List.dropWhile_cons, hp, if_true, extent]
        omega

/-- Skipping comments leaves no more of the source, as blanks and lines do not. -/
theorem remaining_skipComments_le (c : Cursor) : c.skipComments.remaining ≤ c.remaining :=
  Nat.le_trans (remaining_skipBlanks_le _) (remaining_passLines_le _ c)

/-- Where a comment is passed, less of the source is left. -/
theorem remaining_skipComments_lt {c : Cursor} (h : c.passesComment = true)
    : c.skipComments.remaining < c.remaining := by
  refine Nat.lt_of_le_of_lt (remaining_skipBlanks_le _) (remaining_passLines_lt ?_)
  intro hn
  simp [passesComment, hn] at h

/-- There is something left on a line that starts with a text. -/
theorem rest_ne_nil_of_startsWith {c : Cursor} {x : Char} {text : List Char}
    (h : c.startsWith (x :: text) = true)
    : c.rest ≠ [] := by
  intro hn
  simp [startsWith, hn] at h

/-- Past a separator there is less ahead than before it. -/
theorem remaining_separator_lt {c : Cursor} (h : c.startsWith [':'] = true)
    : c.advance.skipBlanks.startLine.remaining < c.remaining :=
  Nat.lt_of_le_of_lt (remaining_skipBlanks_le _)
    (remaining_advance_lt (rest_ne_nil_of_startsWith h))

/-- A round of skipping leaves no more of the source. -/
theorem remaining_skipRound_le (c : Cursor) : c.skipRound.remaining ≤ c.remaining := by
  have h₁ := remaining_passLines_le List.isEmpty c
  have h₂ := remaining_skipBlanks_le (c.passLines List.isEmpty)
  simp only [skipRound]
  split
  · next h =>
    exact Nat.le_trans (remaining_skipComments_le _) (by have := remaining_separator_lt h; omega)
  · exact Nat.le_trans (remaining_skipComments_le _) (by omega)

/-- A round that passes more than blanks leaves less. -/
theorem remaining_skipRound_lt {c : Cursor} (h : c.passesSeparator = true)
    : c.skipRound.remaining < c.remaining := by
  have h₁ := remaining_passLines_le List.isEmpty c
  have h₂ := remaining_skipBlanks_le (c.passLines List.isEmpty)
  simp only [skipRound]
  split
  · next hs =>
    have h₃ := remaining_separator_lt hs
    have h₄ := remaining_skipComments_le
      (c.passLines List.isEmpty).skipBlanks.advance.skipBlanks.startLine
    omega
  · next hs =>
    have h₄ := remaining_skipComments_le (c.passLines List.isEmpty).skipBlanks
    simp only [passesSeparator, hs, Bool.or_eq_true, Bool.and_eq_true, Bool.not_eq_true',
      Bool.false_eq_true, or_false, if_false] at h
    rcases h with ⟨hl, he⟩ | hc
    · have : c.ahead.takeWhile List.isEmpty ≠ [] := by
        cases ha : c.ahead with
        | nil => simp [atEnd, ha] at he
        | cons line below =>
            have hl : line.isEmpty = true := by simpa [atLineEnd, rest, ha] using hl
            simp [hl]
      have := remaining_passLines_lt this
      omega
    · have := remaining_skipComments_lt hc
      omega

/-- To the next statement, `End` or the end of the source: rounds are repeated as long as they pass
more than blanks. -/
def toStatement (c : Cursor) : Cursor :=
  if c.passesSeparator then toStatement c.skipRound else c.skipRound
termination_by c.remaining
decreasing_by exact remaining_skipRound_lt ‹_›

/-- Going to the next statement leaves no more of the source, by induction on the rounds. -/
theorem remaining_toStatement_le (c : Cursor) : c.toStatement.remaining ≤ c.remaining := by
  fun_induction toStatement c with
  | case1 c _ ih => exact Nat.le_trans ih (remaining_skipRound_le c)
  | case2 c => exact remaining_skipRound_le c

/-- Taking a text leaves no more of the source, by induction on the text. -/
theorem remaining_take_le (text : List Char) (c : Cursor)
    : (take text c).2.remaining ≤ c.remaining := by
  induction text generalizing c with
  | nil => exact Nat.le_refl _
  | cons want more ih =>
      unfold take
      split
      · exact Nat.le_trans (ih _) (remaining_advance_le c)
      · exact Nat.le_refl _

/-- Taking a text that is there, and is not empty, leaves less of the source. -/
theorem remaining_take_lt {want : Char} {more : List Char} {c : Cursor}
    (h : (take (want :: more) c).1 = true)
    : (take (want :: more) c).2.remaining < c.remaining := by
  unfold take at h ⊢
  split
  · next hw =>
    refine Nat.lt_of_le_of_lt (remaining_take_le more _) (remaining_advance_lt ?_)
    intro hn
    simp [current?, hn] at hw
  · next hw => simp [hw] at h

end Cursor

end LoopCalc
