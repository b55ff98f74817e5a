import LoopCalc.Proofs.Highlight.Tokens
import LoopCalc.Proofs.Parsing.Walking

/-! What the highlighter shows of the text between two pieces, which a cursor walks over: no value
and no keyword, and as comments exactly the lines that the walk passes as comments. This needs that
two slashes only stand in comment lines, since the highlighter knows no comment behind a statement.
-/

namespace LoopCalc

namespace Screen.Highlight

-----------------------------------------------------------------------------------------
-- Tidy lines
-----------------------------------------------------------------------------------------

/-- Two slashes stand in the line only if it is a comment line. -/
def Tidy (line : List Char) : Prop :=
  ['/', '/'] <:+: line → Text.isCommentLine line = true

/-- Behind anything but blanks, no two slashes stand in a tidy line. -/
theorem Tidy.not_infix {line rest : List Char} (h : Tidy line)
    (hline : Text.isCommentLine line = false) (hsuffix : rest <:+ line)
    : ¬['/', '/'] <:+: rest := by
  intro hslashes
  rw [h (hslashes.trans hsuffix.isInfix)] at hline
  cases hline

/-- A line without two slashes is no comment line. -/
theorem isCommentLine_of_not_infix {line : List Char} (h : ¬['/', '/'] <:+: line)
    : Text.isCommentLine line = false := by
  rw [Bool.eq_false_iff]
  intro hc
  have hsuffix : Text.trimStart line <:+ line := List.dropWhile_suffix _
  exact h ((List.isPrefixOf_iff_prefix.1 hc).isInfix.trans hsuffix.isInfix)

/-- Trimming keeps a line tidy, as the slashes that it has stay at its front. -/
theorem Tidy.trimStart {line : List Char} (h : Tidy line) : Tidy (Text.trimStart line) := by
  intro hslashes
  have hsuffix : Text.trimStart line <:+ line := List.dropWhile_suffix _
  rw [Cursor.isCommentLine_trimStart]
  exact h (hslashes.trans hsuffix.isInfix)

/-- A line that starts with neither a blank nor a slash is no comment line. -/
theorem isCommentLine_cons {c : Char} (hb : Text.isBlank c = false) (hc : c ≠ '/')
    (rest : List Char)
    : Text.isCommentLine (c :: rest) = false := by
  rw [Text.isCommentLine, Text.trimStart_of_flush (Text.flush_cons.2 hb), List.isPrefixOf,
    beq_eq_false_iff_ne.2 (Ne.symm hc), Bool.false_and]

-----------------------------------------------------------------------------------------
-- What is shown of a line
-----------------------------------------------------------------------------------------

/-- The values and keywords that are shown in a line. -/
def lineMarks (text : List Char) : List Token :=
  (line text).filter Token.isMark

/-- Neither values nor keywords are shown in a comment line. -/
theorem lineMarks_of_isCommentLine {text : List Char} (h : Text.isCommentLine text = true)
    : lineMarks text = [] := by
  rw [lineMarks, line, if_pos h]
  rfl

/-- In any other line they are shown where they are. -/
theorem lineMarks_of_not {text : List Char} (h : Text.isCommentLine text = false)
    : lineMarks text = marks text := by
  rw [lineMarks, line, if_neg (by simp [h]), marks]

/-- Trimming takes neither values nor keywords away. -/
theorem lineMarks_trimStart (text : List Char)
    : lineMarks (Text.trimStart text) = lineMarks text := by
  have htrim := Cursor.isCommentLine_trimStart text
  cases hc : Text.isCommentLine text with
  | true =>
      rw [lineMarks_of_isCommentLine hc, lineMarks_of_isCommentLine (htrim.trans hc)]
  | false =>
      rw [lineMarks_of_not hc, lineMarks_of_not (htrim.trans hc),
        ← marks_blanks (Text.leading text), Text.leading_append_trimStart]

/-- An idle line shows neither values nor keywords, be it blank or a comment. -/
theorem lineMarks_of_isIdleLine {text : List Char} (h : Text.isIdleLine text = true)
    : lineMarks text = [] := by
  rw [Text.isIdleLine, Bool.or_eq_true] at h
  rcases h with hb | hc
  · rw [← lineMarks_trimStart, Text.isBlankLine_iff.1 hb, lineMarks_of_not rfl, marks, tokens]
    rfl
  · exact lineMarks_of_isCommentLine hc

/-- No token of a word is a comment, by induction on the letters. -/
theorem isComment_of_mem_names {t : Token} {letters : List Char} (h : t ∈ names letters)
    : t.isComment = false := by
  fun_induction names letters with
  | case1 => cases h
  | case2 c rest v _ ih =>
      rcases List.mem_cons.1 h with rfl | h
      · rfl
      · exact ih h
  | case3 c rest _ ih =>
      rcases List.mem_cons.1 h with rfl | h
      · rfl
      · exact ih h

/-- Nothing looks like a comment outside of comment lines, by induction on the text. -/
theorem isComment_of_mem_tokens {t : Token} {text : List Char} (h : t ∈ tokens text)
    : t.isComment = false := by
  fun_induction tokens text with
  | case1 => cases h
  | case2 c rest _ ih =>
      rcases List.mem_cons.1 h with rfl | h
      · rfl
      · exact ih h
  | case3 c rest _ _ after ih =>
      rcases List.mem_append.1 h with h | h
      · rw [word] at h
        split at h
        · obtain rfl := List.mem_singleton.1 h
          rfl
        · exact isComment_of_mem_names h
      · exact ih h
  | case4 c rest _ _ ih =>
      rcases List.mem_cons.1 h with rfl | h
      · rw [Role.ofSymbol]
        split
        · rfl
        · split <;> rfl
      · exact ih h

/-- The lines that look like comments are the comment lines. -/
theorem any_isComment_line (text : List Char)
    : (line text).any Token.isComment = Text.isCommentLine text := by
  rw [line]
  cases hc : Text.isCommentLine text with
  | true => rfl
  | false =>
      rw [if_neg Bool.false_ne_true, List.any_eq_false]
      intro t ht
      simp [isComment_of_mem_tokens ht]

end Screen.Highlight

/-- The numbers of the lines that satisfy `p`, below the given number of lines. -/
def Text.numbersOf (p : List Char → Bool) : Nat → List (List Char) → List Nat
  | _, [] => []
  | above, line :: below =>
      (if p line then [above + 1] else []) ++ numbersOf p (above + 1) below

namespace Cursor

open Screen.Highlight

-----------------------------------------------------------------------------------------
-- The comments that a walk passes
-----------------------------------------------------------------------------------------

/-- The comment lines that `skipComments` passes. -/
def passedComments (c : Cursor) : List Nat :=
  Text.numbersOf Text.isCommentLine c.line (c.ahead.takeWhile Text.isIdleLine)

/-- The comment lines that `skipRound` passes. -/
def roundComments (c : Cursor) : List Nat :=
  let line := (c.passLines List.isEmpty).skipBlanks
  let body := if line.startsWith [':'] then line.advance.skipBlanks.startLine else line
  body.passedComments

/-- The comment lines that `toStatement` passes, round by round. -/
def walkComments (c : Cursor) : List Nat :=
  if c.passesSeparator then c.roundComments ++ walkComments c.skipRound else c.roundComments
termination_by c.remaining
decreasing_by exact remaining_skipRound_lt ‹_›

-----------------------------------------------------------------------------------------
-- Walks over gaps
-----------------------------------------------------------------------------------------

/-- All lines ahead are tidy. -/
def IsTidy (c : Cursor) : Prop :=
  ∀ line ∈ c.ahead, Tidy line

/-- The values and keywords that are shown ahead. -/
def shown (c : Cursor) : List Token :=
  c.ahead.flatMap lineMarks

/-- The comment lines ahead. -/
def comments (c : Cursor) : List Nat :=
  Text.numbersOf Text.isCommentLine c.line c.ahead

/-- From one place to the other stand no values and no keywords, and just the given comment
lines. -/
structure Skims (c : Cursor) (comments : List Nat) (next : Cursor) : Prop where
  tidy : next.IsTidy
  shown_eq : c.shown = next.shown
  comments_eq : c.comments = comments ++ next.comments

/-- Nothing stands between a place and itself. -/
theorem Skims.refl {c : Cursor} (h : c.IsTidy) : c.Skims [] c :=
  ⟨h, rfl, rfl⟩

/-- What stands between two places is what stands up to a third between them, and from there on. -/
theorem Skims.trans {c middle next : Cursor} {comments more : List Nat}
    (h : c.Skims comments middle) (hm : middle.Skims more next)
    : c.Skims (comments ++ more) next where
  tidy := hm.tidy
  shown_eq := h.shown_eq.trans hm.shown_eq
  comments_eq := by rw [h.comments_eq, hm.comments_eq, List.append_assoc]

/-- Skipping blanks skims over no comment lines. -/
theorem skims_skipBlanks {c : Cursor} (h : c.IsTidy) : c.Skims [] c.skipBlanks := by
  rcases c with ⟨_ | ⟨text, below⟩, number, column, start⟩
  · exact .refl h
  · obtain ⟨hfirst, hbelow⟩ := List.forall_mem_cons.1 h
    refine ⟨List.forall_mem_cons.2 ⟨hfirst.trimStart, hbelow⟩, ?_, ?_⟩
    · simp only [shown, skipBlanks, List.flatMap_cons, lineMarks_trimStart]
    · simp only [comments, skipBlanks, Text.numbersOf, isCommentLine_trimStart, List.nil_append]

/-- Passing an idle line skims over it, and over one comment line if it is one. -/
theorem skims_advanceLine {c : Cursor} {first : List Char} {below : List (List Char)}
    (h : c.IsTidy) (ha : c.ahead = first :: below) (hi : Text.isIdleLine first = true)
    : c.Skims (if Text.isCommentLine first then [c.line + 1] else []) c.advanceLine := by
  rw [IsTidy, ha] at h
  refine ⟨?_, ?_, ?_⟩
  · rw [IsTidy, advanceLine, ha]
    exact (List.forall_mem_cons.1 h).2
  · rw [shown, ha, List.flatMap_cons, lineMarks_of_isIdleLine hi, shown, advanceLine, ha]
    rfl
  · rw [comments, ha, Text.numbersOf, comments, advanceLine, ha]
    rfl

/-- Lines that say nothing are passed one after the other, by induction on them. -/
theorem skims_passLines {p : List Char → Bool}
    (hp : ∀ text, p text = true → Text.isIdleLine text = true) {c : Cursor} (h : c.IsTidy)
    : c.Skims (Text.numbersOf Text.isCommentLine c.line (c.ahead.takeWhile p)) (c.passLines p) := by
  generalize ha : c.ahead = lines
  induction lines generalizing c with
  | nil =>
      rw [passLines_nil ha]
      exact .refl h
  | cons first below ih =>
      cases hf : p first with
      | false =>
          rw [passLines_of_not ha hf, List.takeWhile_cons_of_neg (by simp [hf])]
          exact .refl h
      | true =>
          have hbelow : c.advanceLine.ahead = below := by rw [advanceLine, ha]; rfl
          have hone := skims_advanceLine h ha (hp first hf)
          rw [passLines_of_pos ha hf, List.takeWhile_cons_of_pos hf, Text.numbersOf]
          exact hone.trans (ih hone.tidy hbelow)

/-- Skipping comments skims over the comment lines that it passes. -/
theorem skims_skipComments {c : Cursor} (h : c.IsTidy)
    : c.Skims c.passedComments c.skipComments := by
  have hlines := skims_passLines (fun _ hi => hi) h
  have hblanks := hlines.trans (skims_skipBlanks hlines.tidy)
  rwa [List.append_nil] at hblanks

/-- Behind a separator a tidy line has no comment. -/
theorem skims_separator {c : Cursor} (h : c.IsTidy) (hs : c.startsWith [':'] = true)
    : c.Skims [] c.advance.startLine := by
  obtain ⟨rest, below, ha⟩ := ahead_of_startsWith hs
  have hcolon : IsSymbol ':' := ⟨by decide, by decide⟩
  have hline : Text.isCommentLine (':' :: rest) = false :=
    isCommentLine_cons (by decide) (by decide) rest
  rw [IsTidy, ha] at h
  obtain ⟨hfirst, hbelow⟩ := List.forall_mem_cons.1 h
  have hplain : ¬['/', '/'] <:+: rest := hfirst.not_infix hline (List.suffix_cons ':' rest)
  have hrest := isCommentLine_of_not_infix hplain
  have hnext : c.advance.startLine.ahead = rest :: below := by
    rw [startLine, advance, ha]
    rfl
  refine ⟨?_, ?_, ?_⟩
  · rw [IsTidy, hnext]
    exact List.forall_mem_cons.2 ⟨fun hslashes => absurd hslashes hplain, hbelow⟩
  · rw [shown, ha, shown, hnext, List.flatMap_cons, List.flatMap_cons, lineMarks_of_not hrest]
    exact congrArg (· ++ _) ((lineMarks_of_not hline).trans (marks_symbol hcolon rest))
  · have hnumber : c.advance.startLine.line = c.line := rfl
    rw [comments, ha, comments, hnext, hnumber, Text.numbersOf, Text.numbersOf, hrest]
    exact congrArg (fun b => (if b = true then _ else _) ++ _) hline

/-- There are no comment lines among empty lines, by induction on the lines. -/
theorem numbersOf_takeWhile_isEmpty (above : Nat) (lines : List (List Char))
    : Text.numbersOf Text.isCommentLine above (lines.takeWhile List.isEmpty) = [] := by
  induction lines generalizing above with
  | nil => rfl
  | cons first below ih =>
      cases hf : first.isEmpty with
      | false =>
          rw [List.takeWhile_cons_of_neg (by simp [hf])]
          rfl
      | true =>
          rw [List.takeWhile_cons_of_pos hf, Text.numbersOf, ih, List.isEmpty_iff.1 hf]
          rfl

/-- A round of skipping skims over the comment lines that it passes. -/
theorem skims_skipRound {c : Cursor} (h : c.IsTidy) : c.Skims c.roundComments c.skipRound := by
  have hempty := skims_passLines (fun _ => isIdleLine_of_isEmpty) h
  rw [numbersOf_takeWhile_isEmpty] at hempty
  have hline := hempty.trans (skims_skipBlanks hempty.tidy)
  unfold skipRound roundComments
  dsimp only
  split
  · next hs =>
    have hseparator := hline.trans (skims_separator hline.tidy hs)
    have hbody := hseparator.trans (skims_skipBlanks hseparator.tidy)
    rw [skipBlanks_startLine]
    exact hbody.trans (skims_skipComments hbody.tidy)
  · exact hline.trans (skims_skipComments hline.tidy)

/-- The walk to the next statement, by induction on its rounds. -/
theorem skims_toStatement {c : Cursor} (h : c.IsTidy) : c.Skims c.walkComments c.toStatement := by
  fun_induction toStatement c with
  | case1 c hq ih =>
      have hround := skims_skipRound h
      rw [walkComments, if_pos hq]
      exact hround.trans (ih hround.tidy)
  | case2 c hq =>
      rw [walkComments, if_neg hq]
      exact skims_skipRound h

end Cursor

end LoopCalc
