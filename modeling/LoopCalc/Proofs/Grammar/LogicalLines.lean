import LoopCalc.Proofs.Grammar.LineByLine
import LoopCalc.Proofs.Text.Trimming

/-! What the characters at the front of a text do to its logical lines. Blanks, separators, comments
and line ends only move the place; any other text is one logical line, up to where it ends.
-/

namespace LoopCalc.Text

/-- Text without the separator belongs to the first field, by induction on that text. -/
theorem splitOn_append_of_not_mem {a : Char} {front : List Char} (h : a ∉ front)
    (cs : List Char)
    : (front ++ cs).splitOn a = (cs.splitOn a).modifyHead (front ++ ·) := by
  induction front with
  | nil =>
      rw [List.nil_append]
      cases cs.splitOn a <;> rfl
  | cons c front ih =>
      simp only [List.mem_cons, not_or] at h
      rw [List.cons_append, List.splitOn_cons_eq_if_modifyHead,
        if_neg (by simpa using Ne.symm h.1), ih h.2]
      cases cs.splitOn a <;> rfl

/-- There is always a first field. -/
theorem exists_splitOn_eq_cons (a : Char) (cs : List Char)
    : ∃ field more, cs.splitOn a = field :: more :=
  List.exists_cons_of_ne_nil (List.splitOn_ne_nil a cs)

/-- The lines of a text are what its line ends separate, by induction on the text. -/
theorem lines_eq_splitOn (cs : List Char) : lines cs = cs.splitOn '\n' := by
  induction cs with
  | nil => rfl
  | cons c rest ih =>
      rw [lines, List.splitOn_cons_eq_if_modifyHead, ih]
      by_cases hc : c = '\n'
      · simp [hc]
      · obtain ⟨line, below, hl⟩ := exists_splitOn_eq_cons '\n' rest
        simp [hc, hl]

/-- A line end closes all lines before it. -/
theorem lines_append_lineEnd (front back : List Char)
    : lines (front ++ '\n' :: back) = lines front ++ lines back := by
  rw [lines_eq_splitOn, lines_eq_splitOn, lines_eq_splitOn, List.splitOn_append_cons_self]

/-- Text without line ends belongs to the first line. -/
theorem lines_append_of_not_mem {front : List Char} (h : '\n' ∉ front) (cs : List Char)
    : lines (front ++ cs) = (lines cs).modifyHead (front ++ ·) := by
  rw [lines_eq_splitOn, lines_eq_splitOn, splitOn_append_of_not_mem h]

/-- A text without a line feed is one line. -/
theorem lines_of_not_mem {text : List Char} (h : '\n' ∉ text) : lines text = [text] := by
  have hl := lines_append_of_not_mem h []
  rwa [List.append_nil, lines, List.modifyHead_cons, List.append_nil] at hl

/-- Every text has a line. -/
theorem lines_ne_nil (cs : List Char) : lines cs ≠ [] := by
  rw [lines_eq_splitOn]
  exact List.splitOn_ne_nil '\n' cs

/-- No other character stands among blanks. -/
theorem Blanks.not_mem (b : Blanks) {c : Char} (hc : isBlank c = false) : c ∉ b.chars := by
  intro h
  simp [b.blank c h] at hc

end LoopCalc.Text

namespace LoopCalc.LineByLine

open Text (Blanks)

/-- A character other than a slash is kept, since no comment starts with it. -/
theorem uncommented_cons_of_ne {c : Char} (hc : c ≠ '/') (rest : List Char)
    : uncommented (c :: rest) = c :: uncommented rest := by
  simp [uncommented, Ne.symm hc]

/-- The logical lines of a source are those of its lines, from the first column on. -/
theorem logicalLines_eq (source : String)
    : logicalLines source = ofLines 0 0 (Text.lines source.toList) := by
  rw [logicalLines, Text.lines_eq_splitOn]

/-- A comment cannot start inside text without a slash, by induction on that text. -/
theorem uncommented_append {front : List Char} (h : '/' ∉ front) (cs : List Char)
    : uncommented (front ++ cs) = front ++ uncommented cs := by
  induction front with
  | nil => rfl
  | cons c front ih =>
      simp only [List.mem_cons, not_or] at h
      rw [List.cons_append, uncommented_cons_of_ne (Ne.symm h.1), ih h.2, List.cons_append]

/-- A place where a logical line is over: the line ends, or a separator or a comment follows. -/
inductive Boundary : List Char → Prop
  | lineEnd : Boundary []
  | separator (rest : List Char) : Boundary (':' :: rest)
  | comment (rest : List Char) : Boundary ('/' :: '/' :: rest)

/-- What comes before the next separator is empty at a boundary. -/
theorem Boundary.splitOn_uncommented {cs : List Char} (h : Boundary cs)
    : ∃ more, (uncommented cs).splitOn ':' = [] :: more := by
  cases h with
  | lineEnd => exact ⟨[], rfl⟩
  | separator rest =>
      refine ⟨(uncommented rest).splitOn ':', ?_⟩
      rw [uncommented_cons_of_ne (by decide), List.splitOn_cons_eq_if_modifyHead]
      rfl
  | comment rest => exact ⟨[], rfl⟩

/-- A boundary is not blank. -/
theorem Boundary.flush {cs : List Char} (h : Boundary cs) : Text.Flush cs := by
  cases h with
  | lineEnd => exact Text.flush_nil
  | separator => exact Text.flush_cons.2 (by decide)
  | comment => exact Text.flush_cons.2 (by decide)

/-- Only a separator or a slash can stand where a logical line is over. -/
theorem Boundary.head?_ne {cs : List Char} (h : Boundary cs) {c : Char} (hs : c ≠ ':')
    (hm : c ≠ '/')
    : cs.head? ≠ some c := by
  cases h with
  | lineEnd => simp
  | separator => simpa using Ne.symm hs
  | comment => simpa using Ne.symm hm

/-- Blanks before a field only move its place. -/
theorem ofField_blanks_append (line column : Nat) (b : Blanks) (field : List Char)
    : ofField line (column, b.chars ++ field) = ofField line (column + b.chars.length, field) := by
  simp only [ofField, Text.trim_blanks_append, Text.takeWhile_blanks_append, List.length_append]
  split
  · rfl
  · simp only [Option.some.injEq, LogicalLine.mk.injEq, Location.mk.injEq, true_and, and_true]
    omega

/-- An empty field holds no logical line. -/
theorem ofField_nil (line column : Nat) : ofField line (column, []) = none := rfl

/-- An empty line holds no logical line. -/
@[simp]
theorem ofLine_nil (line column : Nat) : ofLine line column [] = [] := rfl

/-- A comment holds no logical line. -/
@[simp]
theorem ofLine_comment (line column : Nat) (rest : List Char)
    : ofLine line column ('/' :: '/' :: rest) = [] := rfl

/-- Blanks at the front of a line only move the columns. -/
theorem ofLine_blanks_append (line column : Nat) (b : Blanks) (rest : List Char)
    : ofLine line column (b.chars ++ rest) = ofLine line (column + b.chars.length) rest := by
  obtain ⟨field, more, hs⟩ := Text.exists_splitOn_eq_cons ':' (uncommented rest)
  rw [ofLine, ofLine, uncommented_append (b.not_mem (by decide)),
    Text.splitOn_append_of_not_mem (b.not_mem (by decide)), hs]
  simp only [List.modifyHead_cons, placed, List.filterMap_cons, ofField_blanks_append,
    List.length_append, Nat.add_assoc]

/-- Trimming the front of a line changes nothing, if the columns are counted on. -/
theorem ofLine_trimStart (line column : Nat) (text : List Char)
    : ofLine line (column + (text.takeWhile Text.isBlank).length) (Text.trimStart text)
      = ofLine line column text := by
  have h := ofLine_blanks_append line column (Text.leading text) (Text.trimStart text)
  rw [Text.leading_append_trimStart] at h
  exact h.symm

/-- A separator at the front of a line only moves the columns, since the field before it is empty.
-/
theorem ofLine_separator (line column : Nat) (rest : List Char)
    : ofLine line column (':' :: rest) = ofLine line (column + 1) rest := by
  rw [ofLine, uncommented_cons_of_ne (by decide), List.splitOn_cons_eq_if_modifyHead]
  rw [if_pos (by decide), placed, List.filterMap_cons_none (ofField_nil line column)]
  rfl

/-- A line that holds nothing for a reader has no logical lines. -/
theorem ofLine_of_isIdleLine {text : List Char} (h : Text.isIdleLine text = true)
    (line column : Nat)
    : ofLine line column text = [] := by
  rw [← ofLine_trimStart]
  rcases Bool.or_eq_true _ _ ▸ h with hb | hc
  · rw [Text.isBlankLine_iff.1 hb, ofLine_nil]
  · obtain ⟨rest, hr⟩ := List.isPrefixOf_iff_prefix.1 hc
    rw [← hr, List.cons_append, List.cons_append, ofLine_comment]

/-- Text that starts with ink, and in which no logical line ends, is one logical line up to the next
boundary. -/
theorem ofLine_text {c : Char} {text rest : List Char} (hc : Text.isBlank c = false)
    (hs : ':' ∉ c :: text)
    (hu : uncommented (c :: text ++ rest) = c :: text ++ uncommented rest) (hr : Boundary rest)
    (line column : Nat)
    : ofLine line column (c :: text ++ rest)
      = ⟨⟨line + 1, column + 1⟩, Text.trimEnd (c :: text)⟩
        :: ofLine line (column + (c :: text).length) rest := by
  obtain ⟨more, hmore⟩ := hr.splitOn_uncommented
  have hf : Text.Flush (c :: text) := Text.flush_cons.2 hc
  have hfield : ofField line (column, c :: text)
      = some ⟨⟨line + 1, column + 1⟩, Text.trimEnd (c :: text)⟩ := by
    rw [ofField, Text.trim_of_flush hf, if_neg (Text.trimEnd_ne_nil hc),
      Text.takeWhile_of_flush hf]
    rfl
  -- the boundary opens with an empty field, so the text is a field of its own
  rw [ofLine, ofLine, hu, Text.splitOn_append_of_not_mem hs, hmore]
  simp only [List.modifyHead_cons, placed, List.append_nil, List.filterMap_cons, hfield,
    ofField_nil, List.length_nil, Nat.add_zero]

/-- Every text has a first boundary, by induction on the text. -/
theorem exists_boundary (cs : List Char)
    : ∃ text rest,
        cs = text ++ rest
        ∧ Boundary rest
        ∧ ':' ∉ text
        ∧ uncommented (text ++ rest) = text ++ uncommented rest := by
  induction cs with
  | nil => exact ⟨[], [], rfl, .lineEnd, by simp, rfl⟩
  | cons c cs ih =>
      by_cases hm : ['/', '/'].isPrefixOf (c :: cs) = true
      · obtain ⟨rest, hr⟩ := List.isPrefixOf_iff_prefix.1 hm
        exact ⟨[], c :: cs, rfl, hr ▸ .comment rest, by simp, rfl⟩
      by_cases hs : c = ':'
      · exact ⟨[], c :: cs, rfl, hs ▸ .separator cs, by simp, rfl⟩
      obtain ⟨text, rest, rfl, hb, hnot, hu⟩ := ih
      refine ⟨c :: text, rest, rfl, hb, ?_, ?_⟩
      · exact List.not_mem_cons_of_ne_of_not_mem (Ne.symm hs) hnot
      · rw [List.cons_append, uncommented, if_neg hm, hu, List.cons_append]

/-- Ink that is neither a separator nor a comment starts a logical line, which ends at a
boundary. -/
theorem exists_ofLine_eq_cons {c : Char} {cs : List Char} (hc : Text.isBlank c = false)
    (hs : c ≠ ':') (hm : ['/', '/'].isPrefixOf (c :: cs) = false)
    : ∃ text rest,
        c :: cs = text ++ rest
        ∧ Boundary rest
        ∧ ∀ line column,
            ofLine line column (c :: cs)
              = ⟨⟨line + 1, column + 1⟩, Text.trimEnd text⟩
                :: ofLine line (column + text.length) rest := by
  obtain ⟨text, rest, he, hb, hnot, hu⟩ := exists_boundary (c :: cs)
  cases text with
  | nil =>
      -- the ink itself would have to be the boundary
      rw [List.nil_append] at he
      subst he
      cases hb with
      | separator => contradiction
      | comment => simp at hm
  | cons x text =>
      obtain ⟨rfl, rfl⟩ := List.cons.inj he
      exact ⟨c :: text, rest, rfl, hb, ofLine_text hc hnot hu hb⟩

end LoopCalc.LineByLine
