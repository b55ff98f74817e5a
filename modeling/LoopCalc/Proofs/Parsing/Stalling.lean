import LoopCalc.Proofs.Parsing.Skipping

/-! Sources at whose start the walk to the first statement stalls, told by their characters: blanks
that start on the first line and reach over its end, and then a separator. What stands behind the
separator does not matter, so only the blanks and the first ink of a source decide.
-/

namespace LoopCalc

namespace Text

/-- A blank in front is trimmed away. -/
theorem trimStart_cons_of_isBlank {c : Char} (h : isBlank c = true) (rest : List Char)
    : trimStart (c :: rest) = trimStart rest :=
  List.dropWhile_cons_of_pos h

/-- The first ink of a text is that of its first line with ink, by induction on the text. -/
theorem head?_trimStart_lines (text : List Char)
    : (trimStart (((lines text).dropWhile isBlankLine).headD [])).head?
      = (trimStart text).head? := by
  induction text with
  | nil => rfl
  | cons c rest ih =>
      obtain ⟨line, below, hl⟩ := List.exists_cons_of_ne_nil (lines_ne_nil rest)
      rw [hl] at ih
      rw [lines, hl]
      cases hc : isBlank c with
      | false =>
          have hend : c ≠ '\n' := by
            rintro rfl
            exact absurd hc (by decide)
          have hflush (cs : List Char) : trimStart (c :: cs) = c :: cs :=
            trimStart_of_flush (flush_cons.2 hc)
          have hline : isBlankLine (c :: line) = false := by simp [isBlankLine, hc]
          rw [if_neg hend, List.dropWhile_cons_of_neg (by simp [hline]), List.headD_cons, hflush,
            hflush]
          rfl
      | true =>
          rw [trimStart_cons_of_isBlank hc, ← ih]
          by_cases hend : c = '\n'
          · rw [if_pos hend, List.dropWhile_cons_of_pos rfl]
          · have hline : isBlankLine (c :: line) = isBlankLine line := by simp [isBlankLine, hc]
            rw [if_neg hend, List.dropWhile_cons, List.dropWhile_cons, hline]
            split
            · rfl
            · rw [List.headD_cons, List.headD_cons, trimStart_cons_of_isBlank hc]

/-- Blanks, a line end, and the blanks at the start of the text below it. -/
def Blanks.overLineEnd (b : Blanks) (below : List Char) : Blanks where
  chars := b.chars ++ '\n' :: (leading below).chars
  blank := by
    intro c hc
    rcases List.mem_append.1 hc with hc | hc
    · exact b.blank c hc
    rcases List.mem_cons.1 hc with rfl | hc
    · decide
    · exact (leading below).blank c hc

/-- Blanks over a line end, and what trimming leaves below it, make up the text. -/
theorem Blanks.overLineEnd_append (b : Blanks) (below : List Char)
    : (b.overLineEnd below).chars ++ trimStart below = b.chars ++ '\n' :: below := by
  rw [overLineEnd, List.append_assoc, List.cons_append, leading_append_trimStart]

end Text

namespace Cursor

open Text (Blanks)

/-- One line alone does not stall. -/
theorem not_stalls_of_inline {text : List Char} (h : '\n' ∉ text)
    : stalls (Text.lines text) = false := by
  rw [Text.lines_of_not_mem h, stalls, decide_eq_false_iff_not]
  rintro ⟨-, -, hs⟩
  cases hs

/-- A text stalls exactly if its first line is blank, though not empty, and a separator is the first
ink below. -/
theorem stalls_append_lineEnd {first : List Char} (h : '\n' ∉ first) (more : List Char)
    : stalls (Text.lines (first ++ '\n' :: more)) = true
      ↔ first ≠ []
        ∧ Text.isBlankLine first = true
        ∧ (Text.trimStart more).head? = some ':' := by
  rw [Text.lines_append_lineEnd, Text.lines_of_not_mem h, List.singleton_append, stalls,
    decide_eq_true_eq, Text.head?_trimStart_lines]

/-- The walk stalls exactly before a separator behind blanks that reach over the end of a line with
some of them. -/
theorem stalls_lines_iff {text : List Char}
    : stalls (Text.lines text) = true
      ↔ ∃ (b : Blanks) (rest : List Char),
          text = b.chars ++ ':' :: rest ∧ '\n' ∈ b.chars ∧ b.chars.head? ≠ some '\n' := by
  constructor
  · intro h
    by_cases hend : '\n' ∈ text
    · obtain ⟨first, more, rfl, hfirst⟩ := List.eq_append_cons_of_mem hend
      obtain ⟨hne, hb, hs⟩ := (stalls_append_lineEnd hfirst more).1 h
      obtain ⟨rest, hrest⟩ := List.head?_eq_some_iff.1 hs
      let b : Blanks := ⟨first, List.all_eq_true.1 hb⟩
      refine ⟨b.overLineEnd more, rest, ?_, by simp [Blanks.overLineEnd], ?_⟩
      · rw [← hrest, b.overLineEnd_append]
      · obtain ⟨c, line, rfl⟩ := List.exists_cons_of_ne_nil hne
        intro hc
        exact hfirst (Option.some.inj hc ▸ List.mem_cons_self)
    · rw [not_stalls_of_inline hend] at h
      cases h
  · rintro ⟨b, rest, rfl, hend, hhead⟩
    obtain ⟨first, more, hb, hfirst⟩ := List.eq_append_cons_of_mem hend
    rw [hb, List.append_assoc, List.cons_append, stalls_append_lineEnd hfirst]
    refine ⟨?_, ?_, ?_⟩
    · rintro rfl
      exact hhead (by rw [hb]; rfl)
    · exact List.all_eq_true.2 fun c hc => b.blank c (hb ▸ List.mem_append_left _ hc)
    · have hmore : ∀ c ∈ more, Text.isBlank c = true :=
        fun c hc => b.blank c (hb ▸ List.mem_append_right _ (List.mem_cons_of_mem _ hc))
      rw [Text.trimStart_blanks_append ⟨more, hmore⟩,
        Text.trimStart_of_flush (Text.flush_cons.2 (by decide))]
      rfl

/-- A text without a separator does not stall. -/
theorem not_stalls_of_not_mem {text : List Char} (h : ':' ∉ text)
    : stalls (Text.lines text) = false := by
  rw [Bool.eq_false_iff]
  intro hs
  obtain ⟨b, rest, rfl, -, -⟩ := stalls_lines_iff.1 hs
  exact h (by simp)

/-- What stalls with a text behind it that has no separator stalls with any text behind it. -/
theorem not_stalls_append {front rest more : List Char}
    (h : stalls (Text.lines (front ++ rest)) = false) (hm : ':' ∉ more)
    : stalls (Text.lines (front ++ more)) = false := by
  rw [Bool.eq_false_iff] at h ⊢
  intro hs
  obtain ⟨b, back, he, hend, hhead⟩ := stalls_lines_iff.1 hs
  rcases List.append_eq_append_iff.1 he with ⟨blanks, -, rfl⟩ | ⟨back', rfl, hback⟩
  · exact hm (by simp)
  · cases back' with
    | nil => exact hm (by rw [← List.nil_append more, ← hback]; exact List.mem_cons_self)
    | cons x inner =>
        obtain ⟨rfl, -⟩ := List.cons.inj hback
        refine h (stalls_lines_iff.2 ⟨b, inner ++ rest, ?_, hend, hhead⟩)
        rw [List.append_assoc, List.cons_append]

/-- A text that does not stall has no front that does. -/
theorem not_stalls_front {front rest : List Char}
    (h : stalls (Text.lines (front ++ rest)) = false)
    : stalls (Text.lines front) = false := by
  have hnil := not_stalls_append h (List.not_mem_nil : ':' ∉ [])
  rwa [List.append_nil] at hnil

/-- A source that stalls has a separator as its first ink. -/
theorem head?_trimStart_of_stalls {text : List Char} (h : stalls (Text.lines text) = true)
    : (Text.trimStart text).head? = some ':' := by
  obtain ⟨b, rest, rfl, -, -⟩ := stalls_lines_iff.1 h
  rw [Text.trimStart_blanks_append, Text.trimStart_of_flush (Text.flush_cons.2 (by decide))]
  rfl

end Cursor

end LoopCalc
