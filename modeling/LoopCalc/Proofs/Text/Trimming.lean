import LoopCalc.Text.Lines

/-! Runs of blanks, and texts that do not start or end with one. Trimming removes exactly the
runs around a text, whatever stands between them.
-/

namespace LoopCalc.Text

/-- A run of blanks. -/
structure Blanks where
  chars : List Char
  blank : ∀ c ∈ chars, isBlank c = true

/-- No blanks at all. -/
def Blanks.none : Blanks :=
  ⟨[], by simp⟩

/-- No blanks are no characters. -/
@[simp]
theorem Blanks.chars_none : Blanks.none.chars = [] := rfl

/-- Blanks one after the other. -/
def Blanks.append (b more : Blanks) : Blanks :=
  ⟨b.chars ++ more.chars, fun c hc => (List.mem_append.1 hc).elim (b.blank c) (more.blank c)⟩

/-- The text does not start with a blank. -/
def Flush (cs : List Char) : Prop :=
  ∀ c ∈ cs.head?, isBlank c = false

/-- The text does not end with a blank. -/
def FlushEnd (cs : List Char) : Prop :=
  ∀ c ∈ cs.getLast?, isBlank c = false

/-- The empty text does not start with a blank. -/
theorem flush_nil : Flush [] := by
  simp [Flush]

/-- Whether a text starts with a blank is a matter of its first character. -/
theorem flush_cons {c : Char} {rest : List Char} : Flush (c :: rest) ↔ isBlank c = false := by
  simp [Flush]

/-- Whether a text ends with a blank is a matter of its last character. -/
theorem flushEnd_concat {rest : List Char} {c : Char}
    : FlushEnd (rest ++ [c]) ↔ isBlank c = false := by
  simp [FlushEnd]

/-- A text that is not empty decides whether it starts with a blank, whatever follows. -/
theorem flush_append {front back : List Char} (hf : front ≠ []) (h : Flush front)
    : Flush (front ++ back) := by
  cases front with
  | nil => contradiction
  | cons c rest => exact flush_cons.2 (flush_cons.1 h)

/-- The end of a text is that of its last part, unless this part is empty. -/
theorem flushEnd_append {front back : List Char} (hb : back ≠ []) (h : FlushEnd back)
    : FlushEnd (front ++ back) := by
  intro c hc
  rw [List.getLast?_append, List.getLast?_eq_some_getLast hb, Option.some_or] at hc
  exact h c (by rwa [List.getLast?_eq_some_getLast hb])

/-- After trimming, a text does not start with a blank. -/
theorem flush_trimStart (cs : List Char) : Flush (trimStart cs) := by
  intro c hc
  have h := List.head?_dropWhile_not isBlank cs
  have hd : (cs.dropWhile isBlank).head? = some c := hc
  simpa [hd] using h

/-- A text that does not start with a blank is trimmed already. -/
theorem trimStart_of_flush {cs : List Char} (h : Flush cs) : trimStart cs = cs := by
  cases cs with
  | nil => rfl
  | cons c rest => exact List.dropWhile_cons_of_neg (by simp [flush_cons.1 h])

/-- Blanks in front are trimmed away. -/
@[simp]
theorem trimStart_blanks_append (b : Blanks) (cs : List Char)
    : trimStart (b.chars ++ cs) = trimStart cs :=
  List.dropWhile_append_of_pos b.blank

/-- Of blanks nothing is left. -/
theorem trimStart_blanks (b : Blanks) : trimStart b.chars = [] := by
  have h := trimStart_blanks_append b []
  rwa [List.append_nil] at h

/-- The blanks at the start of a text. -/
def leading (cs : List Char) : Blanks :=
  ⟨cs.takeWhile isBlank, List.all_eq_true.1 List.all_takeWhile⟩

/-- A text is its leading blanks and what trimming leaves. -/
theorem leading_append_trimStart (cs : List Char) : (leading cs).chars ++ trimStart cs = cs :=
  List.takeWhile_append_dropWhile

/-- What stands after a run of blanks decides how long the run at the start is. -/
theorem takeWhile_blanks_append (b : Blanks) (cs : List Char)
    : (b.chars ++ cs).takeWhile isBlank = b.chars ++ cs.takeWhile isBlank :=
  List.takeWhile_append_of_pos b.blank

/-- A text that does not start with a blank has no leading blanks. -/
theorem takeWhile_of_flush {cs : List Char} (h : Flush cs) : cs.takeWhile isBlank = [] := by
  cases cs with
  | nil => rfl
  | cons c rest => exact List.takeWhile_cons_of_neg (by simp [flush_cons.1 h])

/-- A blank line is one of which trimming leaves nothing. -/
theorem isBlankLine_iff {line : List Char} : isBlankLine line = true ↔ trimStart line = [] := by
  constructor
  · intro h
    exact trimStart_blanks ⟨line, List.all_eq_true.1 h⟩
  · intro h
    have he := leading_append_trimStart line
    rw [h, List.append_nil] at he
    exact List.all_eq_true.2 (he ▸ (leading line).blank)

/-- A text that does not end with a blank is trimmed already. -/
theorem trimEnd_of_flushEnd {cs : List Char} (h : FlushEnd cs) : trimEnd cs = cs := by
  have hf : Flush cs.reverse := by
    intro c hc
    rw [List.head?_reverse] at hc
    exact h c hc
  rw [trimEnd, show cs.reverse.dropWhile isBlank = _ from trimStart_of_flush hf,
    List.reverse_reverse]

/-- Blanks at the end are trimmed away. -/
@[simp]
theorem trimEnd_append_blanks (cs : List Char) (b : Blanks)
    : trimEnd (cs ++ b.chars) = trimEnd cs := by
  have hb : ∀ c ∈ b.chars.reverse, isBlank c = true := fun c hc => b.blank c (by simpa using hc)
  rw [trimEnd, List.reverse_append, List.dropWhile_append_of_pos hb, trimEnd]

/-- The blanks at the end of a text. -/
theorem exists_trimEnd_append (cs : List Char) : ∃ b : Blanks, cs = trimEnd cs ++ b.chars := by
  refine ⟨⟨(cs.reverse.takeWhile isBlank).reverse, ?_⟩, ?_⟩
  · intro c hc
    exact (leading cs.reverse).blank c (by simpa [leading] using hc)
  · have h := congrArg List.reverse (leading_append_trimStart cs.reverse)
    rw [List.reverse_append, List.reverse_reverse] at h
    exact h.symm

/-- Trimming the end does not reach a first character that is no blank. -/
theorem trimEnd_ne_nil {c : Char} {rest : List Char} (hc : isBlank c = false)
    : trimEnd (c :: rest) ≠ [] := by
  obtain ⟨b, hb⟩ := exists_trimEnd_append (c :: rest)
  intro hn
  rw [hn, List.nil_append] at hb
  have := b.blank c (hb ▸ List.mem_cons_self)
  simp [hc] at this

/-- Nothing but the blanks around a text is lost. -/
theorem exists_trim_between (cs : List Char)
    : ∃ front back : Blanks,
        front.chars = cs.takeWhile isBlank ∧ cs = front.chars ++ (trim cs ++ back.chars) := by
  obtain ⟨back, hb⟩ := exists_trimEnd_append (trimStart cs)
  exact ⟨leading cs, back, rfl, by rw [trim, ← hb, leading_append_trimStart]⟩

/-- Blanks in front make no difference to a trimmed text. -/
@[simp]
theorem trim_blanks_append (b : Blanks) (cs : List Char) : trim (b.chars ++ cs) = trim cs := by
  rw [trim, trimStart_blanks_append, trim]

/-- A text that does not start with a blank is trimmed at its end only. -/
theorem trim_of_flush {cs : List Char} (h : Flush cs) : trim cs = trimEnd cs := by
  rw [trim, trimStart_of_flush h]

/-- A text between two runs of blanks is found again. -/
theorem trim_between (front back : Blanks) {cs : List Char} (hs : Flush cs) (he : FlushEnd cs)
    : trim (front.chars ++ (cs ++ back.chars)) = cs := by
  rw [trim_blanks_append]
  cases cs with
  | nil =>
      rw [List.nil_append, trim, trimStart_blanks]
      rfl
  | cons c rest =>
      have hf : Flush (c :: rest ++ back.chars) := flush_cons.2 (flush_cons.1 hs)
      rw [trim_of_flush hf, trimEnd_append_blanks, trimEnd_of_flushEnd he]

end LoopCalc.Text
