import LoopCalc.Proofs.Number.Texts
import LoopCalc.Proofs.Session.Phases

/-! Printed numbers are literals of the language. The text of a number without an exponent, with the
calculator's own negative sign, can be displayed by a program, and the program prints the text that
it was made from.
-/

namespace LoopCalc

-----------------------------------------------------------------------------------------
-- Numbers as literals
-----------------------------------------------------------------------------------------

namespace Number

/-- The text of a number with the negative sign of a source text. -/
def sourceChars (x : Number) : List Char :=
  match x.chars with
  | '-' :: rest => '~' :: rest
  | cs => cs

/-- A number without a sign is written in a source as it is displayed. -/
theorem sourceChars_of_ne {x : Number} (h : '-' ∉ x.chars.head?) : x.sourceChars = x.chars := by
  unfold sourceChars
  split
  · next hx =>
    rw [hx] at h
    simp at h
  · rfl

/-- A finite number that is written without an exponent is spelled by a literal. -/
theorem exists_literal_of_finite (sign : Sign) {k : Fin magnitudeCount} (hk : k.val ≠ 0)
    (hx : (finite sign k).isPositional = true)
    : ∃ l : Literal,
        l.WellFormed ∧ l.chars = (finite sign k).sourceChars ∧ l.value = finite sign k := by
  have hchars : (finite sign k).chars = sign.write (shortest k).positional := by
    rw [chars, if_neg hk, if_pos hx]
  cases sign with
  | minus =>
      obtain ⟨l, hl, hs⟩ := Literal.exists_spells true (shortest k)
      refine ⟨l, hs.wellFormed, ?_, ?_⟩
      · rw [Literal.chars_of_negative hl, hs.unsignedChars_eq, sourceChars, hchars]
        rfl
      · rw [Literal.value, hl]
        exact ofDecimal_of_value_eq .minus k hs.value_eq
  | plus =>
      obtain ⟨l, hl, hs⟩ := Literal.exists_spells false (shortest k)
      refine ⟨l, hs.wellFormed, ?_, ?_⟩
      · rw [sourceChars_of_ne (hchars ▸ (Decimal.not_mem_head?_positional _).1), hchars,
          Literal.chars_of_not_negative hl, hs.unsignedChars_eq]
        rfl
      · rw [Literal.value, hl]
        exact ofDecimal_of_value_eq .plus k hs.value_eq

/-- Numerical equality is symmetric. -/
theorem sameValue_comm (x y : Number) : x.sameValue y = y.sameValue x := by
  rw [sameValue, sameValue]
  cases x.rank? with
  | none => cases y.rank? <;> rfl
  | some i =>
      cases y.rank? with
      | none => rfl
      | some j => exact BEq.comm

/-- Every number that is written without an exponent is spelled by a literal for an equal number
with the same text. Both zeros are spelled by the literal for the positive one. -/
theorem exists_literal {x : Number} (h : x.isZero = true ∨ x.isPositional = true)
    : ∃ l : Literal,
        l.WellFormed
        ∧ l.chars = x.sourceChars
        ∧ l.value.sameValue x = true
        ∧ l.value.text = x.text := by
  cases x with
  | nan => exact absurd h (by decide +kernel)
  | infinite sign => exact absurd h (by cases sign <;> decide +kernel)
  | finite sign k =>
      by_cases hk : k.val = 0
      · have hchars : (finite sign k).chars = ['0'] := by rw [chars, if_pos hk]
        have hvalue : Literal.value ⟨false, ['0'], []⟩ = zero := by decide +kernel
        refine ⟨⟨false, ['0'], []⟩, ⟨by simp, by simp, by simp⟩, ?_, ?_, ?_⟩
        · rw [sourceChars, hchars]
          rfl
        · rw [hvalue, sameValue_comm]
          exact isZero_finite_iff.2 hk
        · have htext : (finite sign k).text = "0" := by rw [text, hchars]
          rw [hvalue, htext]
          rfl
      · have hzero : ¬(finite sign k).isZero = true := mt isZero_finite_iff.1 hk
        obtain ⟨l, hl, hchars, hvalue⟩ := exists_literal_of_finite sign hk (h.resolve_left hzero)
        refine ⟨l, hl, hchars, ?_, ?_⟩
        · rw [hvalue, sameValue, rank?]
          exact beq_self_eq_true _
        · rw [hvalue]

end Number

-----------------------------------------------------------------------------------------
-- Programs of one display
-----------------------------------------------------------------------------------------

/-- A display of one word is a source of its own. -/
theorem Parser.nests_display (w : Word)
    : Nests ("Disp " ++ String.ofList w.chars) ⟨[], [.disp w.operand ⟨1, 1⟩]⟩ := by
  let s : Spelling := .disp .none w .none
  have hs : s.chars = Keyword.disp.chars ++ w.chars := by simp [s, Spelling.chars]
  have hchars : ("Disp " ++ String.ofList w.chars).toList = s.chars := by
    simp only [String.toList_append, String.toList_ofList, hs]
    rfl
  have hinline : '\n' ∉ s.chars := by
    have hword : Text.isWordChar '\n' = false := by decide
    rw [hs, List.mem_append, not_or]
    exact ⟨by decide, w.not_mem_chars hword⟩
  have hlines : Text.lines ("Disp " ++ String.ofList w.chars).toList = [s.chars] := by
    rw [hchars, Text.lines_of_not_mem hinline]
  have hlogical : LineByLine.logicalLines ("Disp " ++ String.ofList w.chars)
      = [⟨⟨1, 1⟩, s.trimmed.chars⟩] := by
    have hline := LineByLine.ofLine_spelling s .lineEnd 0 0
    rw [List.append_nil, LineByLine.ofLine_nil] at hline
    rw [LineByLine.logicalLines_eq, hlines, LineByLine.ofLines, LineByLine.ofLines, hline]
    rfl
  refine ⟨?_, ?_⟩
  · rw [hlines]
    simp [Cursor.stalls, Text.trimStart]
  · rw [hlogical, LineByLine.Nest.foldlM_read?, List.mapM_cons, LineByLine.piece?_spelling]
    rfl

namespace Session

/-- A source that is read without notices tells nothing when it is read. -/
theorem read_of_nests {source : String} {block : List Statement}
    (h : Parser.Nests source ⟨[], block⟩) {pace : Pace} {options : Options}
    (hpace : pace.LetsRead options.parseTimeout source)
    : read pace options source = (.ok block, []) := by
  obtain ⟨hprogram, hnotices⟩ := h.parse
  have hread : (read pace options source).1 = .ok block := hpace.trans hprogram
  have hremarks : remarks options source = [] := by
    rw [remarks, Parser.undisturbed, hnotices]
    exact ite_self []
  have hto := readsTo_read pace options source
  generalize read pace options source = result at hread hto ⊢
  cases hto with
  | undisturbed => exact Prod.ext hread hremarks
  | early stop => cases hread
  | behind stop accepted => cases hread

/-- A run of one display prints the text of its literal, after the reset and the start value. -/
theorem run_display (s : Session) {pace : Pace} {source : String} {y : Number} {place : Location}
    (h : Parser.Nests source ⟨[], [.disp (.literal y) place]⟩) {ans : Number}
    (hans : ans.isFinite = true) {options : Options}
    (hpace : pace.LetsRead options.parseTimeout source)
    : (s.run pace source ans options).ending = .completed
      ∧ (s.run pace source ans options).events
        = Event.reset ++ [.assigned .ans ans, .printed y.text] := by
  have hread := read_of_nests h hpace
  rw [run_of_read s pace hans (congrArg Prod.fst hread), hread]
  exact ⟨rfl, rfl⟩

/-- A number that is zero or from `1e-6` up to `1e21` in size, written into a source with the
negative sign of the language, is read without a notice as a display of an equal literal, and
running the source prints the number as it was written. -/
theorem run_printed_number {x : Number}
    (hx : x.isZero = true
      ∨ (Number.ofDecimal .plus ⟨1, -6⟩).le x.abs = true
        ∧ x.abs.lt (.ofDecimal .plus ⟨1, 21⟩) = true)
    (s : Session) {pace : Pace} {ans : Number} (hans : ans.isFinite = true) {options : Options}
    (hpace : pace.LetsRead options.parseTimeout ("Disp " ++ String.ofList x.sourceChars))
    : let source := "Disp " ++ String.ofList x.sourceChars
      ∃ y : Number,
        ((Parser.ofSource source .silent).parse).1 = .ok [.disp (.literal y) ⟨1, 1⟩]
        ∧ ((Parser.ofSource source .silent).parse).2.notices = []
        ∧ y.sameValue x = true
        ∧ (s.run pace source ans options).ending = .completed
        ∧ (s.run pace source ans options).events
          = Event.reset ++ [.assigned .ans ans, .printed x.text] := by
  have hrange : x.isZero = true ∨ x.isPositional = true := by
    rw [Number.isPositional, Bool.and_eq_true]
    exact hx
  obtain ⟨l, hl, hchars, hvalue, htext⟩ := Number.exists_literal hrange
  have hnests := Parser.nests_display (.literal l hl)
  rw [Word.chars, hchars] at hnests
  obtain ⟨hprogram, hnotices⟩ := hnests.parse
  have hrun := s.run_display hnests hans hpace
  rw [htext] at hrun
  exact ⟨l.value, hprogram, hnotices, hvalue, hrun⟩

/-- A negative fraction close to the lower end of the range. -/
def negativeFraction : Number :=
  .ofDecimal .minus ⟨125, -7⟩

/-- A negative number with leading zeros, written into a source and displayed. -/
theorem run_printed_number_negativeFraction
    : "Disp " ++ String.ofList negativeFraction.sourceChars = "Disp ~0.0000125"
      ∧ (Number.ofDecimal .plus ⟨1, -6⟩).le negativeFraction.abs = true
      ∧ negativeFraction.abs.lt (.ofDecimal .plus ⟨1, 21⟩) = true
      ∧ (Number.ofInt 3).isFinite = true
      ∧ Pace.steady.LetsRead Options.standard.parseTimeout "Disp ~0.0000125"
      ∧ ∃ y : Number,
          ((Parser.ofSource "Disp ~0.0000125" .silent).parse).1 = .ok [.disp (.literal y) ⟨1, 1⟩]
          ∧ ((Parser.ofSource "Disp ~0.0000125" .silent).parse).2.notices = []
          ∧ y.sameValue negativeFraction = true
          ∧ (fresh.run .steady "Disp ~0.0000125" (.ofInt 3) .standard).ending = .completed
          ∧ (fresh.run .steady "Disp ~0.0000125" (.ofInt 3) .standard).events
            = Event.reset ++ [.assigned .ans (.ofInt 3), .printed negativeFraction.text] := by
  have hsource : "Disp " ++ String.ofList negativeFraction.sourceChars = "Disp ~0.0000125" := by
    decide +kernel
  have hfrom : (Number.ofDecimal .plus ⟨1, -6⟩).le negativeFraction.abs = true := by
    decide +kernel
  have hbelow : negativeFraction.abs.lt (.ofDecimal .plus ⟨1, 21⟩) = true := by
    decide +kernel
  have hans : (Number.ofInt 3).isFinite = true := by
    decide +kernel
  have hpace (source : String) : Pace.steady.LetsRead Options.standard.parseTimeout source :=
    Pace.letsRead_of_silent rfl source
  have hrun := run_printed_number (Or.inr ⟨hfrom, hbelow⟩) fresh hans (hpace _)
  rw [hsource] at hrun
  exact ⟨hsource, hfrom, hbelow, hans, hpace _, hrun⟩

end Session

end LoopCalc
