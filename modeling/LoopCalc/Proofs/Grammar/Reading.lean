import LoopCalc.Proofs.Grammar.Words
import Mathlib.Data.List.Basic

/-! A logical line says a piece exactly when it is a spelling of that piece.
-/

namespace LoopCalc

open Text (Blanks)

/-- The characters of an argument after its comma. -/
def Argument.body (a : Argument) : List Char :=
  a.before.chars ++ (a.word.chars ++ a.after.chars)

/-- Trimmed, an argument is its word, for a word has no blanks at its ends. -/
theorem Argument.trim_body (a : Argument) : Text.trim a.body = a.word.chars :=
  Text.trim_between a.before a.after a.word.flush a.word.flushEnd

/-- Neither a comma nor a parenthesis stands in a word. -/
theorem Word.not_mem_chars (w : Word) {c : Char} (hc : Text.isWordChar c = false)
    : c ∉ w.chars := by
  intro h
  rw [Word.isWordChar_of_mem_chars h] at hc
  cases hc

/-- An argument holds word characters and blanks only. -/
theorem Argument.not_mem_body (a : Argument) {c : Char} (hw : Text.isWordChar c = false)
    (hb : Text.isBlank c = false)
    : c ∉ a.body := by
  simp only [Argument.body, List.mem_append, not_or]
  exact ⟨a.before.not_mem hb, a.word.not_mem_chars hw, a.after.not_mem hb⟩

namespace HeaderSpelling

/-- The iterator with the blanks around it. -/
def counter (h : HeaderSpelling) : List Char :=
  h.lead.chars ++ (h.iterator.chars ++ h.after.chars)

/-- Trimmed, the iterator of a header is its name. -/
theorem trim_counter (h : HeaderSpelling) : Text.trim h.counter = h.iterator.chars :=
  Text.trim_between h.lead h.after (Word.name h.iterator).flush (Word.name h.iterator).flushEnd

/-- The iterator of a header holds word characters and blanks only. -/
theorem not_mem_counter (h : HeaderSpelling) {c : Char} (hw : Text.isWordChar c = false)
    (hb : Text.isBlank c = false)
    : c ∉ h.counter := by
  simp only [counter, List.mem_append, not_or]
  exact ⟨h.lead.not_mem hb, (Word.name h.iterator).not_mem_chars hw, h.after.not_mem hb⟩

/-- What stands in the brackets of a header, field by field. -/
theorem inner_eq (h : HeaderSpelling)
    : h.inner = h.counter ++ ',' :: (h.start.body ++ ',' :: (h.stop.body ++ h.stepChars)) := by
  simp [inner, counter, Argument.chars, Argument.body]

/-- No bracket closes inside of the brackets. -/
theorem not_mem_inner (h : HeaderSpelling) : ')' ∉ h.inner := by
  have hs : ')' ∉ h.stepChars := by
    rw [stepChars]
    cases h.step with
    | none => simp
    | some a =>
        have ha : ')' ∉ ',' :: a.body :=
          List.not_mem_cons_of_ne_of_not_mem (by decide) (a.not_mem_body (by decide) (by decide))
        exact ha
  simp only [inner_eq, List.mem_append, List.mem_cons, not_or]
  exact ⟨h.not_mem_counter (by decide) (by decide), by decide,
    h.start.not_mem_body (by decide) (by decide), by decide,
    h.stop.not_mem_body (by decide) (by decide), hs⟩

/-- The commas of a header separate exactly its iterator, its bounds and its step. -/
theorem trim_splitOn_inner (h : HeaderSpelling)
    : (h.inner.splitOn ',').map Text.trim
      = h.iterator.chars :: h.start.word.chars :: h.stop.word.chars
        :: (h.step.map fun a => a.word.chars).toList := by
  have hcomma (a : Argument) : ',' ∉ a.body := a.not_mem_body (by decide) (by decide)
  have hcounter : ',' ∉ h.counter := h.not_mem_counter (by decide) (by decide)
  rw [inner_eq, List.splitOn_append_cons_self_of_not_mem hcounter,
    List.splitOn_append_cons_self_of_not_mem (hcomma h.start)]
  cases hs : h.step with
  | none =>
      rw [stepChars, hs, Option.map_none, Option.getD_none, List.append_nil,
        List.splitOn_eq_singleton (hcomma h.stop)]
      simp [trim_counter, Argument.trim_body]
  | some a =>
      have hc : h.stepChars = ',' :: a.body := by rw [stepChars, hs]; rfl
      rw [hc, List.splitOn_append_cons_self_of_not_mem (hcomma h.stop),
        List.splitOn_eq_singleton (hcomma a)]
      simp [trim_counter, Argument.trim_body]

/-- Without a closing bracket, the arguments are the trimmed fields. -/
theorem arguments_inner (h : HeaderSpelling)
    : LineByLine.arguments h.inner = (h.inner.splitOn ',').map Text.trim := by
  rw [LineByLine.arguments, if_neg]
  intro hl
  exact h.not_mem_inner (List.mem_of_getLast? hl)

/-- A closing bracket is dropped before the arguments are split. -/
theorem arguments_inner_append (h : HeaderSpelling)
    : LineByLine.arguments (h.inner ++ [')']) = (h.inner.splitOn ',').map Text.trim := by
  rw [LineByLine.arguments, if_pos (by simp), List.dropLast_concat]

/-- A header whose arguments are those of a spelling is the header that is spelled. -/
theorem header?_of_arguments (h : HeaderSpelling) {inner : List Char}
    (ha : LineByLine.arguments inner = (h.inner.splitOn ',').map Text.trim) (location : Location)
    : LineByLine.header? location inner = some (h.header location) := by
  have hi : LineByLine.counter? h.iterator.chars = some h.iterator :=
    LineByLine.counter?_eq_some_iff.2 ⟨rfl, h.counts⟩
  rw [LineByLine.header?, ha, trim_splitOn_inner]
  cases hs : h.step with
  | none => simp [hi, LineByLine.operand?_chars, header, hs]
  | some a => simp [hi, LineByLine.operand?_chars, header, hs]

end HeaderSpelling

namespace LineByLine

/-- A logical line that starts with the keyword of a loop is read as a header. -/
theorem piece?_loop (location : Location) (inner : List Char)
    : piece? ⟨location, Keyword.loop.chars ++ inner⟩ = (header? location inner).map .header := rfl

/-- A logical line that starts with the keyword of a display is read as one. -/
theorem piece?_disp (location : Location) (value : List Char)
    : piece? ⟨location, Keyword.disp.chars ++ value⟩
      = (operand? (Text.trim value)).map (.disp · location) := rfl

/-- A spelling without blanks at its end is read as its piece. -/
theorem piece?_spelling (s : Spelling) (location : Location)
    : piece? ⟨location, s.trimmed.chars⟩ = some (s.piece location) := by
  cases s with
  | close after => rfl
  | disp before word after =>
      have ht := Text.trim_between before .none word.flush word.flushEnd
      rw [Spelling.trimmed, Spelling.withEnding, Spelling.chars, piece?_disp, ht, operand?_chars]
      rfl
  | header h =>
      rw [← Spelling.piece_withEnding _ .none]
      -- without blanks behind it the parenthesis, if there is one, is the last character
      have hend : (h.withEnding .none).closingChars = []
          ∨ (h.withEnding .none).closingChars = [')'] := by
        rcases h with ⟨lead, iterator, counts, after, start, stop, _ | step, _ | closing⟩
        · exact Or.inl rfl
        · exact Or.inr rfl
        · exact Or.inl rfl
        · exact Or.inr rfl
      rw [Spelling.trimmed, Spelling.withEnding, Spelling.chars, HeaderSpelling.chars, piece?_loop]
      rcases hend with hend | hend
      · rw [hend, List.append_nil, HeaderSpelling.header?_of_arguments _
          (HeaderSpelling.arguments_inner _)]
        rfl
      · rw [hend, HeaderSpelling.header?_of_arguments _
          (HeaderSpelling.arguments_inner_append _)]
        rfl

/-- The field of an argument, with its word known. -/
theorem exists_argument {field : List Char} {operand : Operand}
    (h : operand? (Text.trim field) = some operand)
    : ∃ a : Argument, a.body = field ∧ a.word.operand = operand := by
  obtain ⟨w, hw, rfl⟩ := exists_word_of_operand? h
  obtain ⟨front, back, -, hf⟩ := Text.exists_trim_between field
  exact ⟨⟨front, w, back⟩, by rw [hf, ← hw]; rfl, rfl⟩

/-- Fields that can be read make up the spelling of a header. -/
theorem exists_headerSpelling_of_fields {counter first second : List Char} {iterator : Variable}
    {start stop : Operand} (hi : counter? (Text.trim counter) = some iterator)
    (hstart : operand? (Text.trim first) = some start)
    (hstop : operand? (Text.trim second) = some stop) (step : Option Argument)
    (closing : Option Blanks)
    : ∃ s : HeaderSpelling,
        s.inner = counter ++ ',' :: (first ++ ',' :: (second ++ (step.map Argument.chars).getD []))
        ∧ s.closing = closing
        ∧ ∀ location,
            s.header location
              = ⟨iterator, start, stop,
                  (step.map fun a => a.word.operand).getD (.literal (.ofInt 1)), location⟩ := by
  obtain ⟨hc, hn⟩ := counter?_eq_some_iff.1 hi
  obtain ⟨front, back, -, hf⟩ := Text.exists_trim_between counter
  obtain ⟨a, rfl, rfl⟩ := exists_argument hstart
  obtain ⟨b, rfl, rfl⟩ := exists_argument hstop
  refine ⟨⟨front, iterator, hn, back, a, b, step, closing⟩, ?_, rfl, fun _ => rfl⟩
  rw [HeaderSpelling.inner_eq, hf, ← hc]
  rfl

/-- The text after the keyword is closed by a parenthesis or not; its fields join up again. -/
theorem exists_closing (inner : List Char)
    : ∃ (body : List Char) (closing : Option Blanks),
        body ++ (closing.map fun b => ')' :: b.chars).getD [] = inner
        ∧ arguments inner = (body.splitOn ',').map Text.trim := by
  by_cases hl : inner.getLast? = some ')'
  · obtain ⟨body, rfl⟩ := List.getLast?_eq_some_iff.1 hl
    refine ⟨body, some .none, rfl, ?_⟩
    rw [arguments, if_pos hl, List.dropLast_concat]
  · refine ⟨inner, none, List.append_nil inner, ?_⟩
    rw [arguments, if_neg hl]

/-- A header that is read has a spelling with the same text. -/
theorem exists_headerSpelling {location : Location} {inner : List Char} {header : Header}
    (h : header? location inner = some header)
    : ∃ s : HeaderSpelling,
        s.inner ++ s.closingChars = inner ∧ s.header location = header := by
  obtain ⟨body, closing, rfl, hargs⟩ := exists_closing inner
  have hjoin : [','].intercalate (body.splitOn ',') = body := List.intercalate_splitOn ','
  unfold header? at h
  rw [hargs] at h
  split at h
  -- three fields, so no step
  · next name start stop hfields =>
    simp only [List.map_eq_cons_iff, List.map_eq_nil_iff] at hfields
    obtain ⟨counter, _, hsplit, rfl, first, _, rfl, rfl, second, _, rfl, rfl, rfl⟩ := hfields
    simp only [Option.bind_eq_bind, Option.bind_eq_some_iff, Option.pure_def,
      Option.some.injEq] at h
    obtain ⟨iterator, hi, start, hstart, stop, hstop, rfl⟩ := h
    obtain ⟨s, hs, hc, hh⟩ := exists_headerSpelling_of_fields hi hstart hstop none closing
    refine ⟨s, ?_, hh location⟩
    rw [HeaderSpelling.closingChars, hc, hs, ← hjoin, hsplit]
    simp [List.intercalate]
  · next name start stop step hfields =>
    simp only [List.map_eq_cons_iff, List.map_eq_nil_iff] at hfields
    obtain ⟨counter, _, hsplit, rfl, first, _, rfl, rfl, second, _, rfl, rfl, third, _, rfl, rfl,
      rfl⟩ := hfields
    simp only [Option.bind_eq_bind, Option.bind_eq_some_iff, Option.pure_def,
      Option.some.injEq] at h
    obtain ⟨iterator, hi, start, hstart, stop, hstop, step, hstep, rfl⟩ := h
    obtain ⟨a, rfl, rfl⟩ := exists_argument hstep
    obtain ⟨s, hs, hc, hh⟩ := exists_headerSpelling_of_fields hi hstart hstop (some a) closing
    refine ⟨s, ?_, hh location⟩
    rw [HeaderSpelling.closingChars, hc, hs, ← hjoin, hsplit]
    simp [List.intercalate, Argument.chars, Argument.body]
  · cases h

/-- A logical line that says a piece is a spelling of it. -/
theorem exists_spelling_of_piece? {l : LogicalLine} {piece : Piece} (h : piece? l = some piece)
    : ∃ s : Spelling, s.chars = l.text ∧ s.piece l.location = piece := by
  unfold piece? at h
  split at h
  · next hc =>
    exact ⟨.close .none, hc.symm, Option.some.inj h⟩
  · split at h
    · next value hv =>
      rw [List.isPrefixOf?_eq_some_iff_append_eq] at hv
      obtain ⟨operand, ho, rfl⟩ := Option.map_eq_some_iff.1 h
      obtain ⟨a, ha, rfl⟩ := exists_argument ho
      exact ⟨.disp a.before a.word a.after, by rw [← hv, ← ha]; rfl, rfl⟩
    · split at h
      · next inner hi =>
        rw [List.isPrefixOf?_eq_some_iff_append_eq] at hi
        obtain ⟨header, hh, rfl⟩ := Option.map_eq_some_iff.1 h
        obtain ⟨s, hs, rfl⟩ := exists_headerSpelling hh
        exact ⟨.header s, by rw [← hi, ← hs]; rfl, rfl⟩
      · cases h

/-- No logical line says that nothing more follows. -/
theorem piece?_ne_finished {l : LogicalLine} : piece? l ≠ some .finished := by
  intro h
  obtain ⟨s, -, hs⟩ := exists_spelling_of_piece? h
  cases s <;> cases hs

end LineByLine

end LoopCalc
