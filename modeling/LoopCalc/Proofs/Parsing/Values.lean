import LoopCalc.Proofs.Parsing.Failing

/-! Values are read by the longest match. Whatever follows on the line, the scanner takes the
longest front of it that is a literal or the name of a variable, although it looks for literals and
for names one after the other and measures a literal part by part: no literal starts like a name,
digits end where the run of digits does, and a point counts only if digits follow it.
-/

namespace LoopCalc

open Text (Blanks)
open LineByLine (isNumeral operand?)

-----------------------------------------------------------------------------------------
-- Fronts of a text
-----------------------------------------------------------------------------------------

/-- Of the fronts of a text that have the property, this is the longest. -/
structure Text.LongestFront (p : List Char → Prop) (text front : List Char) : Prop where
  opens : front <+: text
  holds : p front
  longest : ∀ other, other <+: text → p other → other.length ≤ front.length

/-- The text is a value as it is written: a literal, or the name of a variable. -/
def LineByLine.IsValue (text : List Char) : Prop :=
  isNumeral text = true ∨ ∃ v : Variable, v.chars = text

open Text (LongestFront)
open LineByLine (IsValue)

/-- Every word is a value. -/
theorem Word.isValue (w : Word) : IsValue w.chars := by
  cases w with
  | literal l wellFormed => exact Or.inl (LineByLine.isNumeral_chars wellFormed)
  | name v => exact Or.inr ⟨v, rfl⟩

/-- Every value can be written as a word. -/
theorem LineByLine.IsValue.exists_word {text : List Char} (h : IsValue text)
    : ∃ w : Word, w.chars = text := by
  rcases h with h | ⟨v, rfl⟩
  · obtain ⟨l, hl, rfl⟩ := exists_literal_of_isNumeral h
    exact ⟨.literal l hl, rfl⟩
  · exact ⟨.name v, rfl⟩

-----------------------------------------------------------------------------------------
-- The longest literal
-----------------------------------------------------------------------------------------

namespace Literal

/-- Behind the run of digits at the front, the fraction can only add to the literal. -/
theorem length_whole_le (l : Literal) : l.whole.length ≤ l.unsignedChars.length := by
  rw [unsignedChars, List.length_append]
  exact Nat.le_add_right ..

/-- A literal at the front is found, or a longer one that it opens. -/
theorem exists_unsignedAtFront? {l : Literal} (hl : l.WellFormed) (negative : Bool)
    (rest : List Char)
    : ∃ found,
        unsignedAtFront? negative (l.unsignedChars ++ rest) = some found
        ∧ l.unsignedChars.length ≤ found.unsignedChars.length := by
  by_cases hf : l.fraction = []
  · -- the run of digits starts with those of the literal
    have hw : l.whole ≠ [] := hl.digits.resolve_right (not_not_intro hf)
    have hchars : l.unsignedChars = l.whole := by
      rw [unsignedChars, if_pos hf, List.append_nil]
    rw [hchars, unsignedAtFront?, List.takeWhile_append_of_pos hl.whole]
    rw [if_neg fun h => hw (List.append_eq_nil_iff.1 h.1).1]
    refine ⟨_, rfl, Nat.le_trans ?_ (length_whole_le _)⟩
    rw [List.length_append]
    exact Nat.le_add_right ..
  · -- the run of digits ends at the point, and the fraction starts with that of the literal
    obtain ⟨htake, hdrop⟩ :=
      @Text.takeWhile_run Char.isDigit l.whole ('.' :: (l.fraction ++ rest)) hl.whole (by simp)
    have hfraction : l.fraction ++ rest.takeWhile Char.isDigit ≠ [] :=
      fun h => hf (List.append_eq_nil_iff.1 h).1
    rw [unsignedChars, if_neg hf, List.append_assoc, List.cons_append, unsignedAtFront?, htake,
      hdrop]
    simp only [List.takeWhile_append_of_pos hl.fraction]
    rw [if_neg fun h => hfraction h.2]
    refine ⟨_, rfl, ?_⟩
    rw [unsignedChars, if_neg hfraction]
    simp only [List.length_append, List.length_cons]
    omega

/-- Where a literal stands, one at least as long is found. By cases on its sign. -/
theorem exists_atFront? {l : Literal} (hl : l.WellFormed) (rest : List Char)
    : ∃ found,
        atFront? (l.chars ++ rest) = some found ∧ l.chars.length ≤ found.chars.length := by
  obtain ⟨found, hfound, hle⟩ := exists_unsignedAtFront? hl l.negative rest
  obtain ⟨-, hsign, -⟩ := wellFormed_of_unsignedAtFront? hfound
  refine ⟨found, (atFront?_chars_append hl rest).trans hfound, ?_⟩
  cases hn : l.negative with
  | true =>
      rw [chars_of_negative hn, chars_of_negative (hsign.trans hn)]
      exact Nat.succ_le_succ hle
  | false => rwa [chars_of_not_negative hn, chars_of_not_negative (hsign.trans hn)]

end Literal

-----------------------------------------------------------------------------------------
-- The longest name
-----------------------------------------------------------------------------------------

/-- A name at the front is found, or a longer one that it opens. -/
theorem Variable.exists_atFront? (v : Variable) (rest : List Char)
    : ∃ found,
        atFront? (v.chars ++ rest) = some found ∧ v.chars.length ≤ found.chars.length := by
  cases v with
  | ans => exact ⟨ans, rfl, Nat.le_refl _⟩
  | theta => exact ⟨theta, rfl, Nat.le_refl _⟩
  | letter place =>
      have hletter : ofLetter? (letterChar place) = some (letter place) :=
        ofLetter?_letterChar place
      have hfront (found : Variable) : (letter place).chars.length ≤ found.chars.length := by
        cases found <;> simp [chars]
      rw [chars, List.singleton_append]
      unfold atFront?
      split
      · exact ⟨ans, rfl, hfront _⟩
      · exact ⟨theta, rfl, hfront _⟩
      · next heq =>
        rw [← (List.cons.inj heq).1, hletter]
        exact ⟨_, rfl, hfront _⟩
      · next heq => cases heq

-----------------------------------------------------------------------------------------
-- The longest value
-----------------------------------------------------------------------------------------

/-- If a value opens the text, one at least as long is found there. It is a literal, or a name
before which no literal is found, since none starts like a name. -/
theorem LineByLine.IsValue.found {front text : List Char} (h : IsValue front) (hf : front <+: text)
    : (∃ l, Literal.atFront? text = some l ∧ front.length ≤ l.chars.length)
      ∨ Literal.atFront? text = none
        ∧ ∃ v, Variable.atFront? text = some v ∧ front.length ≤ v.chars.length := by
  obtain ⟨w, rfl⟩ := h.exists_word
  obtain ⟨rest, rfl⟩ := hf
  cases w with
  | literal l hl => exact Or.inl (Literal.exists_atFront? hl rest)
  | name v => exact Or.inr ⟨Literal.atFront?_name v rest, v.exists_atFront? rest⟩

/-- A literal that is found is the longest value at the front. -/
theorem longestFront_of_literal {text : List Char} {l : Literal}
    (h : Literal.atFront? text = some l)
    : LongestFront IsValue text l.chars := by
  obtain ⟨hl, rest, hrest⟩ := Literal.wellFormed_of_atFront? h
  refine ⟨⟨rest, hrest.symm⟩, (Word.literal l hl).isValue, fun other hother hvalue => ?_⟩
  rcases hvalue.found hother with ⟨found, hfound, hle⟩ | ⟨hnone, -⟩
  · rwa [Option.some.inj (hfound.symm.trans h)] at hle
  · cases hnone.symm.trans h

/-- A name that is found, where no literal is, is the longest value at the front. -/
theorem longestFront_of_name {text : List Char} {v : Variable}
    (hliteral : Literal.atFront? text = none) (h : Variable.atFront? text = some v)
    : LongestFront IsValue text v.chars := by
  obtain ⟨rest, hrest⟩ := Variable.exists_of_atFront? h
  refine ⟨⟨rest, hrest.symm⟩, (Word.name v).isValue, fun other hother hvalue => ?_⟩
  rcases hvalue.found hother with ⟨l, hl, -⟩ | ⟨-, found, hfound, hle⟩
  · cases hl.symm.trans hliteral
  · rwa [Option.some.inj (hfound.symm.trans h)] at hle

/-- Where neither is found, no front of the text is a value. -/
theorem not_isValue_of_none {text : List Char} (hliteral : Literal.atFront? text = none)
    (hname : Variable.atFront? text = none) {front : List Char} (h : front <+: text)
    : ¬IsValue front := by
  intro hvalue
  rcases hvalue.found h with ⟨l, hl, -⟩ | ⟨-, v, hv, -⟩
  · cases hl.symm.trans hliteral
  · cases hv.symm.trans hname

namespace Scan

variable {c : Cursor}

/-- What stands at the cursor is taken, with the blanks behind it. -/
theorem exists_expect {text rest : List Char} (h : c.rest = text ++ rest) (hne : text ≠ [])
    : ∃ next,
        expect text c = .ok () next
        ∧ (∃ b : Blanks, c.Passed (text ++ b.chars) next)
        ∧ Text.Flush next.rest := by
  cases he : expect text c with
  | error fault stop => exact absurd he (expect_ne_error (startsWith_of_rest_eq h))
  | ok u next =>
      obtain ⟨x, more, rfl⟩ := List.exists_cons_of_ne_nil hne
      exact ⟨next, rfl, expect_eq_ok.1 he⟩

/-- The text is taken as a value, with the blanks behind it. -/
def TakesValue (c : Cursor) (text : List Char) : Prop :=
  ∃ value next,
    operand c = .ok value next
    ∧ operand? text = some value
    ∧ value.IsNumeric
    ∧ (∃ b : Blanks, c.Passed (text ++ b.chars) next)
    ∧ Text.Flush next.rest

/-- A literal that is found is taken as a value. -/
theorem takesValue_literal {l : Literal} (h : Literal.atFront? c.rest = some l)
    : TakesValue c l.chars := by
  obtain ⟨hl, rest, hrest⟩ := Literal.wellFormed_of_atFront? h
  obtain ⟨next, hexpect, hpassed⟩ := exists_expect hrest (Word.literal l hl).chars_ne_nil
  refine ⟨.literal l.value, next, ?_, LineByLine.operand?_chars (.literal l hl),
    (Word.literal l hl).isNumeric, hpassed⟩
  rw [operand_apply, h]
  exact bind_eq_ok.2 ⟨(), next, hexpect, rfl⟩

/-- A name that is found, where no literal is, is taken as a value. -/
theorem takesValue_name {v : Variable} (hliteral : Literal.atFront? c.rest = none)
    (h : Variable.atFront? c.rest = some v)
    : TakesValue c v.chars := by
  obtain ⟨rest, hrest⟩ := Variable.exists_of_atFront? h
  obtain ⟨next, hexpect, hpassed⟩ := exists_expect hrest (Word.name v).chars_ne_nil
  refine ⟨.reference v, next, ?_, LineByLine.operand?_chars (.name v), (Word.name v).isNumeric,
    hpassed⟩
  have hreference : reference? c = .ok (some v) next := by
    rw [reference?_apply, h]
    exact bind_eq_ok.2 ⟨(), next, hexpect, rfl⟩
  rw [operand_apply, hliteral]
  exact bind_eq_ok.2 ⟨some v, next, hreference, rfl⟩

/-- Where neither is found, reading an operand fails on the spot. -/
theorem operand_of_none (hliteral : Literal.atFront? c.rest = none)
    (hname : Variable.atFront? c.rest = none)
    : operand c = .error ⟨.noValue, c.location⟩ c := by
  have hreference : reference? c = .ok none c := by rw [reference?_apply, hname]
  rw [operand_apply, hliteral]
  exact bind_eq_error.2 (Or.inr ⟨none, c, hreference, rfl⟩)

/-- Wherever the cursor stands, the longest front of the rest of the line that is a literal or the
name of a variable is taken as a value, with the blanks behind it and nothing else. The value is the
number that the literal spells once `~` is read as a minus sign, which is never `nan`, or the
variable. If no front is either of them, a value is missed there and the cursor stays. -/
theorem operand_takes_longest (c : Cursor)
    : (∃ text, LongestFront IsValue c.rest text ∧ TakesValue c text)
      ∨ (∀ text, text <+: c.rest → ¬IsValue text)
        ∧ operand c = .error ⟨.noValue, c.location⟩ c := by
  cases hliteral : Literal.atFront? c.rest with
  | some l => exact Or.inl ⟨_, longestFront_of_literal hliteral, takesValue_literal hliteral⟩
  | none =>
      cases hname : Variable.atFront? c.rest with
      | some v =>
          exact Or.inl
            ⟨_, longestFront_of_name hliteral hname, takesValue_name hliteral hname⟩
      | none =>
          exact Or.inr
            ⟨fun _ => not_isValue_of_none hliteral hname, operand_of_none hliteral hname⟩

end Scan

end LoopCalc
