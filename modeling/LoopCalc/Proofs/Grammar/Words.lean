import LoopCalc.Proofs.Grammar.Spelling

/-! Written operands are read back, both as whole texts and at the front of a text that does not
continue them. Reading in either way finds nothing but written operands.
-/

namespace LoopCalc

/-- The text does not continue a word. -/
def Text.Apart (cs : List Char) : Prop :=
  ∀ c ∈ cs.head?, isWordChar c = false

/-- What does not continue a word does not start with a digit. -/
theorem Text.Apart.not_isDigit {cs : List Char} (h : Apart cs) {c : Char} (hc : c ∈ cs.head?)
    : c.isDigit = false := by
  rw [Bool.eq_false_iff]
  intro hd
  exact absurd (h c hc) (by simp [isWordChar_of_isDigit hd])

/-- A run of characters of one kind is cut off whole before anything of another kind. -/
theorem Text.takeWhile_run {p : Char → Bool} {run rest : List Char} (hrun : ∀ c ∈ run, p c = true)
    (hrest : ∀ c ∈ rest.head?, p c = false)
    : (run ++ rest).takeWhile p = run ∧ (run ++ rest).dropWhile p = rest := by
  rw [List.takeWhile_append_of_pos hrun, List.dropWhile_append_of_pos hrun]
  cases rest with
  | nil => simp
  | cons c rest => simp [hrest c rfl]

namespace Literal

/-- The characters of a literal after its sign. -/
def unsignedChars (l : Literal) : List Char :=
  l.whole ++ (if l.fraction = [] then [] else '.' :: l.fraction)

/-- A negative literal is written with its sign in front. -/
theorem chars_of_negative {l : Literal} (h : l.negative = true)
    : l.chars = '~' :: l.unsignedChars := by
  simp [chars, unsignedChars, h]

/-- Any other literal is written without a sign. -/
theorem chars_of_not_negative {l : Literal} (h : l.negative = false)
    : l.chars = l.unsignedChars := by
  simp [chars, unsignedChars, h]

/-- Behind its sign, a literal holds digits and a point only. -/
theorem WellFormed.mem_unsignedChars {l : Literal} (hl : l.WellFormed) {c : Char}
    (h : c ∈ l.unsignedChars)
    : c.isDigit = true ∨ c = '.' := by
  rw [unsignedChars, List.mem_append] at h
  rcases h with h | h
  · exact Or.inl (hl.whole c h)
  · split at h
    · simp at h
    · rcases List.mem_cons.1 h with h | h
      · exact Or.inr h
      · exact Or.inl (hl.fraction c h)

/-- Neither sign stands in the digits of a literal. -/
theorem WellFormed.ne_sign {l : Literal} (hl : l.WellFormed) {c : Char}
    (h : c ∈ l.unsignedChars)
    : c ≠ '~' ∧ c ≠ '-' ∧ c ≠ '+' := by
  rcases hl.mem_unsignedChars h with h | rfl
  · refine ⟨?_, ?_, ?_⟩ <;>
      · rintro rfl
        exact absurd h (by decide)
  · decide

/-- There is no point before the point of a literal. -/
theorem WellFormed.not_mem_whole {l : Literal} (hl : l.WellFormed) : '.' ∉ l.whole :=
  fun h => absurd (hl.whole _ h) (by decide)

/-- There is no point behind the point of a literal. -/
theorem WellFormed.not_mem_fraction {l : Literal} (hl : l.WellFormed) : '.' ∉ l.fraction :=
  fun h => absurd (hl.fraction _ h) (by decide)

end Literal

namespace LineByLine

/-- A text of digits is one that is not empty and holds nothing else. -/
theorem isDigits_iff {text : List Char}
    : isDigits text = true ↔ text ≠ [] ∧ ∀ c ∈ text, c.isDigit = true := by
  simp [isDigits]

/-- A text that does not start with the sign is a numeral exactly if it is one without a sign. -/
theorem isNumeral_of_ne {cs : List Char} (h : '~' ∉ cs.head?)
    : isNumeral cs = isNumeral.isUnsigned cs := by
  unfold isNumeral
  split
  · simp at h
  · rfl

/-- What a literal is behind its sign is a numeral without a sign, by where its point is. -/
theorem isUnsigned_unsignedChars {l : Literal} (hl : l.WellFormed)
    : isNumeral.isUnsigned l.unsignedChars = true := by
  by_cases hf : l.fraction = []
  · have hw : l.whole ≠ [] := hl.digits.resolve_right (not_not_intro hf)
    rw [Literal.unsignedChars, if_pos hf, List.append_nil, isNumeral.isUnsigned,
      List.splitOn_eq_singleton hl.not_mem_whole]
    exact isDigits_iff.2 ⟨hw, hl.whole⟩
  · rw [Literal.unsignedChars, if_neg hf, isNumeral.isUnsigned,
      List.splitOn_append_cons_self_of_not_mem hl.not_mem_whole,
      List.splitOn_eq_singleton hl.not_mem_fraction]
    have hd : isDigits l.fraction = true := isDigits_iff.2 ⟨hf, hl.fraction⟩
    have hw : l.whole = [] ∨ isDigits l.whole = true := by
      by_cases hw : l.whole = []
      · exact Or.inl hw
      · exact Or.inr (isDigits_iff.2 ⟨hw, hl.whole⟩)
    simpa using ⟨hw, hd⟩

/-- Every literal is a numeral, by cases on its sign. -/
theorem isNumeral_chars {l : Literal} (hl : l.WellFormed) : isNumeral l.chars = true := by
  cases hn : l.negative with
  | true =>
      rw [Literal.chars_of_negative hn]
      exact isUnsigned_unsignedChars hl
  | false =>
      rw [Literal.chars_of_not_negative hn, isNumeral_of_ne]
      · exact isUnsigned_unsignedChars hl
      · intro h
        exact (hl.ne_sign (List.mem_of_mem_head? h)).1 rfl

/-- A numeral without a sign is what some literal is behind its sign, by where its point is. -/
theorem exists_literal_of_isUnsigned {cs : List Char} (h : isNumeral.isUnsigned cs = true)
    (negative : Bool)
    : ∃ l : Literal, l.WellFormed ∧ l.negative = negative ∧ l.unsignedChars = cs := by
  have hs : ['.'].intercalate (cs.splitOn '.') = cs := List.intercalate_splitOn '.'
  unfold isNumeral.isUnsigned at h
  split at h
  · next whole hw =>
    obtain ⟨hne, hd⟩ := isDigits_iff.1 h
    rw [hw] at hs
    refine ⟨⟨negative, whole, []⟩, ⟨hd, by simp, Or.inl hne⟩, rfl, ?_⟩
    simpa [Literal.unsignedChars] using hs
  · next whole fraction hw =>
    rw [hw] at hs
    rw [decide_eq_true_eq] at h
    obtain ⟨hne, hd⟩ := isDigits_iff.1 h.2
    refine ⟨⟨negative, whole, fraction⟩, ⟨?_, hd, Or.inr hne⟩, rfl, ?_⟩
    · intro c hc
      rcases h.1 with hn | hw
      · simp [hn] at hc
      · exact (isDigits_iff.1 hw).2 c hc
    · simpa [Literal.unsignedChars, hne] using hs
  · cases h

/-- Every numeral is a literal, by cases on its first character. -/
theorem exists_literal_of_isNumeral {cs : List Char} (h : isNumeral cs = true)
    : ∃ l : Literal, l.WellFormed ∧ l.chars = cs := by
  unfold isNumeral at h
  split at h
  · obtain ⟨l, hl, hn, hc⟩ := exists_literal_of_isUnsigned h true
    exact ⟨l, hl, by rw [Literal.chars_of_negative hn, hc]⟩
  · obtain ⟨l, hl, hn, hc⟩ := exists_literal_of_isUnsigned h false
    exact ⟨l, hl, by rw [Literal.chars_of_not_negative hn, hc]⟩

/-- Reading the digits of a literal gives the literal back as a decimal. -/
theorem decimal?_unsignedChars {l : Literal} (hl : l.WellFormed)
    : Entry.decimal? l.unsignedChars
      = some ⟨Nat.ofDigitChars 10 (l.whole ++ l.fraction) 0, -l.fraction.length⟩ := by
  by_cases hf : l.fraction = []
  · have hw : l.whole ≠ [] := hl.digits.resolve_right (not_not_intro hf)
    obtain ⟨ht, hd⟩ := @Text.takeWhile_run Char.isDigit l.whole [] hl.whole (by simp)
    rw [Literal.unsignedChars, if_pos hf, Entry.decimal?, ht, hd]
    simp [Entry.splitFraction, Entry.exponent?, hw, hf]
  · obtain ⟨ht, hd⟩ :=
      @Text.takeWhile_run Char.isDigit l.whole ('.' :: l.fraction) hl.whole (by simp)
    obtain ⟨hft, hfd⟩ := @Text.takeWhile_run Char.isDigit l.fraction [] hl.fraction (by simp)
    rw [List.append_nil] at hft hfd
    rw [Literal.unsignedChars, if_neg hf, Entry.decimal?, ht, hd]
    simp [Entry.splitFraction, Entry.exponent?, hft, hfd, hf]

/-- A text without the calculator's sign is in its usual spelling already. -/
theorem plainSigns_of_not_mem {cs : List Char} (h : '~' ∉ cs) : Entry.plainSigns cs = cs := by
  have hc : ∀ c ∈ cs, (if c = '~' then '-' else c) = id c := by
    intro c hc
    refine if_neg ?_
    rintro rfl
    exact h hc
  exact (List.map_congr_left hc).trans (List.map_id cs)

/-- A text that starts with no sign is positive. -/
theorem splitSign_of_ne {cs : List Char} (hm : '-' ∉ cs.head?) (hp : '+' ∉ cs.head?)
    : Entry.splitSign cs = (.plus, cs) := by
  unfold Entry.splitSign
  split
  · simp at hm
  · simp at hp
  · rfl

/-- The text of a literal, with `~` read as a minus sign, spells the literal's value. -/
theorem number?_chars {l : Literal} (hl : l.WellFormed)
    : Entry.number? (Entry.plainSigns l.chars) = some l.value := by
  have hd := decimal?_unsignedChars hl
  have hs : Entry.plainSigns l.unsignedChars = l.unsignedChars :=
    plainSigns_of_not_mem fun h => (hl.ne_sign h).1 rfl
  cases hn : l.negative with
  | true =>
      have hc : Entry.plainSigns l.chars = '-' :: l.unsignedChars := by
        rw [Literal.chars_of_negative hn]
        exact congrArg ('-' :: ·) hs
      rw [hc, Entry.number?]
      simp [Entry.splitSign, hd, Literal.value, hn]
  | false =>
      rw [Literal.chars_of_not_negative hn, hs, Entry.number?, splitSign_of_ne]
      · simp [hd, Literal.value, hn]
      · exact fun h => (hl.ne_sign (List.mem_of_mem_head? h)).2.1 rfl
      · exact fun h => (hl.ne_sign (List.mem_of_mem_head? h)).2.2 rfl

/-- Names are read back: each of the 28 is found, and found under no other name. -/
theorem ofName?_eq_some_iff {text : List Char} {v : Variable}
    : Variable.ofName? (String.ofList text) = some v ↔ v.chars = text := by
  constructor
  · intro h
    have hn := List.find?_some h
    exact String.ofList_injective (by simpa [Variable.name] using hn)
  · rintro rfl
    -- by running through the places in the table of variables
    have hall : ∀ i, Variable.ofName? (Variable.ofIndex i).name = some (Variable.ofIndex i) := by
      decide +kernel
    have hv := hall v.index
    rwa [Variable.ofIndex_index] at hv

/-- A name is no literal: it has a letter at its front. -/
theorem isNumeral_name (v : Variable) : isNumeral v.chars = false := by
  have hall : ∀ i, isNumeral (Variable.ofIndex i).chars = false := by decide +kernel
  have hv := hall v.index
  rwa [Variable.ofIndex_index] at hv

/-- A word is read as its operand, by cases on whether it is a literal or a name. -/
theorem operand?_chars (w : Word) : operand? w.chars = some w.operand := by
  cases w with
  | literal l hl =>
      simp only [Word.chars, Word.operand, operand?, isNumeral_chars hl, if_true, number?_chars hl,
        Option.map_some]
  | name v =>
      simp only [Word.chars, Word.operand, operand?, isNumeral_name, Bool.false_eq_true, if_false,
        ofName?_eq_some_iff.2 rfl, Option.map_some]

/-- Only words are read as operands. -/
theorem exists_word_of_operand? {text : List Char} {operand : Operand}
    (h : operand? text = some operand)
    : ∃ w : Word, w.chars = text ∧ w.operand = operand := by
  unfold operand? at h
  split at h
  · next hn =>
    obtain ⟨l, hl, rfl⟩ := exists_literal_of_isNumeral hn
    rw [number?_chars hl] at h
    exact ⟨.literal l hl, rfl, Option.some.inj h⟩
  · obtain ⟨v, hv, rfl⟩ := Option.map_eq_some_iff.1 h
    exact ⟨.name v, ofName?_eq_some_iff.1 hv, rfl⟩

/-- A text is read as an iterator exactly if it names a variable other than `Ans`. -/
theorem counter?_eq_some_iff {text : List Char} {v : Variable}
    : counter? text = some v ↔ v.chars = text ∧ v ≠ .ans := by
  rw [counter?, Option.filter_eq_some_iff, ofName?_eq_some_iff, decide_eq_true_eq]

end LineByLine

namespace Literal

/-- A literal without its sign is found at the front, if what follows does not continue it. -/
theorem unsignedAtFront?_append {l : Literal} (hl : l.WellFormed) {rest : List Char}
    (hr : Text.Apart rest)
    : unsignedAtFront? l.negative (l.unsignedChars ++ rest) = some l := by
  have hd : ∀ c ∈ rest.head?, c.isDigit = false := fun c hc => hr.not_isDigit hc
  rcases l with ⟨negative, whole, fraction⟩
  by_cases hf : fraction = []
  · subst hf
    have hw : whole ≠ [] := hl.digits.resolve_right (not_not_intro rfl)
    obtain ⟨ht, hdrop⟩ := Text.takeWhile_run hl.whole hd
    rw [unsignedChars, if_pos rfl, List.append_nil, unsignedAtFront?, ht, hdrop]
    cases rest with
    | nil => simp [hw]
    | cons c rest =>
        -- a point behind the digits would continue the literal
        have hc : c ≠ '.' := by
          rintro rfl
          exact absurd (hr '.' rfl) (by decide)
        simp [hw, hc]
  · obtain ⟨ht, hdrop⟩ :=
      @Text.takeWhile_run Char.isDigit whole ('.' :: (fraction ++ rest)) hl.whole (by simp)
    obtain ⟨hft, -⟩ := Text.takeWhile_run hl.fraction hd
    rw [unsignedChars, if_neg hf, List.append_assoc, List.cons_append, unsignedAtFront?, ht, hdrop]
    simp [hft, hf]

/-- Where no sign stands, a literal without one is looked for. -/
theorem atFront?_of_ne {cs : List Char} (h : '~' ∉ cs.head?)
    : atFront? cs = unsignedAtFront? false cs := by
  unfold atFront?
  split
  · simp at h
  · rfl

/-- A literal at the front is found by what follows its sign, by cases on the sign. -/
theorem atFront?_chars_append {l : Literal} (hl : l.WellFormed) (rest : List Char)
    : atFront? (l.chars ++ rest) = unsignedAtFront? l.negative (l.unsignedChars ++ rest) := by
  cases hn : l.negative with
  | true => rw [chars_of_negative hn, List.cons_append, atFront?]
  | false =>
      rw [chars_of_not_negative hn, atFront?_of_ne]
      intro h
      rw [List.head?_append] at h
      cases hu : l.unsignedChars with
      | nil =>
          rcases hl.digits with hd | hd <;> simp [unsignedChars, hd] at hu
      | cons c more =>
          rw [hu, List.head?_cons, Option.some_or, Option.mem_some] at h
          exact (hl.ne_sign (hu ▸ List.mem_cons_self)).1 h

/-- A written literal is found at the front of a text that does not continue it. -/
theorem atFront?_append {l : Literal} (hl : l.WellFormed) {rest : List Char}
    (hr : Text.Apart rest)
    : atFront? (l.chars ++ rest) = some l := by
  rw [atFront?_chars_append hl]
  exact unsignedAtFront?_append hl hr

/-- What is found at the front is well formed, and stands there. -/
theorem wellFormed_of_unsignedAtFront? {negative : Bool} {cs : List Char} {l : Literal}
    (h : unsignedAtFront? negative cs = some l)
    : l.WellFormed ∧ l.negative = negative ∧ ∃ rest, cs = l.unsignedChars ++ rest := by
  have hdigit {text : List Char} : ∀ c ∈ text.takeWhile Char.isDigit, c.isDigit = true :=
    List.all_eq_true.1 List.all_takeWhile
  -- whatever the fraction is, the literal is as written before the rest
  have hfound {fraction : List Char} (rest : List Char) (hf : ∀ c ∈ fraction, c.isDigit = true)
      (hrest : cs.dropWhile Char.isDigit = (if fraction = [] then [] else '.' :: fraction) ++ rest)
      (h : (if cs.takeWhile Char.isDigit = [] ∧ fraction = [] then none
        else some ⟨negative, cs.takeWhile Char.isDigit, fraction⟩) = some l)
      : l.WellFormed ∧ l.negative = negative ∧ ∃ rest, cs = l.unsignedChars ++ rest := by
    split at h
    · cases h
    · next hne =>
      cases h
      refine ⟨⟨hdigit, hf, ?_⟩, rfl, rest, ?_⟩
      · by_cases hw : cs.takeWhile Char.isDigit = []
        · exact Or.inr fun hn => hne ⟨hw, hn⟩
        · exact Or.inl hw
      · rw [unsignedChars, List.append_assoc, ← hrest, List.takeWhile_append_dropWhile]
  simp only [unsignedAtFront?] at h
  split at h
  · next more hdrop =>
    by_cases hf : more.takeWhile Char.isDigit = []
    · exact hfound ('.' :: more) hdigit (by simp [hf, hdrop]) h
    · refine hfound (more.dropWhile Char.isDigit) hdigit ?_ h
      rw [if_neg hf, List.cons_append, List.takeWhile_append_dropWhile, hdrop]
  · exact hfound (cs.dropWhile Char.isDigit) (by simp) rfl h

/-- What is found at the front of a text is a written literal. -/
theorem wellFormed_of_atFront? {cs : List Char} {l : Literal} (h : atFront? cs = some l)
    : l.WellFormed ∧ ∃ rest, cs = l.chars ++ rest := by
  unfold atFront? at h
  split at h
  · obtain ⟨hl, hn, rest, hr⟩ := wellFormed_of_unsignedAtFront? h
    exact ⟨hl, rest, by rw [chars_of_negative hn, hr, List.cons_append]⟩
  · obtain ⟨hl, hn, rest, hr⟩ := wellFormed_of_unsignedAtFront? h
    exact ⟨hl, rest, by rw [chars_of_not_negative hn, hr]⟩

end Literal

namespace Variable

/-- A letter names the variable at its place. -/
theorem ofLetter?_letterChar (place : Fin 26)
    : ofLetter? (letterChar place) = some (letter place) := by
  revert place
  decide

/-- A name is found at the front of a text that does not continue it. Only `A` is the start of
another name. -/
theorem atFront?_append (v : Variable) {rest : List Char} (hr : Text.Apart rest)
    : atFront? (v.chars ++ rest) = some v := by
  cases v with
  | ans => rfl
  | theta => rfl
  | letter place =>
      have hl := ofLetter?_letterChar place
      rw [chars, List.cons_append, List.nil_append]
      unfold atFront?
      split
      -- the letter opens no longer name, as what follows it is no word character
      · next heq =>
        exact absurd (hr 'n' (by rw [(List.cons.inj heq).2]; rfl)) (by decide)
      · next heq =>
        have ht : ∀ place, letterChar place ≠ 't' := by decide
        exact absurd (List.cons.inj heq).1 (ht place)
      · next c rest' _ _ heq =>
        rw [← (List.cons.inj heq).1]
        exact hl
      · next heq => cases heq

end Variable

/-- A name starts with a character that starts no literal. -/
theorem Variable.exists_chars_eq_cons (v : Variable)
    : ∃ c more, v.chars = c :: more ∧ c.isDigit = false ∧ c ≠ '~' ∧ c ≠ '.' := by
  cases v with
  | ans => exact ⟨'A', ['n', 's'], rfl, by decide⟩
  | theta => exact ⟨'t', ['h', 'e', 't', 'a'], rfl, by decide⟩
  | letter place =>
      refine ⟨Variable.letterChar place, [], rfl, ?_⟩
      revert place
      decide

/-- No literal is found where a name stands. -/
theorem Literal.atFront?_name (v : Variable) (rest : List Char)
    : Literal.atFront? (v.chars ++ rest) = none := by
  obtain ⟨c, more, hc, hdigit, htilde, hpoint⟩ := v.exists_chars_eq_cons
  rw [hc, List.cons_append, Literal.atFront?_of_ne (by simpa using htilde),
    Literal.unsignedAtFront?, List.takeWhile_cons_of_neg (by simp [hdigit]),
    List.dropWhile_cons_of_neg (by simp [hdigit])]
  simp [hpoint]

namespace Number

/-- Magnitudes are numbers. -/
theorem ofMagnitude_ne_nan (sign : Sign) (k : Nat) : ofMagnitude sign k ≠ nan := by
  rw [ofMagnitude]
  split <;> simp

/-- Decimals are numbers, as they are rounded to magnitudes. -/
theorem ofDecimal_ne_nan (sign : Sign) (d : Decimal) : ofDecimal sign d ≠ nan := by
  rw [ofDecimal]
  split
  · simp [zeroOf]
  · split
    · simp
    · exact ofMagnitude_ne_nan sign _

end Number

/-- The operand is no literal `nan`. -/
def Operand.IsNumeric (operand : Operand) : Prop :=
  operand ≠ .literal .nan

/-- No word stands for `nan`. -/
theorem Word.isNumeric (w : Word) : w.operand.IsNumeric := by
  cases w with
  | literal l wellFormed =>
      intro h
      exact Number.ofDecimal_ne_nan _ _ (Operand.literal.inj h)
  | name v => exact Operand.noConfusion

end LoopCalc
