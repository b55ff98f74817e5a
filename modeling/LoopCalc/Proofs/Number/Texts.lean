import Mathlib
import LoopCalc.Entry
import LoopCalc.Number.Text
import LoopCalc.Proofs.Grammar.Words
import LoopCalc.Proofs.Number.Decimals

/-! The text of a number is read back as the number. A text has the digits of the shortest decimal,
with a point, zeros or an exponent that say its size; reading gives a decimal of the same value, and
that is rounded to the number. Only the sign of zero is not in the text.
-/

namespace LoopCalc

-----------------------------------------------------------------------------------------
-- Decimals with a point
-----------------------------------------------------------------------------------------

namespace Decimal

/-- The digits of a decimal are digits. -/
theorem isDigit_of_mem_digits {d : Decimal} {c : Char} (h : c ∈ d.digits) : c.isDigit = true :=
  Nat.isDigit_of_mem_toDigits (by decide) (by decide) h

/-- A decimal has at least one digit. -/
theorem digits_ne_nil (d : Decimal) : d.digits ≠ [] :=
  Nat.toDigits_ne_nil

/-- The digits of a decimal read back as its coefficient. -/
theorem ofDigitChars_digits (d : Decimal) : Nat.ofDigitChars 10 d.digits 0 = d.coefficient :=
  Nat.ofDigitChars_toDigits (by decide) (by decide)

/-- Zeros are digits. -/
theorem isDigit_of_mem_zeros {n : Nat} {c : Char} (h : c ∈ List.replicate n '0')
    : c.isDigit = true := by
  rw [List.eq_of_mem_replicate h]
  rfl

/-- Zeros behind the digits multiply by powers of ten, by induction on their number. -/
theorem ofDigitChars_zeros (n start : Nat)
    : Nat.ofDigitChars 10 (List.replicate n '0') start = start * 10 ^ n := by
  induction n generalizing start with
  | zero => rw [List.replicate_zero, Nat.ofDigitChars_nil, Nat.pow_zero, Nat.mul_one]
  | succ n ih =>
      rw [List.replicate_succ, Nat.ofDigitChars_cons, ih, Nat.pow_succ]
      simp only [Nat.sub_self, Nat.add_zero]
      ring

end Decimal

namespace Literal

/-- The decimal that a literal stands for before it is rounded, without its sign. -/
def exact (l : Literal) : Decimal :=
  ⟨Nat.ofDigitChars 10 (l.whole ++ l.fraction) 0, -l.fraction.length⟩

/-- The literal is a decimal written without an exponent. -/
structure Spells (l : Literal) (d : Decimal) : Prop where
  wellFormed : l.WellFormed
  unsignedChars_eq : l.unsignedChars = d.positional
  value_eq : l.exact.value = d.value

variable {d : Decimal}

/-- Digits and zeros behind them. -/
theorem spells_whole (negative : Bool) (hexp : 0 ≤ d.exponent)
    : Spells ⟨negative, d.digits ++ List.replicate d.exponent.toNat '0', []⟩ d where
  wellFormed := by
    refine ⟨?_, by simp, Or.inl (by simp [d.digits_ne_nil])⟩
    intro c hc
    rcases List.mem_append.1 hc with hc | hc
    · exact Decimal.isDigit_of_mem_digits hc
    · exact Decimal.isDigit_of_mem_zeros hc
  unsignedChars_eq := by
    rw [Decimal.positional, if_pos hexp, unsignedChars, if_pos rfl, List.append_nil]
  value_eq := by
    obtain ⟨power, hpower⟩ := Int.eq_ofNat_of_zero_le hexp
    rw [exact, Decimal.value, Decimal.value, hpower, List.append_nil, Nat.ofDigitChars_append,
      Decimal.ofDigitChars_digits, Decimal.ofDigitChars_zeros]
    simp

/-- Digits with a point between them. -/
theorem spells_point (negative : Bool) (hexp : d.exponent < 0)
    (hplaces : (-d.exponent).toNat < d.digits.length)
    : Spells ⟨negative, d.digits.take (d.digits.length - (-d.exponent).toNat),
        d.digits.drop (d.digits.length - (-d.exponent).toNat)⟩ d := by
  have hne : d.digits.drop (d.digits.length - (-d.exponent).toNat) ≠ [] := by
    rw [ne_eq, List.drop_eq_nil_iff]
    omega
  refine ⟨⟨?_, ?_, Or.inr hne⟩, ?_, ?_⟩
  · exact fun c hc => Decimal.isDigit_of_mem_digits (List.mem_of_mem_take hc)
  · exact fun c hc => Decimal.isDigit_of_mem_digits (List.mem_of_mem_drop hc)
  · rw [Decimal.positional, if_neg (Int.not_le.2 hexp), if_pos hplaces, unsignedChars, if_neg hne]
  · have hlen : -((d.digits.length - (d.digits.length - (-d.exponent).toNat) : Nat) : ℤ)
        = d.exponent := by
      omega
    rw [exact, List.take_append_drop, Decimal.ofDigitChars_digits, List.length_drop, hlen]

/-- A point and zeros before the digits. -/
theorem spells_fraction (negative : Bool) (hexp : d.exponent < 0)
    (hplaces : d.digits.length ≤ (-d.exponent).toNat)
    : Spells ⟨negative, ['0'],
        List.replicate ((-d.exponent).toNat - d.digits.length) '0' ++ d.digits⟩ d := by
  have hne : List.replicate ((-d.exponent).toNat - d.digits.length) '0' ++ d.digits ≠ [] :=
    List.append_ne_nil_of_right_ne_nil _ d.digits_ne_nil
  refine ⟨⟨by simp, ?_, Or.inr hne⟩, ?_, ?_⟩
  · intro c hc
    rcases List.mem_append.1 hc with hc | hc
    · exact Decimal.isDigit_of_mem_zeros hc
    · exact Decimal.isDigit_of_mem_digits hc
  · rw [Decimal.positional, if_neg (Int.not_le.2 hexp), if_neg (Nat.not_lt.2 hplaces),
      unsignedChars, if_neg hne]
    rfl
  · have hlen : -(((-d.exponent).toNat - d.digits.length + d.digits.length : Nat) : ℤ)
        = d.exponent := by
      omega
    rw [exact, List.singleton_append, Nat.ofDigitChars_cons, Nat.ofDigitChars_append,
      Decimal.ofDigitChars_zeros, Nat.sub_self, Nat.add_zero, Nat.mul_zero, Nat.zero_mul,
      Decimal.ofDigitChars_digits, List.length_append, List.length_replicate, hlen]

/-- Every decimal can be written without an exponent. -/
theorem exists_spells (negative : Bool) (d : Decimal)
    : ∃ l : Literal, l.negative = negative ∧ l.Spells d := by
  rcases Int.lt_or_le d.exponent 0 with hexp | hexp
  · rcases Nat.lt_or_ge (-d.exponent).toNat d.digits.length with hplaces | hplaces
    · exact ⟨_, rfl, spells_point negative hexp hplaces⟩
    · exact ⟨_, rfl, spells_fraction negative hexp hplaces⟩
  · exact ⟨_, rfl, spells_whole negative hexp⟩

end Literal

-----------------------------------------------------------------------------------------
-- Decimals with an exponent
-----------------------------------------------------------------------------------------

namespace Entry

/-- A signed exponent reads back, by its sign. -/
theorem exponent?_signed (power : Int)
    : exponent? ('e' :: (if 0 ≤ power then '+' else '-') :: Nat.toDigits 10 power.natAbs)
      = some power := by
  have hdigits : (Nat.toDigits 10 power.natAbs).all Char.isDigit = true :=
    List.all_eq_true.2 fun c hc => Nat.isDigit_of_mem_toDigits (by decide) (by decide) hc
  have hvalue : Nat.ofDigitChars 10 (Nat.toDigits 10 power.natAbs) 0 = power.natAbs :=
    Nat.ofDigitChars_toDigits (by decide) (by decide)
  split
  · simp only [exponent?, splitSign, hdigits, hvalue, Sign.apply, ne_eq, Nat.toDigits_ne_nil,
      not_false_eq_true, true_or, and_self, if_true, Option.some.injEq]
    omega
  · simp only [exponent?, splitSign, hdigits, hvalue, Sign.apply, ne_eq, Nat.toDigits_ne_nil,
      not_false_eq_true, true_or, and_self, if_true, Option.some.injEq]
    omega

/-- Digits before and after a point, if there are any, and an exponent. -/
theorem decimal?_exponent {lead : Char} {more rest : List Char} {power : Int}
    (hlead : lead.isDigit = true) (hmore : ∀ c ∈ more, c.isDigit = true)
    (hrest : exponent? ('e' :: rest) = some power)
    : decimal? ((if more = [] then [lead] else lead :: '.' :: more) ++ 'e' :: rest)
      = some ⟨Nat.ofDigitChars 10 (lead :: more) 0, power - more.length⟩ := by
  have hfirst : ∀ c ∈ [lead], c.isDigit = true := by simpa using hlead
  split
  · next hnil =>
    obtain ⟨ht, hd⟩ := @Text.takeWhile_run Char.isDigit [lead] ('e' :: rest) hfirst (by simp)
    rw [decimal?, ht, hd]
    simp [splitFraction, hrest, hnil]
  · obtain ⟨ht, hd⟩ :=
      @Text.takeWhile_run Char.isDigit [lead] ('.' :: (more ++ 'e' :: rest)) hfirst (by simp)
    obtain ⟨hmt, hmd⟩ := @Text.takeWhile_run Char.isDigit more ('e' :: rest) hmore (by simp)
    rw [List.cons_append, List.cons_append, ← List.singleton_append, decimal?, ht, hd]
    simp [splitFraction, hmt, hmd, hrest]

end Entry

namespace Decimal

/-- The parts of a decimal that is written with an exponent, by whether it has more than one digit.
-/
theorem exists_scientific_eq (d : Decimal)
    : ∃ lead more,
        d.digits = lead :: more
        ∧ d.scientific
          = (if more = [] then [lead] else lead :: '.' :: more)
            ++ 'e' :: (if 0 ≤ d.exponent + d.digits.length - 1 then '+' else '-')
              :: Nat.toDigits 10 (d.exponent + d.digits.length - 1).natAbs := by
  obtain ⟨lead, more, hdigits⟩ := List.exists_cons_of_ne_nil d.digits_ne_nil
  refine ⟨lead, more, hdigits, ?_⟩
  rw [scientific, hdigits]
  cases more <;> rfl

/-- A decimal written with an exponent is read back as it is. -/
theorem decimal?_scientific (d : Decimal) : Entry.decimal? d.scientific = some d := by
  obtain ⟨lead, more, hdigits, hform⟩ := d.exists_scientific_eq
  have hdigit : ∀ c ∈ lead :: more, c.isDigit = true := by
    rw [← hdigits]
    exact fun c => isDigit_of_mem_digits
  rw [hform, Entry.decimal?_exponent (hdigit lead List.mem_cons_self)
    (fun c hc => hdigit c (List.mem_cons_of_mem _ hc)) (Entry.exponent?_signed _),
    ← hdigits, ofDigitChars_digits]
  have hlen : d.digits.length = more.length + 1 := by rw [hdigits, List.length_cons]
  have hexp : d.exponent + d.digits.length - 1 - more.length = d.exponent := by omega
  rw [hexp]

end Decimal

-----------------------------------------------------------------------------------------
-- Texts as a user would type them
-----------------------------------------------------------------------------------------

/-- A character of the text of a finite number. -/
def Text.isNumberChar (c : Char) : Bool :=
  c.isDigit || c = '.' || c = 'e' || c = '+' || c = '-'

/-- No character of a number is a blank. -/
theorem Text.isBlank_of_isNumberChar {c : Char} (h : isNumberChar c = true)
    : isBlank c = false := by
  simp only [isNumberChar, Bool.or_eq_true, decide_eq_true_eq] at h
  rcases h with (((h | rfl) | rfl) | rfl) | rfl
  · exact isBlank_of_isWordChar (isWordChar_of_isDigit h)
  all_goals decide

/-- A text without blanks is trimmed already. -/
theorem Text.trim_of_ink {cs : List Char} (h : ∀ c ∈ cs, isBlank c = false) : trim cs = cs := by
  have hfront : Flush cs := fun c hc => h c (List.mem_of_mem_head? hc)
  have hback : FlushEnd cs := fun c hc => h c (List.mem_of_mem_getLast? hc)
  rw [trim_of_flush hfront, trimEnd_of_flushEnd hback]

namespace Decimal

/-- A decimal without an exponent is written in digits and a point. -/
theorem isNumberChar_of_mem_positional {d : Decimal} {c : Char} (h : c ∈ d.positional)
    : Text.isNumberChar c = true := by
  obtain ⟨l, -, hl⟩ := Literal.exists_spells false d
  rw [← hl.unsignedChars_eq] at h
  rcases hl.wellFormed.mem_unsignedChars h with hd | rfl
  · simp [Text.isNumberChar, hd]
  · rfl

/-- A decimal with an exponent is written in digits, a point, the letter `e` and a sign. -/
theorem isNumberChar_of_mem_scientific {d : Decimal} {c : Char} (h : c ∈ d.scientific)
    : Text.isNumberChar c = true := by
  obtain ⟨lead, more, hdigits, hform⟩ := d.exists_scientific_eq
  have hdigit : ∀ {c : Char}, c.isDigit = true → Text.isNumberChar c = true := by
    intro c hc
    simp [Text.isNumberChar, hc]
  rw [hform] at h
  rcases List.mem_append.1 h with h | h
  · have hmem : c ∈ d.digits ∨ c = '.' := by
      rw [hdigits]
      split at h <;> grind
    rcases hmem with hc | rfl
    · exact hdigit (isDigit_of_mem_digits hc)
    · rfl
  · rcases List.mem_cons.1 h with rfl | h
    · rfl
    rcases List.mem_cons.1 h with rfl | h
    · split <;> rfl
    · exact hdigit (Nat.isDigit_of_mem_toDigits (by decide) (by decide) h)

/-- No sign stands at the front of a decimal, in either way to write it. -/
theorem not_mem_head?_positional (d : Decimal)
    : '-' ∉ d.positional.head? ∧ '+' ∉ d.positional.head? := by
  obtain ⟨l, -, hl⟩ := Literal.exists_spells false d
  rw [← hl.unsignedChars_eq]
  constructor
  · exact fun h => (hl.wellFormed.ne_sign (List.mem_of_mem_head? h)).2.1 rfl
  · exact fun h => (hl.wellFormed.ne_sign (List.mem_of_mem_head? h)).2.2 rfl

/-- A decimal with an exponent starts with a digit. -/
theorem not_mem_head?_scientific (d : Decimal)
    : '-' ∉ d.scientific.head? ∧ '+' ∉ d.scientific.head? := by
  obtain ⟨lead, more, hdigits, hform⟩ := d.exists_scientific_eq
  have hlead : lead.isDigit = true := isDigit_of_mem_digits (hdigits ▸ List.mem_cons_self)
  have hhead : d.scientific.head? = some lead := by
    rw [hform]
    split <;> rfl
  rw [hhead]
  constructor
  · rintro ⟨⟩
    exact absurd hlead (by decide)
  · rintro ⟨⟩
    exact absurd hlead (by decide)

end Decimal

namespace Entry

/-- A number in a text of its own is read with its sign. -/
theorem read_write {sign : Sign} {body : List Char} {d : Decimal}
    (hchars : ∀ c ∈ body, Text.isNumberChar c = true)
    (hfirst : '-' ∉ body.head? ∧ '+' ∉ body.head?) (hbody : decimal? body = some d)
    : read (String.ofList (sign.write body)) = .ofDecimal sign d := by
  have hall : ∀ c ∈ sign.write body, Text.isNumberChar c = true := by
    intro c hc
    cases sign with
    | plus => exact hchars c hc
    | minus =>
        rcases List.mem_cons.1 hc with rfl | hc
        · rfl
        · exact hchars c hc
  have hsign : splitSign (sign.write body) = (sign, body) := by
    cases sign with
    | minus => rfl
    | plus => exact LineByLine.splitSign_of_ne hfirst.1 hfirst.2
  have htilde : '~' ∉ sign.write body := fun h => absurd (hall _ h) (by decide)
  rw [read, String.toList_ofList,
    Text.trim_of_ink fun c hc => Text.isBlank_of_isNumberChar (hall c hc),
    LineByLine.plainSigns_of_not_mem htilde, number?, hsign]
  simp only [hbody, Option.getD_some]

end Entry

namespace Number

/-- A finite number is zero exactly if its magnitude is, for either sign. -/
theorem isZero_finite_iff {sign : Sign} {k : Fin magnitudeCount}
    : (finite sign k).isZero = true ↔ k.val = 0 := by
  have hrank : (finite sign k).rank? = some (sign.apply k) := rfl
  have hzero : zero.rank? = some 0 := rfl
  rw [isZero, sameValue, hrank, hzero]
  dsimp only
  rw [beq_iff_eq]
  cases sign with
  | plus => exact Int.natCast_eq_zero
  | minus => exact neg_eq_zero.trans Int.natCast_eq_zero

/-- Both ways to write a finite number keep its value. -/
theorem read_text_finite (sign : Sign) {k : Fin magnitudeCount} (hk : k.val ≠ 0)
    : Entry.read (finite sign k).text = finite sign k := by
  rw [text, chars, if_neg hk]
  split
  · obtain ⟨l, -, hl⟩ := Literal.exists_spells false (shortest k)
    have hread : Entry.decimal? (shortest k).positional = some l.exact := by
      rw [← hl.unsignedChars_eq]
      exact LineByLine.decimal?_unsignedChars hl.wellFormed
    rw [Entry.read_write (fun c => Decimal.isNumberChar_of_mem_positional)
      (Decimal.not_mem_head?_positional _) hread]
    exact ofDecimal_of_value_eq sign k hl.value_eq
  · rw [Entry.read_write (fun c => Decimal.isNumberChar_of_mem_scientific)
      (Decimal.not_mem_head?_scientific _) (Decimal.decimal?_scientific _)]
    exact ofDecimal_of_value_eq sign k rfl

/-- The text of a number is read back as the number, except that either zero becomes the positive
one. -/
theorem read_text (x : Number) : Entry.read x.text = if x.isZero then .zero else x := by
  cases x with
  | nan => decide +kernel
  | infinite sign => cases sign <;> decide +kernel
  | finite sign k =>
      by_cases hk : k.val = 0
      · have htext : (finite sign k).text = "0" := by
          rw [text, chars, if_pos hk]
        rw [htext, if_pos (isZero_finite_iff.2 hk)]
        decide +kernel
      · rw [read_text_finite sign hk, if_neg (mt isZero_finite_iff.1 hk)]

/-- The encoding of a rounded number is its sign and its magnitude, the infinite one included. -/
theorem toBits_ofMagnitude (sign : Sign) {k : Nat} (h : k ≤ magnitudeCount)
    : (ofMagnitude sign k).toBits = UInt64.ofNat (toBits.signBit sign + k) := by
  rw [ofMagnitude]
  split
  · rfl
  · next hk =>
    obtain rfl : k = magnitudeCount := by omega
    rfl

/-- The encoding of a number that is not `nan` is the word it was read from. -/
theorem toBits_ofBits {word : UInt64} (h : (ofBits word).isNaN = false)
    : (ofBits word).toBits = word := by
  have hsize : word.toNat < 2 * topBit := word.toNat_lt
  have hword : toBits.signBit (if word.toNat < topBit then .plus else .minus)
      + word.toNat % topBit = word.toNat := by
    split
    · next hlt =>
      rw [Nat.mod_eq_of_lt hlt]
      exact Nat.zero_add _
    · rw [toBits.signBit, Nat.mod_eq_sub_mod (by omega), Nat.mod_eq_of_lt (by omega)]
      omega
  rw [ofBits] at h ⊢
  split at h
  · next hk => rw [if_pos hk, toBits_ofMagnitude _ hk, hword, UInt64.ofNat_toNat]
  · cases h

/-- Reading back the text of any encoded number gives the same encoding; both zeros give the
encoding of positive zero, and every `nan` gives `nan`. -/
theorem toBits_read_text (word : UInt64)
    : (Entry.read (ofBits word).text).isNaN = (ofBits word).isNaN
      ∧ (Entry.read (ofBits word).text).toBits
        = if (ofBits word).isNaN then nan.toBits
          else if (ofBits word).isZero then 0
          else word := by
  rw [read_text]
  cases hnan : (ofBits word).isNaN with
  | true =>
      have hx : ofBits word = nan := by
        cases hx : ofBits word with
        | nan => rfl
        | infinite sign => simp [hx, isNaN] at hnan
        | finite sign k => simp [hx, isNaN] at hnan
      rw [hx]
      exact ⟨rfl, rfl⟩
  | false =>
      cases hzero : (ofBits word).isZero with
      | true => exact ⟨rfl, rfl⟩
      | false => exact ⟨hnan, toBits_ofBits hnan⟩

end Number

end LoopCalc
