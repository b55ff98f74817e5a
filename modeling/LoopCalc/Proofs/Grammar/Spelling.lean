import LoopCalc.Proofs.Grammar.LogicalLines
import LoopCalc.Program.Literal

/-! Written pieces. A spelling fixes every character of a piece: how its numbers are written, the
blanks after each token, and whether a step and a closing parenthesis are there. Spellings are the
common ground of scanning, of reading whole lines and of laying out programs.
-/

namespace LoopCalc

open Text (Blanks)

/-- The literal can be written: digits only, and at least one. -/
structure Literal.WellFormed (l : Literal) : Prop where
  whole : ∀ c ∈ l.whole, c.isDigit = true
  fraction : ∀ c ∈ l.fraction, c.isDigit = true
  digits : l.whole ≠ [] ∨ l.fraction ≠ []

/-- An operand as it is written. -/
inductive Word where
  | literal (l : Literal) (wellFormed : l.WellFormed)
  | name (v : Variable)

namespace Word

def chars : Word → List Char
  | literal l _ => l.chars
  | name v => v.chars

def operand : Word → Operand
  | literal l _ => .literal l.value
  | name v => .reference v

end Word

/-- A comma and the operand after it, with the blanks after both. -/
structure Argument where
  before : Blanks
  word : Word
  after : Blanks

def Argument.chars (a : Argument) : List Char :=
  ',' :: (a.before.chars ++ (a.word.chars ++ a.after.chars))

/-- A loop header as it is written. -/
structure HeaderSpelling where
  lead : Blanks
  iterator : Variable
  counts : iterator ≠ .ans
  after : Blanks
  start : Argument
  stop : Argument
  step : Option Argument
  /-- The blanks after the closing parenthesis, if there is one. -/
  closing : Option Blanks

namespace HeaderSpelling

/-- The step as it is written, if it is. -/
def stepChars (h : HeaderSpelling) : List Char :=
  (h.step.map Argument.chars).getD []

def closingChars (h : HeaderSpelling) : List Char :=
  (h.closing.map fun b => ')' :: b.chars).getD []

/-- What stands between the keyword and the closing parenthesis. -/
def inner (h : HeaderSpelling) : List Char :=
  h.lead.chars ++ (h.iterator.chars ++ (h.after.chars
    ++ (h.start.chars ++ (h.stop.chars ++ h.stepChars))))

def chars (h : HeaderSpelling) : List Char :=
  Keyword.loop.chars ++ (h.inner ++ h.closingChars)

/-- The header that is spelled, at the place of its first character. -/
def header (h : HeaderSpelling) (location : Location) : Header where
  iterator := h.iterator
  start := h.start.word.operand
  stop := h.stop.word.operand
  step := (h.step.map fun a => a.word.operand).getD (.literal (.ofInt 1))
  location := location

end HeaderSpelling

/-- A piece as it is written, with the blanks after each of its tokens. -/
inductive Spelling where
  | close (after : Blanks)
  | disp (before : Blanks) (word : Word) (after : Blanks)
  | header (h : HeaderSpelling)

namespace Spelling

def chars : Spelling → List Char
  | close after => Keyword.close.chars ++ after.chars
  | disp before word after =>
      Keyword.disp.chars ++ (before.chars ++ (word.chars ++ after.chars))
  | header h => h.chars

/-- The piece that is spelled, at the place of its first character. -/
def piece (location : Location) : Spelling → Piece
  | close _ => .close location
  | disp _ word _ => .disp word.operand location
  | header h => .header (h.header location)

end Spelling

/-- A character that operands are made of. -/
def Text.isWordChar (c : Char) : Bool :=
  c.isAlphanum || c = '~' || c = '.'

/-- A word character is no blank. -/
theorem Text.isBlank_of_isWordChar {c : Char} (h : isWordChar c = true) : isBlank c = false := by
  -- all of them lie between the space and the next blank above it
  have hn : 32 < c.toNat ∧ c.toNat < 133 := by
    simp only [isWordChar, Bool.or_eq_true, decide_eq_true_eq] at h
    rcases h with (h | rfl) | rfl
    · delta Char.isAlphanum Char.isAlpha Char.isUpper Char.isLower Char.isDigit at h
      simp only [Bool.or_eq_true, Bool.and_eq_true, decide_eq_true_eq,
        UInt32.le_iff_toNat_le] at h
      have hz : c.val.toNat = c.toNat := rfl
      have hbounds : ('A'.val.toNat = 65 ∧ 'Z'.val.toNat = 90)
          ∧ ('a'.val.toNat = 97 ∧ 'z'.val.toNat = 122)
          ∧ ('0'.val.toNat = 48 ∧ '9'.val.toNat = 57) := by
        decide
      omega
    · decide
    · decide
  simp only [isBlank, blankRanges, inRanges]
  grind

/-- Names are made of word characters, by cases on the variable. -/
theorem Variable.isWordChar_of_mem_chars {v : Variable} {c : Char} (h : c ∈ v.chars)
    : Text.isWordChar c = true := by
  have hletter : ∀ place, (letter place).chars.all Text.isWordChar = true := by decide
  have hall : v.chars.all Text.isWordChar = true := by
    cases v with
    | ans => decide
    | letter place => exact hletter place
    | theta => decide
  exact List.all_eq_true.1 hall c h

/-- Digits are word characters. -/
theorem Text.isWordChar_of_isDigit {c : Char} (h : c.isDigit = true) : isWordChar c = true := by
  simp [isWordChar, Char.isAlphanum, h]

/-- Literals are made of word characters: a sign, digits and a point. -/
theorem Literal.WellFormed.isWordChar_of_mem_chars {l : Literal} (hl : l.WellFormed) {c : Char}
    (h : c ∈ l.chars)
    : Text.isWordChar c = true := by
  simp only [Literal.chars, List.mem_append] at h
  rcases h with (h | h) | h
  · split at h
    · rw [List.mem_singleton.1 h]
      decide
    · simp at h
  · exact Text.isWordChar_of_isDigit (hl.whole c h)
  · split at h
    · simp at h
    · rcases List.mem_cons.1 h with rfl | h
      · decide
      · exact Text.isWordChar_of_isDigit (hl.fraction c h)

/-- Words are made of word characters, by cases on whether it is a literal or a name. -/
theorem Word.isWordChar_of_mem_chars {w : Word} {c : Char} (h : c ∈ w.chars)
    : Text.isWordChar c = true := by
  cases w with
  | literal l hl => exact hl.isWordChar_of_mem_chars h
  | name v => exact Variable.isWordChar_of_mem_chars h

/-- No word is empty. -/
theorem Word.chars_ne_nil (w : Word) : w.chars ≠ [] := by
  cases w with
  | literal l hl =>
      rcases hl.digits with h | h <;> simp [Word.chars, Literal.chars, h]
  | name v => cases v <;> simp [Word.chars, Variable.chars]

/-- A text of word characters has ink at both ends. -/
theorem Text.flush_of_isWordChar {cs : List Char} (h : ∀ c ∈ cs, isWordChar c = true)
    : Flush cs ∧ FlushEnd cs := by
  constructor
  · intro c hc
    exact isBlank_of_isWordChar (h c (List.mem_of_mem_head? hc))
  · intro c hc
    exact isBlank_of_isWordChar (h c (List.mem_of_mem_getLast? hc))

/-- A word does not start with a blank, since word characters are none. -/
theorem Word.flush (w : Word) : Text.Flush w.chars :=
  (Text.flush_of_isWordChar fun _ => w.isWordChar_of_mem_chars).1

/-- A word does not end with a blank, since word characters are none. -/
theorem Word.flushEnd (w : Word) : Text.FlushEnd w.chars :=
  (Text.flush_of_isWordChar fun _ => w.isWordChar_of_mem_chars).2

/-- A name does not start with a blank. -/
theorem Variable.flush_chars (v : Variable) : Text.Flush v.chars :=
  (Word.name v).flush

/-- A character that pieces are made of. -/
def Text.isPieceChar (c : Char) : Bool :=
  isWordChar c || isBlank c || c = '(' || c = ',' || c = ')'

/-- Blanks can stand in a piece. -/
theorem Text.Blanks.isPieceChar_of_mem {b : Blanks} {c : Char} (h : c ∈ b.chars)
    : isPieceChar c = true := by
  simp [isPieceChar, b.blank c h]

/-- Word characters can stand in a piece. -/
theorem Text.isPieceChar_of_isWordChar {c : Char} (h : isWordChar c = true)
    : isPieceChar c = true := by
  simp [isPieceChar, h]

/-- The characters of keywords can stand in a piece. -/
theorem Keyword.isPieceChar_of_mem_chars {k : Keyword} {c : Char} (h : c ∈ k.chars)
    : Text.isPieceChar c = true := by
  have hall : k.chars.all Text.isPieceChar = true := by
    cases k <;> decide
  exact List.all_eq_true.1 hall c h

/-- An argument is made of such characters: a comma, blanks and a word. -/
theorem Argument.isPieceChar_of_mem_chars {a : Argument} {c : Char} (h : c ∈ a.chars)
    : Text.isPieceChar c = true := by
  simp only [Argument.chars, List.mem_cons, List.mem_append] at h
  rcases h with rfl | h | h | h
  · decide
  · exact Blanks.isPieceChar_of_mem h
  · exact Text.isPieceChar_of_isWordChar (Word.isWordChar_of_mem_chars h)
  · exact Blanks.isPieceChar_of_mem h

/-- A header is made of such characters, part by part. -/
theorem HeaderSpelling.isPieceChar_of_mem_chars {h : HeaderSpelling} {c : Char} (hc : c ∈ h.chars)
    : Text.isPieceChar c = true := by
  simp only [HeaderSpelling.chars, HeaderSpelling.inner, List.mem_append] at hc
  rcases hc with hc | (hc | hc | hc | hc | hc | hc) | hc
  · exact Keyword.isPieceChar_of_mem_chars hc
  · exact Blanks.isPieceChar_of_mem hc
  · exact Text.isPieceChar_of_isWordChar (Variable.isWordChar_of_mem_chars hc)
  · exact Blanks.isPieceChar_of_mem hc
  · exact Argument.isPieceChar_of_mem_chars hc
  · exact Argument.isPieceChar_of_mem_chars hc
  · rw [HeaderSpelling.stepChars] at hc
    cases hs : h.step with
    | none => simp [hs] at hc
    | some a => exact Argument.isPieceChar_of_mem_chars (by simpa [hs] using hc)
  · rw [HeaderSpelling.closingChars] at hc
    cases hs : h.closing with
    | none => simp [hs] at hc
    | some b =>
        rcases List.mem_cons.1 (by simpa [hs] using hc : c ∈ ')' :: b.chars) with rfl | hb
        · decide
        · exact Blanks.isPieceChar_of_mem hb

/-- Every piece is made of such characters, by cases on the piece. -/
theorem Spelling.isPieceChar_of_mem_chars {s : Spelling} {c : Char} (h : c ∈ s.chars)
    : Text.isPieceChar c = true := by
  cases s with
  | close after =>
      rcases List.mem_append.1 h with h | h
      · exact Keyword.isPieceChar_of_mem_chars h
      · exact Blanks.isPieceChar_of_mem h
  | disp before word after =>
      simp only [Spelling.chars, List.mem_append] at h
      rcases h with h | h | h | h
      · exact Keyword.isPieceChar_of_mem_chars h
      · exact Blanks.isPieceChar_of_mem h
      · exact Text.isPieceChar_of_isWordChar (Word.isWordChar_of_mem_chars h)
      · exact Blanks.isPieceChar_of_mem h
  | header h' => exact HeaderSpelling.isPieceChar_of_mem_chars h

/-- No separator, comment mark or other foreign character stands in a piece. -/
theorem Spelling.not_mem_chars (s : Spelling) {c : Char} (hc : Text.isPieceChar c = false)
    : c ∉ s.chars := by
  intro h
  rw [Spelling.isPieceChar_of_mem_chars h] at hc
  cases hc

/-- A piece starts with a character that is no blank, the first of its keyword. -/
theorem Spelling.exists_chars_eq_cons (s : Spelling)
    : ∃ c text, s.chars = c :: text ∧ Text.isBlank c = false := by
  cases s with
  | close after => exact ⟨'E', _, rfl, by decide⟩
  | disp before word after => exact ⟨'D', _, rfl, by decide⟩
  | header h => exact ⟨'F', _, rfl, by decide⟩

/-- The blanks after the last token of a header. -/
def HeaderSpelling.ending (h : HeaderSpelling) : Blanks :=
  match h.closing, h.step with
  | some b, _ => b
  | none, some a => a.after
  | none, none => h.stop.after

/-- The header with other blanks after its last token. -/
def HeaderSpelling.withEnding (h : HeaderSpelling) (b : Blanks) : HeaderSpelling :=
  match h.closing, h.step with
  | some _, _ => { h with closing := some b }
  | none, some a => { h with step := some { a with after := b } }
  | none, none => { h with stop := { h.stop with after := b } }

/-- The blanks after the last token of a piece. -/
def Spelling.ending : Spelling → Blanks
  | close after => after
  | disp _ _ after => after
  | header h => h.ending

/-- The same piece with other blanks after its last token. -/
def Spelling.withEnding : Spelling → Blanks → Spelling
  | close _, b => close b
  | disp before word _, b => disp before word b
  | header h, b => header (h.withEnding b)

/-- The same piece without blanks at its end. -/
def Spelling.trimmed (s : Spelling) : Spelling :=
  s.withEnding .none

/-- A piece has its own blanks at its end. -/
theorem Spelling.withEnding_ending (s : Spelling) : s.withEnding s.ending = s := by
  cases s with
  | close after => rfl
  | disp before word after => rfl
  | header h =>
      rcases h with ⟨lead, iterator, counts, after, start, stop, _ | step, _ | closing⟩ <;> rfl

/-- The blanks at the end make no difference to what a piece says. -/
theorem Spelling.piece_withEnding (s : Spelling) (b : Blanks) (location : Location)
    : (s.withEnding b).piece location = s.piece location := by
  cases s with
  | close after => rfl
  | disp before word after => rfl
  | header h =>
      rcases h with ⟨lead, iterator, counts, after, start, stop, _ | step, _ | closing⟩ <;> rfl

/-- Other blanks at the end are written behind the piece without any. -/
theorem Spelling.chars_withEnding (s : Spelling) (b : Blanks)
    : (s.withEnding b).chars = s.trimmed.chars ++ b.chars := by
  cases s with
  | close after => simp [trimmed, withEnding, chars]
  | disp before word after => simp [trimmed, withEnding, chars]
  | header h =>
      rcases h with ⟨lead, iterator, counts, after, start, stop, _ | step, _ | closing⟩ <;>
        simp [trimmed, withEnding, HeaderSpelling.withEnding, chars, HeaderSpelling.chars,
          HeaderSpelling.inner, HeaderSpelling.stepChars, HeaderSpelling.closingChars,
          Argument.chars]

/-- A piece is written as the piece without blanks at its end, and these blanks. -/
theorem Spelling.chars_eq_trimmed (s : Spelling) : s.chars = s.trimmed.chars ++ s.ending.chars := by
  have h := s.chars_withEnding s.ending
  rwa [withEnding_ending] at h

/-- More blanks can be put at the end of a piece. -/
theorem Spelling.exists_chars_append (s : Spelling) (b : Blanks)
    : ∃ t : Spelling,
        t.chars = s.chars ++ b.chars ∧ ∀ location, t.piece location = s.piece location := by
  refine ⟨s.withEnding (s.ending.append b), ?_, s.piece_withEnding _⟩
  rw [chars_withEnding, s.chars_eq_trimmed, List.append_assoc]
  rfl

/-- An argument without blanks at its end does not end with a blank, as its word does not. -/
theorem Argument.flushEnd_chars (a : Argument) : Text.FlushEnd { a with after := .none }.chars := by
  rw [Argument.chars, Blanks.chars_none, List.append_nil, ← List.cons_append]
  exact Text.flushEnd_append a.word.chars_ne_nil a.word.flushEnd

/-- Without the blanks behind it a header ends with its closing parenthesis, its step or its second
bound. -/
theorem HeaderSpelling.flushEnd_withEnding (h : HeaderSpelling)
    : Text.FlushEnd (h.withEnding .none).chars := by
  rcases h with ⟨lead, iterator, counts, after, start, stop, step, _ | closing⟩
  · cases step with
    | none =>
        simp only [chars, withEnding, inner, stepChars, closingChars, Option.map_none,
          Option.getD_none, List.append_nil, ← List.append_assoc]
        exact Text.flushEnd_append (List.cons_ne_nil _ _) stop.flushEnd_chars
    | some a =>
        simp only [chars, withEnding, inner, stepChars, closingChars, Option.map_none,
          Option.map_some, Option.getD_none, Option.getD_some, List.append_nil,
          ← List.append_assoc]
        exact Text.flushEnd_append (List.cons_ne_nil _ _) a.flushEnd_chars
  · simp only [chars, withEnding, closingChars, Option.map_some, Option.getD_some,
      Blanks.chars_none, ← List.append_assoc]
    exact Text.flushEnd_concat.2 (by decide)

/-- A piece without blanks at its end does not end with a blank, by cases on its last token. -/
theorem Spelling.flushEnd_trimmed (s : Spelling) : Text.FlushEnd s.trimmed.chars := by
  cases s with
  | close after =>
      have he : Text.FlushEnd (['E', 'n'] ++ ['d']) := Text.flushEnd_concat.2 (by decide)
      exact he
  | disp before word after =>
      rw [trimmed, withEnding, chars, Blanks.chars_none, List.append_nil, ← List.append_assoc]
      exact Text.flushEnd_append word.chars_ne_nil word.flushEnd
  | header h => exact h.flushEnd_withEnding

/-- Trimming the end of a piece takes away just the blanks after its last token. -/
theorem Spelling.trimEnd_chars (s : Spelling) : Text.trimEnd s.chars = s.trimmed.chars := by
  rw [s.chars_eq_trimmed, Text.trimEnd_append_blanks, Text.trimEnd_of_flushEnd s.flushEnd_trimmed]

/-- A written piece before a boundary is one logical line. -/
theorem LineByLine.ofLine_spelling (s : Spelling) {rest : List Char} (hr : Boundary rest)
    (line column : Nat)
    : ofLine line column (s.chars ++ rest)
      = ⟨⟨line + 1, column + 1⟩, s.trimmed.chars⟩
        :: ofLine line (column + s.chars.length) rest := by
  rw [← s.trimEnd_chars]
  obtain ⟨c, text, hs, hc⟩ := s.exists_chars_eq_cons
  have hcolon : ':' ∉ s.chars := s.not_mem_chars (by decide)
  have hu := uncommented_append (s.not_mem_chars (by decide)) rest
  rw [hs] at hcolon hu ⊢
  exact ofLine_text hc hcolon hu hr line column

end LoopCalc
