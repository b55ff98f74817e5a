import LoopCalc.Proofs.Grammar.Words
import LoopCalc.Screen.Highlight

/-! The tokens of written pieces. What stands behind a piece cannot run into it: a word ends where
letters end, a number where digits do, and pieces are followed by neither. So the tokens of a line
are those of its pieces one after the other, and between them stands nothing that a reader would
take for a value or a keyword.
-/

namespace LoopCalc

/-- A number in a table is in one of its ranges, by induction on the table. -/
theorem Text.exists_range_of_inRanges {ranges : List (Nat × Nat)} {n : Nat}
    (h : inRanges ranges n = true)
    : ∃ r ∈ ranges, r.1 ≤ n ∧ n ≤ r.2 := by
  induction ranges with
  | nil => cases h
  | cons r ranges ih =>
      rw [inRanges] at h
      split at h
      · cases h
      · next hlow =>
        rw [Bool.or_eq_true, decide_eq_true_eq] at h
        rcases h with hhigh | h
        · exact ⟨r, List.mem_cons_self, Nat.le_of_not_lt hlow, hhigh⟩
        · obtain ⟨r', hr, hn⟩ := ih h
          exact ⟨r', List.mem_cons_of_mem _ hr, hn⟩

/-- No blank is a letter: the few ranges of blanks are run through. -/
theorem Text.isLetter_of_isBlank {c : Char} (h : isBlank c = true) : isLetter c = false := by
  have hall : ∀ r ∈ blankRanges, ∀ n ∈ List.range' r.1 (r.2 + 1 - r.1),
      inRanges letterRanges n = false := by
    decide +kernel
  obtain ⟨r, hr, hlow, hhigh⟩ := exists_range_of_inRanges h
  exact hall r hr c.toNat (List.mem_range'_1.2 (by omega))

namespace Screen.Highlight

open Text (Blanks)

-----------------------------------------------------------------------------------------
-- Tokens with a meaning
-----------------------------------------------------------------------------------------

namespace Token

/-- The token is drawn like a value. Separators are drawn in the colour of numbers, and they are
told apart by their text. -/
def isValue (t : Token) : Bool :=
  (t.role.style = Role.number.style || t.role.style = Role.name.style) && t.text ≠ [':']

/-- The token is drawn like a keyword. -/
def isKeyword (t : Token) : Bool :=
  t.role.style = Role.keyword.style

/-- The token is drawn like a comment. -/
def isComment (t : Token) : Bool :=
  t.role.style = Role.comment.style

/-- The token is drawn like a value or a keyword. -/
def isMark (t : Token) : Bool :=
  t.isValue || t.isKeyword

/-- A symbol is drawn neither as a value nor as a keyword. -/
theorem isMark_symbol (c : Char) : isMark ⟨.ofSymbol c, [c]⟩ = false := by
  rw [Role.ofSymbol]
  split
  · rfl
  · split
    · next hc => simp [isMark, isValue, isKeyword, hc, Role.style, Style.ink, Style.strong]
    · rfl

end Token

/-- The values and keywords of a text that is no comment. -/
def marks (text : List Char) : List Token :=
  (tokens text).filter Token.isMark

-----------------------------------------------------------------------------------------
-- Where tokens end
-----------------------------------------------------------------------------------------

/-- No word and no number goes on with the text. -/
def Stops (text : List Char) : Prop :=
  ∀ c ∈ text.head?, Text.isLetter c = false ∧ continuesNumber c = false

/-- The character is part of no word and no number. -/
structure IsSymbol (c : Char) : Prop where
  not_letter : Text.isLetter c = false
  not_number : startsNumber c = false

/-- Blanks are symbols. -/
theorem isSymbol_of_isBlank {c : Char} (h : Text.isBlank c = true) : IsSymbol c where
  not_letter := Text.isLetter_of_isBlank h
  not_number := by
    rw [Bool.eq_false_iff]
    intro hn
    have hword : Text.isWordChar c = true := by
      simp only [startsNumber, Bool.or_eq_true, decide_eq_true_eq] at hn
      rcases hn with (hn | rfl) | rfl
      · exact Text.isWordChar_of_isDigit hn
      · rfl
      · rfl
    rw [Text.isBlank_of_isWordChar hword] at h
    cases h

/-- No word and no number goes on with nothing. -/
theorem stops_nil : Stops [] := by
  simp [Stops]

/-- No word and no number goes on with a symbol. -/
theorem IsSymbol.stops {c : Char} (h : IsSymbol c) (rest : List Char) : Stops (c :: rest) := by
  intro x hx
  obtain rfl : c = x := by simpa using hx
  refine ⟨h.not_letter, ?_⟩
  rw [continuesNumber, h.not_number, Bool.false_or, decide_eq_false_iff_not]
  rintro rfl
  exact absurd h.not_letter (by decide)

/-- No word and no number goes on with blanks, or with nothing before what they do not go on with.
-/
theorem stops_blanks_append (b : Blanks) {rest : List Char} (h : Stops rest)
    : Stops (b.chars ++ rest) := by
  cases hb : b.chars with
  | nil => exact h
  | cons c more => exact (isSymbol_of_isBlank (b.blank c (hb ▸ List.mem_cons_self))).stops _

-----------------------------------------------------------------------------------------
-- Tokens at the front of a text
-----------------------------------------------------------------------------------------

/-- A symbol at the front of a text is a token of its own. -/
theorem tokens_symbol {c : Char} (h : IsSymbol c) (rest : List Char)
    : tokens (c :: rest) = ⟨.ofSymbol c, [c]⟩ :: tokens rest := by
  rw [tokens, if_neg (by simp [h.not_number]), if_neg (by simp [h.not_letter])]

/-- A symbol at the front of a text is no mark. -/
theorem marks_symbol {c : Char} (h : IsSymbol c) (rest : List Char)
    : marks (c :: rest) = marks rest := by
  rw [marks, tokens_symbol h, List.filter_cons_of_neg (by simp [Token.isMark_symbol]), marks]

/-- Blanks have no meaning, by induction on them. -/
theorem marks_blanks (b : Blanks) (rest : List Char) : marks (b.chars ++ rest) = marks rest := by
  rcases b with ⟨chars, hblank⟩
  induction chars with
  | nil => rfl
  | cons c chars ih =>
      refine (marks_symbol (isSymbol_of_isBlank (hblank c List.mem_cons_self)) _).trans ?_
      exact ih fun x hx => hblank x (List.mem_cons_of_mem _ hx)

/-- A run of letters is one word where none follows. -/
theorem tokens_letters {c : Char} {letters rest : List Char}
    (hletters : ∀ x ∈ c :: letters, Text.isLetter x = true) (hnumber : startsNumber c = false)
    (hrest : Stops rest)
    : tokens (c :: letters ++ rest)
      = word (c :: letters) (rest.head? = some '(') ++ tokens rest := by
  obtain ⟨htake, hdrop⟩ :=
    Text.takeWhile_run (fun x hx => hletters x (List.mem_cons_of_mem _ hx))
      (fun x hx => (hrest x hx).1)
  rw [List.cons_append, tokens, if_neg (by simp [hnumber]),
    if_pos (hletters c List.mem_cons_self)]
  dsimp only
  rw [htake, hdrop]

/-- Every character of a literal can stand in a number. -/
theorem startsNumber_of_mem_literal {l : Literal} (hl : l.WellFormed) {c : Char}
    (h : c ∈ l.chars)
    : startsNumber c = true := by
  cases hn : l.negative with
  | true =>
      rw [Literal.chars_of_negative hn] at h
      rcases List.mem_cons.1 h with rfl | h
      · rfl
      · rcases hl.mem_unsignedChars h with hd | rfl
        · simp [startsNumber, hd]
        · rfl
  | false =>
      rw [Literal.chars_of_not_negative hn] at h
      rcases hl.mem_unsignedChars h with hd | rfl
      · simp [startsNumber, hd]
      · rfl

/-- A literal is one number where nothing goes on with it. -/
theorem tokens_literal {l : Literal} (hl : l.WellFormed) {rest : List Char} (hrest : Stops rest)
    : tokens (l.chars ++ rest) = ⟨.number, l.chars⟩ :: tokens rest := by
  obtain ⟨c, more, hc⟩ := List.exists_cons_of_ne_nil (Word.literal l hl).chars_ne_nil
  have hchars : l.chars = c :: more := hc
  have hnumber : ∀ x ∈ c :: more, startsNumber x = true := by
    intro x hx
    exact startsNumber_of_mem_literal hl (hchars ▸ hx)
  have hmore : ∀ x ∈ more, continuesNumber x = true := by
    intro x hx
    rw [continuesNumber, hnumber x (List.mem_cons_of_mem _ hx), Bool.true_or]
  obtain ⟨htake, hdrop⟩ := Text.takeWhile_run hmore fun x hx => (hrest x hx).2
  rw [hchars, List.cons_append, tokens, if_pos (hnumber c List.mem_cons_self), htake, hdrop]

/-- Names are made of letters, by cases on the variable. -/
theorem isLetter_of_mem_name {v : Variable} {c : Char} (h : c ∈ v.chars)
    : Text.isLetter c = true := by
  have hletter : ∀ place, (Variable.letter place).chars.all Text.isLetter = true := by decide
  have hall : v.chars.all Text.isLetter = true := by
    cases v with
    | ans => decide
    | letter place => exact hletter place
    | theta => decide
  exact List.all_eq_true.1 hall c h

/-- A word that is one name is cut nowhere. -/
theorem names_chars (v : Variable) : names v.chars = [⟨.name, v.chars⟩] := by
  obtain ⟨c, more, hc⟩ := List.exists_cons_of_ne_nil (Word.name v).chars_ne_nil
  have hchars : v.chars = c :: more := hc
  have hfront : Variable.atFront? (v.chars ++ []) = some v :=
    v.atFront?_append (by simp [Text.Apart])
  rw [List.append_nil, hchars] at hfront
  rw [hchars, names, hfront]
  simp [hchars, names]

/-- No name is a keyword. -/
theorem isKeyword_name (v : Variable) (called : Bool) : isKeyword v.chars called = false := by
  cases v <;> simp [isKeyword, Variable.chars]

/-- A name is one token where no letter follows. -/
theorem tokens_name (v : Variable) {rest : List Char} (hrest : Stops rest)
    : tokens (v.chars ++ rest) = ⟨.name, v.chars⟩ :: tokens rest := by
  obtain ⟨c, more, hchars, hdigit, htilde, hpoint⟩ := v.exists_chars_eq_cons
  have hnumber : startsNumber c = false := by simp [startsNumber, hdigit, htilde, hpoint]
  have hletters : ∀ x ∈ c :: more, Text.isLetter x = true := by
    intro x hx
    exact isLetter_of_mem_name (hchars ▸ hx)
  have hword (called : Bool) : word (c :: more) called = [⟨.name, v.chars⟩] := by
    rw [← hchars, word, isKeyword_name, if_neg Bool.false_ne_true, names_chars]
  rw [hchars, tokens_letters hletters hnumber hrest, hword, ← hchars]
  rfl

-----------------------------------------------------------------------------------------
-- Tokens of pieces
-----------------------------------------------------------------------------------------

/-- The word of a keyword, without the character that has to follow it. -/
def keywordText : Keyword → List Char
  | .loop => ['F', 'o', 'r']
  | .disp => ['D', 'i', 's', 'p']
  | .close => ['E', 'n', 'd']

/-- A keyword is one token where a statement needs it. Only an `End` has nothing of its own behind
it. -/
theorem marks_keyword (k : Keyword) {rest : List Char} (h : k = .close → Stops rest)
    : marks (k.chars ++ rest) = ⟨.keyword, keywordText k⟩ :: marks rest := by
  have hparen : IsSymbol '(' := ⟨by decide, by decide⟩
  have hspace : IsSymbol ' ' := ⟨by decide, by decide⟩
  have hletters : ∀ k, ∀ x ∈ keywordText k, Text.isLetter x = true := by
    intro k
    have hall : (keywordText k).all Text.isLetter = true := by cases k <;> decide
    exact List.all_eq_true.1 hall
  cases k with
  | loop =>
      have htokens := tokens_letters (hletters .loop) (by decide) (hparen.stops rest)
      rw [← marks_symbol hparen rest]
      exact congrArg (List.filter Token.isMark) htokens
  | disp =>
      have htokens := tokens_letters (hletters .disp) (by decide) (hspace.stops rest)
      rw [← marks_symbol hspace rest]
      exact congrArg (List.filter Token.isMark) htokens
  | close =>
      have htokens := tokens_letters (hletters .close) (by decide) (h rfl)
      exact congrArg (List.filter Token.isMark) htokens

/-- The token of a written operand. -/
def ofWord : Word → Token
  | .literal l _ => ⟨.number, l.chars⟩
  | .name v => ⟨.name, v.chars⟩

/-- A word is cut off as one token, if it does not go on. -/
theorem tokens_word (w : Word) {rest : List Char} (hrest : Stops rest)
    : tokens (w.chars ++ rest) = ofWord w :: tokens rest := by
  cases w with
  | literal l wellFormed => exact tokens_literal wellFormed hrest
  | name v => exact tokens_name v hrest

/-- The token of a word is the word. -/
theorem text_ofWord (w : Word) : (ofWord w).text = w.chars := by
  cases w <;> rfl

/-- An operand looks like a value. No operand reads like a separator. -/
theorem isValue_ofWord (w : Word) : (ofWord w).isValue = true := by
  have htext : (ofWord w).text ≠ [':'] := by
    rw [text_ofWord]
    intro h
    have hcolon : ':' ∈ w.chars := h ▸ List.mem_singleton_self ':'
    exact absurd (Word.isWordChar_of_mem_chars hcolon) (by decide)
  rw [Token.isValue, decide_eq_true htext, Bool.and_true]
  cases w <;> rfl

/-- A word is a mark, if it does not go on. -/
theorem marks_word (w : Word) {rest : List Char} (hrest : Stops rest)
    : marks (w.chars ++ rest) = ofWord w :: marks rest := by
  have hmark : (ofWord w).isMark = true := by simp [Token.isMark, isValue_ofWord]
  rw [marks, tokens_word w hrest, List.filter_cons_of_pos hmark, marks]

/-- An argument has one mark, its word. -/
theorem marks_argument (a : Argument) {rest : List Char} (hrest : Stops rest)
    : marks (a.chars ++ rest) = ofWord a.word :: marks rest := by
  have hcomma : IsSymbol ',' := ⟨by decide, by decide⟩
  rw [Argument.chars, List.cons_append, marks_symbol hcomma, List.append_assoc, marks_blanks,
    List.append_assoc, marks_word _ (stops_blanks_append _ hrest), marks_blanks]

/-- No word and no number goes on with an argument, which starts with a comma. -/
theorem stops_argument (a : Argument) (rest : List Char) : Stops (a.chars ++ rest) :=
  IsSymbol.stops ⟨by decide, by decide⟩ _

/-- The values of a piece as it is written: of a header the iterator, the start, the end and the
step if there is one. -/
def values : Spelling → List Token
  | .close _ => []
  | .disp _ word _ => [ofWord word]
  | .header h =>
      ⟨.name, h.iterator.chars⟩ :: ofWord h.start.word :: ofWord h.stop.word
        :: (h.step.map fun a => ofWord a.word).toList

/-- The keyword of a piece. -/
def keyword : Spelling → Keyword
  | .close _ => .close
  | .disp .. => .disp
  | .header _ => .loop

/-- The end of a header has no marks, be it written or not, and nothing goes on with it. -/
theorem marks_closing (h : HeaderSpelling) {rest : List Char} (hrest : Stops rest)
    : marks (h.closingChars ++ rest) = marks rest ∧ Stops (h.closingChars ++ rest) := by
  have hparen : IsSymbol ')' := ⟨by decide, by decide⟩
  rw [HeaderSpelling.closingChars]
  cases h.closing with
  | none => exact ⟨rfl, hrest⟩
  | some b => exact ⟨(marks_symbol hparen _).trans (marks_blanks b rest), hparen.stops _⟩

/-- The step of a header has one mark if it is written, and nothing goes on with it. -/
theorem marks_step (h : HeaderSpelling) {rest : List Char} (hrest : Stops rest)
    : marks (h.stepChars ++ rest)
        = (h.step.map fun a => ofWord a.word).toList ++ marks rest
      ∧ Stops (h.stepChars ++ rest) := by
  rw [HeaderSpelling.stepChars]
  cases h.step with
  | none => exact ⟨rfl, hrest⟩
  | some a => exact ⟨marks_argument a hrest, stops_argument a rest⟩

/-- The values and keywords of a written piece, with what stands behind it. -/
theorem marks_spelling (s : Spelling) {rest : List Char} (hrest : Stops rest)
    : marks (s.chars ++ rest)
      = ⟨.keyword, keywordText (keyword s)⟩ :: values s ++ marks rest := by
  cases s with
  | close after =>
      rw [Spelling.chars, List.append_assoc,
        marks_keyword _ fun _ => stops_blanks_append after hrest, marks_blanks]
      rfl
  | disp before word after =>
      rw [Spelling.chars, List.append_assoc, marks_keyword .disp Keyword.noConfusion,
        List.append_assoc, marks_blanks, List.append_assoc,
        marks_word _ (stops_blanks_append after hrest), marks_blanks]
      rfl
  | header h =>
      obtain ⟨hclosing, hclosed⟩ := marks_closing h hrest
      obtain ⟨hstep, hstepped⟩ := marks_step h hclosed
      rw [Spelling.chars, HeaderSpelling.chars, List.append_assoc,
        marks_keyword .loop Keyword.noConfusion, HeaderSpelling.inner]
      simp only [List.append_assoc]
      rw [marks_blanks]
      refine congrArg _ ((marks_word (.name h.iterator) ?_).trans ?_)
      · exact stops_blanks_append _ (stops_argument _ _)
      rw [marks_blanks, marks_argument _ (stops_argument _ _), marks_argument _ hstepped, hstep,
        hclosing]
      rfl

end Screen.Highlight

end LoopCalc
