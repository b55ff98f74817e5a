import LoopCalc.Program.Piece
import LoopCalc.Proofs.Grammar.Words
import LoopCalc.Proofs.Parsing.Skipping

/-! Scanning takes spellings. Each step that succeeds has passed the characters of one spelling, and
each spelling is taken whole when the text behind it does not continue it.
-/

namespace LoopCalc

open Text (Blanks)
open LineByLine (Boundary)

namespace Cursor

/-- The second cursor stands behind the given text, in the same line. -/
def Passed (c : Cursor) (text : List Char) (next : Cursor) : Prop :=
  ∃ rest below,
    c.ahead = (text ++ rest) :: below
    ∧ next = ⟨rest :: below, c.line, c.column + text.length, false⟩

/-- What was passed and what follows make up the rest of the line. -/
theorem Passed.rest_eq {c next : Cursor} {text : List Char} (h : c.Passed text next)
    : c.rest = text ++ next.rest := by
  obtain ⟨rest, below, ha, rfl⟩ := h
  simp [Cursor.rest, ha]

/-- What is looked for at the cursor is looked for in the text that is passed and what follows it.
-/
theorem Passed.startsWith_eq {c next : Cursor} {text : List Char} (h : c.Passed text next)
    (want : List Char)
    : c.startsWith want = want.isPrefixOf (text ++ next.rest) := by
  rw [startsWith, h.rest_eq]

/-- Texts that are passed one after the other are passed in all. -/
theorem Passed.trans {c middle next : Cursor} {text more : List Char} (h : c.Passed text middle)
    (hm : middle.Passed more next)
    : c.Passed (text ++ more) next := by
  obtain ⟨rest, below, ha, rfl⟩ := h
  obtain ⟨rest', below', ha', rfl⟩ := hm
  obtain ⟨rfl, rfl⟩ := List.cons.inj ha'
  refine ⟨rest', below, by rw [ha, List.append_assoc], ?_⟩
  simp only [List.length_append, Nat.add_assoc]

/-- A cursor can stop between two texts. -/
theorem Passed.split {c next : Cursor} {text more : List Char} (h : c.Passed (text ++ more) next)
    : ∃ middle, c.Passed text middle ∧ middle.Passed more next := by
  obtain ⟨rest, below, ha, rfl⟩ := h
  refine ⟨⟨(more ++ rest) :: below, c.line, c.column + text.length, false⟩, ?_, ?_⟩
  · exact ⟨more ++ rest, below, by rw [ha, List.append_assoc], rfl⟩
  · exact ⟨rest, below, rfl, by simp only [List.length_append, Nat.add_assoc]⟩

/-- Behind a text, nothing is passed to stay there. -/
theorem Passed.refl {c next : Cursor} {text : List Char} (h : c.Passed text next)
    : next.Passed [] next := by
  obtain ⟨rest, below, -, rfl⟩ := h
  exact ⟨rest, below, rfl, rfl⟩

/-- There is one place behind a text. -/
theorem Passed.unique {c next other : Cursor} {text : List Char} (h : c.Passed text next)
    (ho : c.Passed text other)
    : next = other := by
  obtain ⟨rest, below, ha, rfl⟩ := h
  obtain ⟨rest', below', ha', rfl⟩ := ho
  obtain ⟨hr, rfl⟩ := List.cons.inj (ha.symm.trans ha')
  rw [List.append_cancel_left hr]

/-- Taking a text leads past it, by induction on the text. -/
theorem take_append (text rest : List Char) (below : List (List Char)) (line column : Nat)
    (start : Bool)
    : take text ⟨(text ++ rest) :: below, line, column, start⟩
      = (true, ⟨rest :: below, line, column + text.length, start && text.isEmpty⟩) := by
  induction text generalizing column start with
  | nil => simp [take]
  | cons x text ih =>
      have hc : current? ⟨(x :: text ++ rest) :: below, line, column, start⟩ = some x := rfl
      rw [take, if_pos hc]
      refine (ih (column + 1) false).trans ?_
      simp only [List.length_cons, List.isEmpty_cons, Bool.false_and, Bool.and_false,
        Nat.add_assoc, Nat.add_comm 1]

/-- Advancing drops one character of the line. -/
theorem rest_advance (c : Cursor) : c.advance.rest = c.rest.tail := by
  rcases c with ⟨_ | ⟨text, below⟩, line, column, start⟩ <;> rfl

/-- A text is taken whole exactly when it stands ahead, by induction on the text. -/
theorem take_fst (text : List Char) (c : Cursor) : (take text c).1 = c.startsWith text := by
  induction text generalizing c with
  | nil => simp [take, startsWith]
  | cons x text ih =>
      rw [take, startsWith]
      cases hr : c.rest with
      | nil => simp [current?, hr]
      | cons y rest =>
          by_cases hxy : y = x
          · rw [if_pos (by simp [current?, hr, hxy]), ih, startsWith, rest_advance, hr]
            simp [hxy]
          · rw [if_neg (by simpa [current?, hr] using hxy)]
            simp [List.isPrefixOf, Ne.symm hxy]

end Cursor

namespace Scan

/-- A sequence completes exactly if both parts do, one behind the other. -/
theorem bind_eq_ok {α β : Type} {x : Scan α} {f : α → Scan β} {c next : Cursor} {b : β}
    : (x >>= f) c = .ok b next ↔ ∃ a middle, x c = .ok a middle ∧ f a middle = .ok b next := by
  simp only [Bind.bind, EStateM.bind]
  cases x c with
  | ok a middle =>
      constructor
      · exact fun h => ⟨a, middle, rfl, h⟩
      · rintro ⟨_, _, ⟨⟩, h⟩
        exact h
  | error fault middle => simp

/-- Doing nothing gives its value and leaves the cursor. -/
theorem pure_eq_ok {α : Type} {a b : α} {c next : Cursor}
    : (pure a : Scan α) c = .ok b next ↔ a = b ∧ c = next := by
  simp [pure, EStateM.pure]

/-- Expecting a text passes it and the blanks behind it. -/
theorem expect_eq_ok {x : Char} {text : List Char} {c next : Cursor} {u : Unit}
    : expect (x :: text) c = .ok u next
      ↔ (∃ b : Blanks, c.Passed (x :: text ++ b.chars) next) ∧ Text.Flush next.rest := by
  rw [expect_apply]
  constructor
  · intro h
    have ht := Cursor.take_fst (x :: text) c
    cases hs : c.startsWith (x :: text) with
    | false =>
        -- then the text is not taken whole, and the step fails
        rw [hs] at ht
        generalize Cursor.take (x :: text) c = taken at h ht
        rcases taken with ⟨_ | _, middle⟩ <;> simp at h ht
    | true =>
        obtain ⟨rest, below, ha⟩ := Cursor.ahead_of_startsWith hs
        rcases c with ⟨ahead, line, column, start⟩
        subst ha
        rw [Cursor.take_append] at h
        cases h
        refine ⟨⟨Text.leading rest, Text.trimStart rest, below, ?_, ?_⟩, Text.flush_trimStart rest⟩
        · rw [List.append_assoc, Text.leading_append_trimStart]
        · simp only [Cursor.skipBlanks, Text.leading, List.length_append, Nat.add_assoc,
            List.isEmpty_cons, Bool.and_false]
  · rintro ⟨⟨b, rest, below, ha, rfl⟩, hf⟩
    rcases c with ⟨ahead, line, column, start⟩
    subst ha
    have hf : Text.Flush rest := hf
    rw [List.append_assoc, Cursor.take_append]
    simp only [Cursor.skipBlanks, Text.trimStart_blanks_append, Text.trimStart_of_flush hf,
      Text.takeWhile_blanks_append, Text.takeWhile_of_flush hf, List.append_nil,
      List.length_append, Nat.add_assoc, List.isEmpty_cons, Bool.and_false]

/-- A name that is found at the front of the line is expected there. -/
theorem reference?_apply (c : Cursor)
    : reference? c =
        match Variable.atFront? c.rest with
        | some v => (do expect v.chars; return some v : Scan (Option Variable)) c
        | none => .ok none c := by
  rw [reference?, get_bind_apply]
  cases Variable.atFront? c.rest <;> rfl

/-- A name that is taken has been passed, with the blanks behind it. -/
theorem passed_of_reference? {c next : Cursor} {v : Variable}
    (h : reference? c = .ok (some v) next)
    : (∃ b : Blanks, c.Passed (v.chars ++ b.chars) next) ∧ Text.Flush next.rest := by
  rw [reference?_apply] at h
  split at h
  · next w hw =>
    obtain ⟨_, middle, he, hp⟩ := bind_eq_ok.1 h
    obtain ⟨hv, rfl⟩ := pure_eq_ok.1 hp
    cases hv
    obtain ⟨x, text, hc, -⟩ := v.exists_chars_eq_cons
    rw [hc] at he ⊢
    exact expect_eq_ok.1 he
  · cases h

/-- A word is over here, and so are the blanks behind it. -/
def Closed (cs : List Char) : Prop :=
  Text.Flush cs ∧ Text.Apart cs

/-- A word is over before a character that is neither a blank nor part of a word. -/
theorem closed_cons {c : Char} (hb : Text.isBlank c = false) (hw : Text.isWordChar c = false)
    (cs : List Char)
    : Closed (c :: cs) :=
  ⟨Text.flush_cons.2 hb, by simpa [Text.Apart] using hw⟩

/-- A word is over where a logical line is. -/
theorem closed_of_boundary {cs : List Char} (h : Boundary cs) : Closed cs := by
  cases h with
  | lineEnd => exact ⟨Text.flush_nil, by simp [Text.Apart]⟩
  | separator rest => exact closed_cons (by decide) (by decide) rest
  | comment rest => exact closed_cons (by decide) (by decide) ('/' :: rest)

/-- Blanks do not continue a word. -/
theorem apart_blanks_append {b : Blanks} {cs : List Char} (h : Text.Apart cs)
    : Text.Apart (b.chars ++ cs) := by
  intro c hc
  rw [List.head?_append] at hc
  cases hb : b.chars with
  | nil => exact h c (by simpa [hb] using hc)
  | cons x more =>
      rw [hb, List.head?_cons, Option.some_or, Option.mem_some] at hc
      rw [Bool.eq_false_iff]
      intro hw
      have hx := b.blank x (hb ▸ List.mem_cons_self)
      rw [hc, Text.isBlank_of_isWordChar hw] at hx
      cases hx

/-- A name with the blanks behind it is taken as a reference, if the word is over there. -/
theorem reference?_of_passed {c next : Cursor} {v : Variable} {b : Blanks}
    (h : c.Passed (v.chars ++ b.chars) next) (hn : Closed next.rest)
    : reference? c = .ok (some v) next := by
  have hr : Variable.atFront? c.rest = some v := by
    rw [h.rest_eq, List.append_assoc]
    exact v.atFront?_append (apart_blanks_append hn.2)
  rw [reference?_apply, hr]
  refine bind_eq_ok.2 ⟨(), next, ?_, rfl⟩
  obtain ⟨x, text, hc, -⟩ := v.exists_chars_eq_cons
  rw [hc] at h ⊢
  exact expect_eq_ok.2 ⟨⟨b, h⟩, hn.1⟩

/-- A literal is looked for before a name. -/
theorem operand_apply (c : Cursor)
    : operand c =
        match Literal.atFront? c.rest with
        | some l => (do expect l.chars; return .literal l.value : Scan Operand) c
        | none =>
            (do
              match ← reference? with
              | some v => return .reference v
              | none => fail .noValue : Scan Operand) c := by
  rw [operand, get_bind_apply]
  cases Literal.atFront? c.rest <;> rfl

/-- An operand that is taken has been passed as it is written. -/
theorem passed_of_operand {c next : Cursor} {o : Operand} (h : operand c = .ok o next)
    : (∃ (w : Word) (b : Blanks), c.Passed (w.chars ++ b.chars) next ∧ w.operand = o)
      ∧ Text.Flush next.rest := by
  rw [operand_apply] at h
  split at h
  · next l hl =>
    obtain ⟨hwf, -⟩ := Literal.wellFormed_of_atFront? hl
    obtain ⟨_, middle, he, hp⟩ := bind_eq_ok.1 h
    obtain ⟨rfl, rfl⟩ := pure_eq_ok.1 hp
    have hne := (Word.literal l hwf).chars_ne_nil
    obtain ⟨x, text, hc⟩ := List.exists_cons_of_ne_nil hne
    have hc : l.chars = x :: text := hc
    rw [hc] at he
    obtain ⟨⟨b, hb⟩, hf⟩ := expect_eq_ok.1 he
    exact ⟨⟨.literal l hwf, b, by rw [Word.chars, hc]; exact hb, rfl⟩, hf⟩
  · obtain ⟨found, middle, hr, hp⟩ := bind_eq_ok.1 h
    cases found with
    | none => cases hp
    | some v =>
        obtain ⟨rfl, rfl⟩ := pure_eq_ok.1 hp
        obtain ⟨⟨b, hb⟩, hf⟩ := passed_of_reference? hr
        exact ⟨⟨.name v, b, hb, rfl⟩, hf⟩

/-- A written operand is taken whole before a text that does not continue it. -/
theorem operand_of_passed {c next : Cursor} {w : Word} {b : Blanks}
    (h : c.Passed (w.chars ++ b.chars) next) (hn : Closed next.rest)
    : operand c = .ok w.operand next := by
  have hr : c.rest = w.chars ++ (b.chars ++ next.rest) := by rw [h.rest_eq, List.append_assoc]
  rw [operand_apply]
  cases w with
  | literal l hl =>
      rw [hr, Word.chars, Literal.atFront?_append hl (apart_blanks_append hn.2)]
      refine bind_eq_ok.2 ⟨(), next, ?_, rfl⟩
      obtain ⟨x, text, hc⟩ := List.exists_cons_of_ne_nil (Word.literal l hl).chars_ne_nil
      have hc : l.chars = x :: text := hc
      rw [Word.chars, hc] at h
      rw [hc]
      exact expect_eq_ok.2 ⟨⟨b, h⟩, hn.1⟩
  | name v =>
      rw [hr, Word.chars, Literal.atFront?_name]
      exact bind_eq_ok.2 ⟨some v, next, reference?_of_passed h hn, rfl⟩

/-- An iterator that is read is a name other than `Ans`, with the blanks behind it. -/
theorem passed_of_iterator {c next : Cursor} {v : Variable} (h : iterator c = .ok v next)
    : v ≠ .ans ∧ (∃ b : Blanks, c.Passed (v.chars ++ b.chars) next) ∧ Text.Flush next.rest := by
  obtain ⟨found, middle, hr, hp⟩ := bind_eq_ok.1 h
  split at hp
  · cases hp
  · next w hw =>
    obtain ⟨rfl, rfl⟩ := pure_eq_ok.1 hp
    exact ⟨fun ha => hw (by rw [ha]), passed_of_reference? hr⟩
  · cases hp

/-- A name other than `Ans` is read as an iterator, if the word is over behind it. -/
theorem iterator_of_passed {c next : Cursor} {v : Variable} {b : Blanks} (hv : v ≠ .ans)
    (h : c.Passed (v.chars ++ b.chars) next) (hn : Closed next.rest)
    : iterator c = .ok v next := by
  refine bind_eq_ok.2 ⟨some v, next, reference?_of_passed h hn, ?_⟩
  cases v with
  | ans => contradiction
  | letter place => rfl
  | theta => rfl

/-- An operand that is read behind a comma is an argument. -/
theorem passed_of_nextOperand {c next : Cursor} {o : Operand} (h : nextOperand c = .ok o next)
    : (∃ a : Argument, c.Passed a.chars next ∧ a.word.operand = o) ∧ Text.Flush next.rest := by
  obtain ⟨_, middle, he, ho⟩ := bind_eq_ok.1 h
  obtain ⟨⟨before, hb⟩, -⟩ := expect_eq_ok.1 he
  obtain ⟨⟨w, after, hw, rfl⟩, hf⟩ := passed_of_operand ho
  exact ⟨⟨⟨before, w, after⟩, hb.trans hw, rfl⟩, hf⟩

/-- An argument is read as its operand, if the word is over behind it. -/
theorem nextOperand_of_passed {c next : Cursor} {a : Argument} (h : c.Passed a.chars next)
    (hn : Closed next.rest)
    : nextOperand c = .ok a.word.operand next := by
  have h : c.Passed (',' :: a.before.chars ++ (a.word.chars ++ a.after.chars)) next := h
  obtain ⟨middle, hb, hw⟩ := h.split
  refine bind_eq_ok.2 ⟨(), middle, expect_eq_ok.2 ⟨⟨a.before, hb⟩, ?_⟩, operand_of_passed hw hn⟩
  rw [hw.rest_eq, List.append_assoc]
  exact Text.flush_append a.word.chars_ne_nil a.word.flush

/-- A step is a written argument, or there is none and nothing is passed. -/
theorem passed_of_step {c next : Cursor} {o : Operand} (hc : c.Passed [] c)
    (hf : Text.Flush c.rest) (h : step c = .ok o next)
    : (∃ s : Option Argument,
        c.Passed ((s.map Argument.chars).getD []) next
        ∧ (s.map fun a => a.word.operand).getD (.literal (.ofInt 1)) = o)
      ∧ Text.Flush next.rest := by
  rw [step, get_bind_apply] at h
  split at h
  · obtain ⟨⟨a, ha, ho⟩, hf⟩ := passed_of_nextOperand h
    exact ⟨⟨some a, ha, ho⟩, hf⟩
  · obtain ⟨rfl, rfl⟩ := pure_eq_ok.1 h
    exact ⟨⟨none, hc, rfl⟩, hf⟩

/-- A step is read as its operand, or as one if it is left out and no comma follows. -/
theorem step_of_passed {c next : Cursor} {s : Option Argument} (hc : c.Passed [] c)
    (h : c.Passed ((s.map Argument.chars).getD []) next) (hn : Closed next.rest)
    (hcomma : next.rest.head? ≠ some ',')
    : step c = .ok ((s.map fun a => a.word.operand).getD (.literal (.ofInt 1))) next := by
  rw [step, get_bind_apply]
  cases s with
  | none =>
      obtain rfl := h.unique hc
      rw [if_neg (by rwa [Cursor.startsWith_singleton])]
      rfl
  | some a =>
      have hs : c.startsWith [','] = true := by
        rw [Cursor.startsWith_singleton, h.rest_eq]
        rfl
      rw [if_pos hs]
      exact nextOperand_of_passed h hn

/-- A closing parenthesis is passed with the blanks behind it, or there is none. -/
theorem passed_of_closing {c next : Cursor} {u : Unit} (hc : c.Passed [] c)
    (hf : Text.Flush c.rest) (h : closing c = .ok u next)
    : (∃ b : Option Blanks, c.Passed ((b.map fun b => ')' :: b.chars).getD []) next)
      ∧ Text.Flush next.rest := by
  rw [closing, get_bind_apply] at h
  split at h
  · obtain ⟨⟨b, hb⟩, hf⟩ := expect_eq_ok.1 h
    exact ⟨⟨some b, hb⟩, hf⟩
  · obtain ⟨-, rfl⟩ := pure_eq_ok.1 h
    exact ⟨⟨none, hc⟩, hf⟩

/-- A closing bracket is taken, or nothing if it is left out and none follows. -/
theorem closing_of_passed {c next : Cursor} {b : Option Blanks} (hc : c.Passed [] c)
    (h : c.Passed ((b.map fun b => ')' :: b.chars).getD []) next) (hn : Text.Flush next.rest)
    (hparen : next.rest.head? ≠ some ')')
    : closing c = .ok () next := by
  rw [closing, get_bind_apply]
  cases b with
  | none =>
      obtain rfl := h.unique hc
      rw [if_neg (by rwa [Cursor.startsWith_singleton])]
      rfl
  | some b =>
      have hs : c.startsWith [')'] = true := by
        rw [Cursor.startsWith_singleton, h.rest_eq]
        rfl
      rw [if_pos hs]
      exact expect_eq_ok.2 ⟨⟨b, h⟩, hn⟩

/-- A header in the parts that are read one after the other. -/
theorem headerSpelling_chars_eq (s : HeaderSpelling)
    : s.chars = (Keyword.loop.chars ++ s.lead.chars) ++ ((s.iterator.chars ++ s.after.chars)
        ++ (s.start.chars ++ (s.stop.chars ++ (s.stepChars ++ s.closingChars)))) := by
  simp [HeaderSpelling.chars, HeaderSpelling.inner]

/-- A header that is taken has been passed as it is written. -/
theorem passed_of_header {c next : Cursor} {location : Location} {hd : Header}
    (h : header location c = .ok hd next)
    : (∃ s : HeaderSpelling, c.Passed s.chars next ∧ s.header location = hd)
      ∧ Text.Flush next.rest := by
  obtain ⟨_, c₁, hk, h⟩ := bind_eq_ok.1 h
  obtain ⟨iterator, c₂, hi, h⟩ := bind_eq_ok.1 h
  obtain ⟨start, c₃, hstart, h⟩ := bind_eq_ok.1 h
  obtain ⟨stop, c₄, hstop, h⟩ := bind_eq_ok.1 h
  obtain ⟨step, c₅, hstep, h⟩ := bind_eq_ok.1 h
  obtain ⟨_, c₆, hclosing, h⟩ := bind_eq_ok.1 h
  obtain ⟨rfl, rfl⟩ := pure_eq_ok.1 h
  obtain ⟨⟨lead, hk⟩, -⟩ := expect_eq_ok.1 hk
  obtain ⟨hne, ⟨after, hi⟩, -⟩ := passed_of_iterator hi
  obtain ⟨⟨a, ha, rfl⟩, -⟩ := passed_of_nextOperand hstart
  obtain ⟨⟨b, hb, rfl⟩, hf⟩ := passed_of_nextOperand hstop
  obtain ⟨⟨s, hs, rfl⟩, hf⟩ := passed_of_step hb.refl hf hstep
  obtain ⟨⟨e, he⟩, hf⟩ := passed_of_closing hs.refl hf hclosing
  refine ⟨⟨⟨lead, iterator, hne, after, a, b, s, e⟩, ?_, rfl⟩, hf⟩
  rw [headerSpelling_chars_eq]
  exact hk.trans (hi.trans (ha.trans (hb.trans (hs.trans he))))

/-- A written header is taken whole before a boundary. -/
theorem header_of_passed {c next : Cursor} {s : HeaderSpelling} (location : Location)
    (h : c.Passed s.chars next) (hn : Boundary next.rest)
    : header location c = .ok (s.header location) next := by
  rw [headerSpelling_chars_eq] at h
  obtain ⟨c₁, hk, h⟩ := h.split
  obtain ⟨c₂, hi, h⟩ := h.split
  obtain ⟨c₃, hstart, h⟩ := h.split
  obtain ⟨c₄, hstop, h⟩ := h.split
  obtain ⟨c₅, hstep, hclosing⟩ := h.split
  have hcomma (a : Argument) (rest : List Char) : Closed (a.chars ++ rest) :=
    closed_cons (by decide) (by decide) _
  -- From the end backwards: what follows each part does not continue it.
  have h₆ : Closed next.rest := closed_of_boundary hn
  have h₅ : Closed c₅.rest ∧ c₅.rest.head? ≠ some ',' := by
    rw [hclosing.rest_eq, HeaderSpelling.closingChars]
    cases s.closing with
    | none => exact ⟨h₆, hn.head?_ne (by decide) (by decide)⟩
    | some b => exact ⟨closed_cons (by decide) (by decide) _, by simp⟩
  have h₄ : Closed c₄.rest := by
    rw [hstep.rest_eq, HeaderSpelling.stepChars]
    cases s.step with
    | none => exact h₅.1
    | some a => exact hcomma a _
  have h₃ : Closed c₃.rest := by
    rw [hstop.rest_eq]
    exact hcomma s.stop _
  have h₂ : Closed c₂.rest := by
    rw [hstart.rest_eq]
    exact hcomma s.start _
  have h₁ : Text.Flush c₁.rest := by
    rw [hi.rest_eq, List.append_assoc]
    exact Text.flush_append (Word.name s.iterator).chars_ne_nil s.iterator.flush_chars
  refine bind_eq_ok.2 ⟨(), c₁, expect_eq_ok.2 ⟨⟨s.lead, hk⟩, h₁⟩, ?_⟩
  refine bind_eq_ok.2 ⟨s.iterator, c₂, iterator_of_passed s.counts hi h₂, ?_⟩
  refine bind_eq_ok.2 ⟨_, c₃, nextOperand_of_passed hstart h₃, ?_⟩
  refine bind_eq_ok.2 ⟨_, c₄, nextOperand_of_passed hstop h₄, ?_⟩
  refine bind_eq_ok.2 ⟨_, c₅, step_of_passed hstop.refl hstep h₅.1 h₅.2, ?_⟩
  have hparen : next.rest.head? ≠ some ')' := hn.head?_ne (by decide) (by decide)
  exact bind_eq_ok.2 ⟨(), next, closing_of_passed hstep.refl hclosing h₆.1 hparen, rfl⟩

end Scan

namespace Piece

/-- A step behind the check is made where a logical line starts, and fails elsewhere. -/
theorem checkLineStart_bind {α : Type} (keyword : Keyword) (x : Unit → Scan α) (c : Cursor)
    : (Scan.checkLineStart keyword >>= x) c =
        if c.lineStart then x () c else .error ⟨.misplaced keyword, c.location⟩ c := by
  have hc : Scan.checkLineStart keyword c =
      if c.lineStart then .ok () c else .error ⟨.misplaced keyword, c.location⟩ c := by
    rw [Scan.checkLineStart, Scan.get_bind_apply]
    cases c.lineStart <;> rfl
  simp only [Bind.bind, EStateM.bind, hc]
  cases c.lineStart <;> rfl

/-- A step behind the check completes only where a logical line starts. -/
theorem lineStart_of_checkLineStart_bind {α : Type} {keyword : Keyword} {f : Unit → Scan α}
    {c next : Cursor} {a : α} (h : (Scan.checkLineStart keyword >>= f) c = .ok a next)
    : c.lineStart = true := by
  rw [checkLineStart_bind] at h
  split at h
  · assumption
  · cases h

/-- A statement that is taken starts where one may start. -/
theorem lineStart_of_here {c next : Cursor} {piece : Piece} (h : here c = .ok piece next)
    : c.ahead = [] ∨ c.lineStart = true := by
  rw [here, Scan.get_bind_apply] at h
  split at h
  · next he => exact Or.inl (by simpa [Cursor.atEnd] using he)
  refine Or.inr ?_
  split at h
  · exact lineStart_of_checkLineStart_bind h
  split at h
  · exact lineStart_of_checkLineStart_bind h
  split at h
  · exact lineStart_of_checkLineStart_bind h
  · cases h

/-- A piece that is taken has been passed as it is written; at the end of the source there is
none. -/
theorem passed_of_here {c next : Cursor} {piece : Piece} (h : here c = .ok piece next)
    : (c.ahead = [] ∧ piece = .finished ∧ next = c)
      ∨ (∃ s : Spelling, c.Passed s.chars next ∧ s.piece c.location = piece)
        ∧ Text.Flush next.rest := by
  rw [here, Scan.get_bind_apply] at h
  split at h
  · next he =>
    obtain ⟨rfl, rfl⟩ := Scan.pure_eq_ok.1 h
    exact Or.inl ⟨by simpa [Cursor.atEnd] using he, rfl, rfl⟩
  refine Or.inr ?_
  split at h
  · obtain ⟨hd, middle, hh, hp⟩ := Scan.bind_eq_ok.1 (ok_of_checkLineStart_bind h)
    obtain ⟨rfl, rfl⟩ := Scan.pure_eq_ok.1 hp
    obtain ⟨⟨s, hs, rfl⟩, hf⟩ := Scan.passed_of_header hh
    exact ⟨⟨.header s, hs, rfl⟩, hf⟩
  split at h
  · obtain ⟨_, c₁, hk, h⟩ := Scan.bind_eq_ok.1 (ok_of_checkLineStart_bind h)
    obtain ⟨o, c₂, ho, hp⟩ := Scan.bind_eq_ok.1 h
    obtain ⟨rfl, rfl⟩ := Scan.pure_eq_ok.1 hp
    obtain ⟨⟨before, hk⟩, -⟩ := Scan.expect_eq_ok.1 hk
    obtain ⟨⟨w, after, hw, rfl⟩, hf⟩ := Scan.passed_of_operand ho
    refine ⟨⟨.disp before w after, ?_, rfl⟩, hf⟩
    have hall := hk.trans hw
    rwa [List.append_assoc] at hall
  split at h
  · obtain ⟨_, c₁, hk, hp⟩ := Scan.bind_eq_ok.1 (ok_of_checkLineStart_bind h)
    obtain ⟨rfl, rfl⟩ := Scan.pure_eq_ok.1 hp
    obtain ⟨⟨after, hk⟩, hf⟩ := Scan.expect_eq_ok.1 hk
    exact ⟨⟨.close after, hk, rfl⟩, hf⟩
  · cases h

/-- Where no word of the language stands, nothing is taken. -/
theorem here_of_separator {c : Cursor} (h : c.startsWith [':'] = true)
    : here c = .error ⟨.noStatement, c.location⟩ c := by
  obtain ⟨rest, below, ha⟩ := Cursor.ahead_of_startsWith h
  rcases c with ⟨ahead, line, column, start⟩
  subst ha
  rfl

/-- A written piece is taken whole before a boundary. -/
theorem here_of_passed {c next : Cursor} {s : Spelling} (hl : c.lineStart = true)
    (h : c.Passed s.chars next) (hn : Boundary next.rest)
    : here c = .ok (s.piece c.location) next := by
  have he : c.atEnd = false := by
    obtain ⟨rest, below, ha, -⟩ := h
    simp [Cursor.atEnd, ha]
  rw [here, Scan.get_bind_apply]
  cases s with
  | close after =>
      have hloop : c.startsWith Keyword.loop.chars = false := h.startsWith_eq _
      have hdisp : c.startsWith Keyword.disp.chars = false := h.startsWith_eq _
      have hclose : c.startsWith Keyword.close.chars = true := h.startsWith_eq _
      simp only [he, hloop, hdisp, hclose, Bool.false_eq_true, if_false, if_true]
      rw [checkLineStart_bind, if_pos hl]
      exact Scan.bind_eq_ok.2 ⟨(), next, Scan.expect_eq_ok.2 ⟨⟨after, h⟩, hn.flush⟩, rfl⟩
  | disp before word after =>
      have hloop : c.startsWith Keyword.loop.chars = false := h.startsWith_eq _
      have hdisp : c.startsWith Keyword.disp.chars = true := h.startsWith_eq _
      simp only [he, hloop, hdisp, Bool.false_eq_true, if_false, if_true]
      rw [checkLineStart_bind, if_pos hl]
      rw [Spelling.chars, ← List.append_assoc] at h
      obtain ⟨middle, hk, hw⟩ := h.split
      have hf : Text.Flush middle.rest := by
        rw [hw.rest_eq, List.append_assoc]
        exact Text.flush_append word.chars_ne_nil word.flush
      refine Scan.bind_eq_ok.2 ⟨(), middle, Scan.expect_eq_ok.2 ⟨⟨before, hk⟩, hf⟩, ?_⟩
      have ho := Scan.operand_of_passed hw (Scan.closed_of_boundary hn)
      exact Scan.bind_eq_ok.2 ⟨_, next, ho, rfl⟩
  | header s =>
      have hloop : c.startsWith Keyword.loop.chars = true := h.startsWith_eq _
      simp only [he, hloop, Bool.false_eq_true, if_false, if_true]
      rw [checkLineStart_bind, if_pos hl]
      exact Scan.bind_eq_ok.2 ⟨_, next, Scan.header_of_passed c.location h hn, rfl⟩

end Piece

end LoopCalc
