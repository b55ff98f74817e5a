import LoopCalc.Proofs.Grammar.Nesting
import LoopCalc.Proofs.Parsing.Scanning

/-! Where scanning stops at a fault. It stops between two tokens of a statement, or where none
starts, and what it has passed of the statement can always be completed. Only a loop over `Ans` is
found out later, behind the name.
-/

namespace LoopCalc

open Text (Blanks)

/-- A name that is found at the front of a text stands there. -/
theorem Variable.exists_of_atFront? {cs : List Char} {v : Variable} (h : atFront? cs = some v)
    : ∃ rest, cs = v.chars ++ rest := by
  unfold atFront? at h
  split at h
  · cases h
    exact ⟨_, rfl⟩
  · cases h
    exact ⟨_, rfl⟩
  · next c rest _ _ =>
    unfold ofLetter? at h
    split at h
    · next hc =>
      cases h
      refine ⟨rest, ?_⟩
      rw [chars, letterChar, Nat.add_sub_cancel' hc.1, Char.ofNat_toNat]
      rfl
    · cases h
  · cases h

/-- The text opens a display or a header that can be completed on the same line. -/
def Begun (text : List Char) : Prop :=
  ∃ (s : Spelling) (more : List Char),
    s.chars = text ++ more ∧ '\n' ∉ more ∧ ∀ location, (s.piece location).isClose = false

/-- The simplest operand, to complete a statement with. -/
def Word.simplest : Word :=
  .name .theta

def Argument.simplest : Argument :=
  ⟨.none, .simplest, .none⟩

/-- How a statement breaks off: behind a text that could still be completed, or behind the `Ans`
that follows such a text. -/
inductive Scan.Stops (c : Cursor) (fault : Fault) : Prop
  | inside {text : List Char} {next : Cursor} (passed : c.Passed text next)
      (location_eq : fault.location = next.location) (counts : fault.cause ≠ .ansIterator)
      (begun : Begun text)
  | overAns {text : List Char} {after : Blanks} {next : Cursor}
      (passed : c.Passed (text ++ (Variable.ans.chars ++ after.chars)) next)
      (location_eq : fault.location = next.location) (cause_eq : fault.cause = .ansIterator)
      (flush : Text.Flush next.rest) (begun : Begun text)

namespace Scan

variable {c stop : Cursor} {fault : Fault}

/-- A sequence fails where its first part does, or where the second does behind it. -/
theorem bind_eq_error {α β : Type} {x : Scan α} {f : α → Scan β}
    : (x >>= f) c = .error fault stop
      ↔ x c = .error fault stop
        ∨ ∃ a middle, x c = .ok a middle ∧ f a middle = .error fault stop := by
  simp only [Bind.bind, EStateM.bind]
  cases x c with
  | ok a middle =>
      refine ⟨fun h => Or.inr ⟨a, middle, rfl, h⟩, ?_⟩
      rintro (⟨⟨⟩⟩ | ⟨_, _, ⟨⟩, h⟩)
      exact h
  | error fault middle => simp

/-- What stands at the cursor can be expected. -/
theorem expect_ne_error {text : List Char} (h : c.startsWith text = true)
    : expect text c ≠ .error fault stop := by
  have ht := Cursor.take_fst text c
  rw [h] at ht
  rw [expect_apply]
  generalize Cursor.take text c = taken at ht
  rcases taken with ⟨_ | _, next⟩
  · cases ht
  · simp

/-- What stands at the cursor is found there. -/
theorem startsWith_of_rest_eq {text rest : List Char} (h : c.rest = text ++ rest)
    : c.startsWith text = true := by
  rw [Cursor.startsWith, h]
  exact List.isPrefixOf_iff_prefix.2 (List.prefix_append text rest)

/-- A single character is missed where the cursor stands. -/
theorem expect_eq_error {x : Char} (h : expect [x] c = .error fault stop)
    : fault = ⟨.expected (String.ofList [x]), c.location⟩ := by
  rw [expect_apply, Cursor.take] at h
  split at h
  · next hq =>
    split at hq
    · cases h
    · cases hq
  · next hq =>
    split at hq
    · cases hq
    · obtain ⟨-, rfl⟩ := Prod.mk.inj hq
      cases h
      rfl

/-- Looking for a name never fails. -/
theorem reference?_ne_error : reference? c ≠ .error fault stop := by
  rw [reference?_apply]
  split
  · next v hv =>
    obtain ⟨rest, hr⟩ := Variable.exists_of_atFront? hv
    intro h
    rcases bind_eq_error.1 h with h | ⟨_, _, -, h⟩
    · exact expect_ne_error (startsWith_of_rest_eq hr) h
    · cases h
  · simp

/-- The cursor stays where it is if no name is found. -/
theorem eq_of_reference?_none {next : Cursor} (h : reference? c = .ok none next) : c = next := by
  rw [reference?_apply] at h
  split at h
  · obtain ⟨_, _, -, hp⟩ := bind_eq_ok.1 h
    cases hp
  · cases h
    rfl

/-- An operand is missed where the cursor stands. -/
theorem operand_eq_error (h : operand c = .error fault stop)
    : fault = ⟨.noValue, c.location⟩ := by
  rw [operand_apply] at h
  split at h
  · next l hl =>
    obtain ⟨-, rest, hr⟩ := Literal.wellFormed_of_atFront? hl
    rcases bind_eq_error.1 h with h | ⟨_, _, -, h⟩
    · exact absurd h (expect_ne_error (startsWith_of_rest_eq hr))
    · cases h
  · rcases bind_eq_error.1 h with h | ⟨found, middle, hr, h⟩
    · exact absurd h reference?_ne_error
    · cases found with
      | some v => cases h
      | none =>
          cases h
          rw [eq_of_reference?_none hr]

/-- Reading an iterator fails where no name stands, or behind the name `Ans` and its blanks. -/
theorem iterator_eq_error (h : iterator c = .error fault stop)
    : fault = ⟨.noVariable, c.location⟩
      ∨ ∃ (b : Blanks) (next : Cursor),
          c.Passed (Variable.ans.chars ++ b.chars) next
          ∧ Text.Flush next.rest
          ∧ fault = ⟨.ansIterator, next.location⟩ := by
  rcases bind_eq_error.1 h with h | ⟨found, middle, hr, h⟩
  · exact absurd h reference?_ne_error
  split at h
  · obtain ⟨⟨b, hb⟩, hf⟩ := passed_of_reference? hr
    refine Or.inr ⟨b, middle, hb, hf, ?_⟩
    cases h
    rfl
  · cases h
  · cases h
    rw [eq_of_reference?_none hr]
    exact Or.inl rfl

/-- How an argument breaks off: behind a text that could be completed to one. -/
inductive StopsInArgument (c : Cursor) (fault : Fault) : Prop
  | mk {text : List Char} {next : Cursor} (passed : c.Passed text next)
      (location_eq : fault.location = next.location) (counts : fault.cause ≠ .ansIterator)
      {a : Argument} {more : List Char} (chars_eq : a.chars = text ++ more) (inline : '\n' ∉ more)

/-- An argument breaks off before its comma or behind it. -/
theorem nextOperand_eq_error (hc : c.Passed [] c) (h : nextOperand c = .error fault stop)
    : StopsInArgument c fault := by
  have hword : '\n' ∉ Word.simplest.chars := by decide
  rcases bind_eq_error.1 h with h | ⟨_, middle, he, h⟩
  · rw [expect_eq_error h]
    have hargument : '\n' ∉ Argument.simplest.chars := by decide
    exact .mk hc rfl (by simp) (List.nil_append _).symm hargument
  · obtain ⟨⟨before, hb⟩, -⟩ := expect_eq_ok.1 he
    have hchars : (⟨before, .simplest, .none⟩ : Argument).chars
        = [','] ++ before.chars ++ Word.simplest.chars := by
      simp [Argument.chars]
    rw [operand_eq_error h]
    exact .mk hb rfl (by simp) hchars hword

/-- Reading a step fails only in the argument behind its comma. -/
theorem step_eq_error (hc : c.Passed [] c) (h : step c = .error fault stop)
    : StopsInArgument c fault := by
  rw [step, get_bind_apply] at h
  split at h
  · exact nextOperand_eq_error hc h
  · cases h

/-- Reading a closing bracket never fails. -/
theorem closing_ne_error : closing c ≠ .error fault stop := by
  rw [closing, get_bind_apply]
  split
  · next hs => exact expect_ne_error hs
  · intro h
    cases h

/-- A statement whose next argument breaks off, if it could go on behind any argument. -/
theorem StopsInArgument.stops {middle : Cursor} {front : List Char}
    (h : StopsInArgument middle fault) (hp : c.Passed front middle)
    (hs : ∀ a : Argument, ∃ (s : Spelling) (back : List Char),
      s.chars = front ++ (a.chars ++ back)
      ∧ '\n' ∉ back
      ∧ ∀ location, (s.piece location).isClose = false)
    : Stops c fault := by
  obtain @⟨text, next, passed, location_eq, counts, a, more, chars_eq, inline⟩ := h
  obtain ⟨s, back, hchars, hback, hopens⟩ := hs a
  refine .inside (hp.trans passed) location_eq counts ⟨s, more ++ back, ?_, ?_, hopens⟩
  · rw [hchars, chars_eq]
    simp only [List.append_assoc]
  · simp [inline, hback]

/-- A header that breaks off can be completed from where it does. -/
theorem header_eq_error {location : Location} (hk : c.startsWith Keyword.loop.chars = true)
    (h : header location c = .error fault stop)
    : Stops c fault := by
  have hend : '\n' ∉ Argument.simplest.chars := by decide
  rcases bind_eq_error.1 h with h | ⟨_, c₁, hword, h⟩
  · exact absurd h (expect_ne_error hk)
  obtain ⟨⟨lead, hword⟩, -⟩ := expect_eq_ok.1 hword
  have hword : c.Passed (Keyword.loop.chars ++ lead.chars) c₁ := hword
  rcases bind_eq_error.1 h with h | ⟨iterator, c₂, hi, h⟩
  · have hbegun : Begun (Keyword.loop.chars ++ lead.chars) := by
      refine ⟨.header ⟨lead, .theta, by decide, .none, .simplest, .simplest, none, none⟩,
        Word.simplest.chars ++ (Argument.simplest.chars ++ Argument.simplest.chars), ?_,
        by decide, fun _ => rfl⟩
      exact headerSpelling_chars_eq _
    rcases iterator_eq_error h with rfl | ⟨b, next, hb, hf, rfl⟩
    · exact .inside hword rfl (by simp) hbegun
    · exact .overAns (hword.trans hb) rfl rfl hf hbegun
  obtain ⟨hne, ⟨after, hi⟩, -⟩ := passed_of_iterator hi
  have hi := hword.trans hi
  rcases bind_eq_error.1 h with h | ⟨start, c₃, hstart, h⟩
  · refine (nextOperand_eq_error hi.refl h).stops hi fun a => ?_
    refine ⟨.header ⟨lead, iterator, hne, after, a, .simplest, none, none⟩,
      Argument.simplest.chars, ?_, hend, fun _ => rfl⟩
    rw [List.append_assoc]
    exact headerSpelling_chars_eq _
  obtain ⟨⟨a, ha, -⟩, -⟩ := passed_of_nextOperand hstart
  have ha := hi.trans ha
  rcases bind_eq_error.1 h with h | ⟨stop, c₄, hstop, h⟩
  · refine (nextOperand_eq_error ha.refl h).stops ha fun b => ?_
    refine ⟨.header ⟨lead, iterator, hne, after, a, b, none, none⟩, [], ?_, List.not_mem_nil,
      fun _ => rfl⟩
    rw [Spelling.chars, headerSpelling_chars_eq]
    simp only [List.append_assoc]
    rfl
  obtain ⟨⟨b, hb, -⟩, -⟩ := passed_of_nextOperand hstop
  have hb := ha.trans hb
  rcases bind_eq_error.1 h with h | ⟨step, c₅, hstep, h⟩
  · refine (step_eq_error hb.refl h).stops hb fun d => ?_
    refine ⟨.header ⟨lead, iterator, hne, after, a, b, some d, none⟩, [], ?_, List.not_mem_nil,
      fun _ => rfl⟩
    rw [Spelling.chars, headerSpelling_chars_eq]
    simp only [List.append_assoc]
    rfl
  rcases bind_eq_error.1 h with h | ⟨_, c₆, -, h⟩
  · exact absurd h closing_ne_error
  · cases h

end Scan

namespace Piece

/-- A step behind the check for a line start fails at the check, or itself. -/
theorem checkLineStart_bind_eq_error {α : Type} {keyword : Keyword} {x : Unit → Scan α}
    {c stop : Cursor} {fault : Fault}
    (h : (Scan.checkLineStart keyword >>= x) c = .error fault stop)
    : fault = ⟨.misplaced keyword, c.location⟩
      ∨ c.lineStart = true ∧ x () c = .error fault stop := by
  rw [checkLineStart_bind] at h
  split at h
  · next hl => exact Or.inr ⟨hl, h⟩
  · cases h
    exact Or.inl rfl

/-- A piece breaks off where it should start or inside the statement that does start there. -/
theorem here_eq_error {c stop : Cursor} {fault : Fault} (h : here c = .error fault stop)
    : c.ahead ≠ []
      ∧ (fault.location = c.location ∧ fault.cause ≠ .ansIterator
        ∨ c.lineStart = true ∧ Scan.Stops c fault) := by
  rw [here, Scan.get_bind_apply] at h
  split at h
  · cases h
  next he =>
  refine ⟨by simpa [Cursor.atEnd] using he, ?_⟩
  split at h
  · next hk =>
    rcases checkLineStart_bind_eq_error h with rfl | ⟨hl, h⟩
    · exact Or.inl ⟨rfl, by simp⟩
    rcases Scan.bind_eq_error.1 h with h | ⟨_, _, -, h⟩
    · exact Or.inr ⟨hl, Scan.header_eq_error hk h⟩
    · cases h
  split at h
  · next hk =>
    rcases checkLineStart_bind_eq_error h with rfl | ⟨hl, h⟩
    · exact Or.inl ⟨rfl, by simp⟩
    rcases Scan.bind_eq_error.1 h with h | ⟨_, middle, hd, h⟩
    · exact absurd h (Scan.expect_ne_error hk)
    rcases Scan.bind_eq_error.1 h with h | ⟨_, _, -, h⟩
    · obtain ⟨⟨before, hb⟩, -⟩ := Scan.expect_eq_ok.1 hd
      rw [Scan.operand_eq_error h]
      refine Or.inr ⟨hl, .inside hb rfl (by simp) ⟨.disp before .simplest .none,
        Word.simplest.chars, ?_, by decide, fun _ => rfl⟩⟩
      simp only [Spelling.chars, Text.Blanks.chars_none, List.append_nil, List.append_assoc]
      rfl
    · cases h
  split at h
  · next hk =>
    rcases checkLineStart_bind_eq_error h with rfl | ⟨-, h⟩
    · exact Or.inl ⟨rfl, by simp⟩
    rcases Scan.bind_eq_error.1 h with h | ⟨_, _, -, h⟩
    · exact absurd h (Scan.expect_ne_error hk)
    · cases h
  · cases h
    exact Or.inl ⟨rfl, by simp⟩

end Piece

end LoopCalc
