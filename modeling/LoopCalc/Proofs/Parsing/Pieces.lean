import LoopCalc.Proofs.Grammar.Reading
import LoopCalc.Proofs.Parsing.Scanning

/-! One piece after the other. A piece is taken exactly where the cursor can reach a logical line
that says it, and taking it leaves the cursor where it can reach the logical lines after that one.
-/

namespace LoopCalc

open LineByLine (Boundary LogicalLine ofLines piece?)

namespace Cursor

/-- The logical lines ahead of the cursor are the given ones, and walking to the next statement
gets to them. -/
structure Reaches (c : Cursor) (lines : List LogicalLine) : Prop where
  ready : c.Ready
  goesOn : stalls c.ahead = false
  pending_eq : c.pending = lines

/-- At a boundary the logical lines ahead can be reached. -/
theorem reaches_of_boundary {c : Cursor} (h : Boundary c.rest) : c.Reaches c.pending where
  ready := Or.inr (by rwa [Text.trimStart_of_flush h.flush])
  goesOn := not_stalls_of_flush h.flush
  pending_eq := rfl

/-- A written piece before a boundary is the first logical line ahead. -/
theorem Passed.pending_eq {c next : Cursor} {s : Spelling} (h : c.Passed s.chars next)
    (hn : Boundary next.rest)
    : c.pending = ⟨c.location, s.trimmed.chars⟩ :: next.pending := by
  obtain ⟨rest, below, ha, rfl⟩ := h
  have hr : Boundary rest := hn
  rw [pending, ha, ofLines, LineByLine.ofLine_spelling s hr]
  rfl

/-- The bottom of a source stays where it is while a text is passed. -/
theorem Passed.bottom_eq {c next : Cursor} {text : List Char} (h : c.Passed text next)
    : next.bottom = c.bottom := by
  obtain ⟨rest, below, ha, rfl⟩ := h
  simp [bottom, ha]

/-- Where the walk to the next statement ends: past everything, or before the first logical line
ahead. -/
theorem Reaches.toStatement {c : Cursor} {lines : List LogicalLine} (h : c.Reaches lines)
    : (lines = [] ∧ c.toStatement.ahead = [])
      ∨ c.toStatement.lineStart = true
        ∧ ∃ text next,
            c.toStatement.Passed text next
            ∧ Boundary next.rest
            ∧ lines = ⟨c.toStatement.location, Text.trimEnd text⟩ :: next.pending := by
  have hl := h.ready.lineStart_toStatement
  have hs := not_startsWith_separator_toStatement h.goesOn
  have hp : c.toStatement.pending = lines := by rw [pending_toStatement, h.pending_eq]
  have hd := settled_toStatement c
  -- only where the walk ends matters from here on, not how it got there
  generalize c.toStatement = d at hl hs hp hd ⊢
  rcases hd with ha | ⟨x, cs, below, ha, hx, hm⟩
  · refine Or.inl ⟨?_, ha⟩
    rw [← hp, pending, ha]
    rfl
  · have hx' : x ≠ ':' := by
      rintro rfl
      simp [startsWith, rest, ha] at hs
    obtain ⟨text, rest, he, hb, hline⟩ := LineByLine.exists_ofLine_eq_cons hx hx' hm
    refine Or.inr ⟨hl.resolve_left (by simp [ha]), text, _, ⟨rest, below, by rw [ha, he], rfl⟩,
      hb, ?_⟩
    rw [← hp, pending, ha, ofLines, hline]
    rfl

end Cursor

namespace Piece

open Cursor (Reaches)

/-- The next piece is taken where the walk over separators ends. -/
theorem next_apply (c : Cursor) : next c = here c.toStatement := rfl

/-- Taking a piece does not move the end of the source. -/
theorem bottom_of_next {c next : Cursor} {piece : Piece} (h : Piece.next c = .ok piece next)
    : next.bottom = c.bottom := by
  rw [← Cursor.bottom_toStatement c]
  rcases passed_of_here h with ⟨-, -, rfl⟩ | ⟨⟨s, hs, -⟩, -⟩
  · rfl
  · exact hs.bottom_eq

/-- At the end of the source there is no piece left. -/
theorem here_of_nil {c : Cursor} (h : c.ahead = []) : here c = .ok .finished c := by
  have he : c.atEnd = true := by simp [Cursor.atEnd, h]
  rw [here, Scan.get_bind_apply, if_pos he]
  rfl

-----------------------------------------------------------------------------------------
-- Every logical line is taken
-----------------------------------------------------------------------------------------

/-- Where no logical line is ahead, the end is found. -/
theorem next_of_reaches_nil {c : Cursor} (h : c.Reaches [])
    : ∃ next, Piece.next c = .ok .finished next ∧ next.ahead = [] := by
  rcases h.toStatement with ⟨-, ha⟩ | ⟨-, text, next, -, -, hn⟩
  · exact ⟨c.toStatement, here_of_nil ha, ha⟩
  · contradiction

/-- The first logical line ahead is read as the line-by-line reader reads it, and the others are
reached behind it. -/
theorem next_of_reaches_cons {c : Cursor} {l : LogicalLine} {lines : List LogicalLine}
    {piece : Piece} (h : c.Reaches (l :: lines)) (hl : piece? l = some piece)
    : ∃ next, Piece.next c = .ok piece next ∧ next.Reaches lines := by
  rcases h.toStatement with ⟨hn, -⟩ | ⟨hstart, text, next, hp, hb, hlines⟩
  · contradiction
  · obtain ⟨rfl, rfl⟩ := List.cons.inj hlines
    obtain ⟨s, hs, rfl⟩ := LineByLine.exists_spelling_of_piece? hl
    obtain ⟨b, ht⟩ := Text.exists_trimEnd_append text
    obtain ⟨t, hchars, hpiece⟩ := s.exists_chars_append b
    -- the cursor also passes the blanks that the logical line is cut of
    have htext : t.chars = text := hchars.trans ((congrArg (· ++ b.chars) hs).trans ht.symm)
    rw [← htext] at hp
    refine ⟨next, ?_, Cursor.reaches_of_boundary hb⟩
    rw [next_apply, here_of_passed hstart hp hb, hpiece]

-----------------------------------------------------------------------------------------
-- Only logical lines are taken
-----------------------------------------------------------------------------------------

/-- In the middle of a logical line nothing is taken. -/
theorem ready_of_next {c next : Cursor} {piece : Piece} (h : Piece.next c = .ok piece next)
    : c.Ready := by
  by_cases hb : Boundary (Text.trimStart c.rest)
  · exact Or.inr hb
  rw [next_apply, Cursor.toStatement_of_not_boundary hb] at h
  rcases lineStart_of_here h with ha | hl
  · refine absurd ?_ hb
    rw [← Cursor.rest_skipBlanks, Cursor.rest, ha]
    exact .lineEnd
  · exact Or.inl (by rwa [Cursor.lineStart_skipBlanks] at hl)

/-- Where the walk stalls nothing is taken. -/
theorem goesOn_of_next {c next : Cursor} {piece : Piece} (h : Piece.next c = .ok piece next)
    : Cursor.stalls c.ahead = false := by
  rw [Bool.eq_false_iff]
  intro hs
  rw [next_apply, here_of_separator (Cursor.startsWith_separator_toStatement hs)] at h
  cases h

/-- Where the end is found, no logical line was ahead. -/
theorem reaches_nil_of_next {c next : Cursor} (h : Piece.next c = .ok .finished next)
    : c.Reaches [] := by
  refine ⟨ready_of_next h, goesOn_of_next h, ?_⟩
  rcases passed_of_here h with ⟨ha, -, -⟩ | ⟨⟨s, -, hs⟩, -⟩
  · rw [← Cursor.pending_toStatement, Cursor.pending, ha]
    rfl
  · cases s <;> cases hs

/-- Nothing more is taken at the end of the source only. -/
theorem ahead_of_next_finished {c next : Cursor} (h : Piece.next c = .ok .finished next)
    : next.ahead = [] := by
  rcases passed_of_here h with ⟨ha, -, rfl⟩ | ⟨⟨s, -, hs⟩, -⟩
  · exact ha
  · cases s <;> cases hs

/-- Where a piece is taken, its logical line was ahead, before those behind the piece. -/
theorem reaches_cons_of_next {c next : Cursor} {lines : List LogicalLine} {piece : Piece}
    (hf : piece ≠ .finished) (h : Piece.next c = .ok piece next) (hn : next.Reaches lines)
    : ∃ l, piece? l = some piece ∧ c.Reaches (l :: lines) := by
  rcases passed_of_here h with ⟨-, hp, -⟩ | ⟨⟨s, hs, rfl⟩, hflush⟩
  · contradiction
  · -- behind a piece no logical line starts, so the one before it must be over
    have hb : Boundary next.rest := by
      rcases hn.ready with hl | hb
      · obtain ⟨_, _, -, rfl⟩ := hs
        cases hl
      · rwa [Text.trimStart_of_flush hflush] at hb
    refine ⟨_, LineByLine.piece?_spelling s _, ready_of_next h, goesOn_of_next h, ?_⟩
    rw [← Cursor.pending_toStatement, hs.pending_eq hb, hn.pending_eq]

end Piece

end LoopCalc
