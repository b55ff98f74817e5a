import Mathlib.Data.Prod.Lex
import Mathlib.Logic.Relation
import LoopCalc.Proofs.Parsing.Pieces
import LoopCalc.Proofs.Parsing.Walking

/-! How a cursor gets from place to place. It moves over one character of its line, or to the start
of the line below, and in no other way. So whatever scanning does, and wherever it stops, the place
never goes backwards, and what lies ahead is what the source has from there on.
-/

namespace LoopCalc

/-- Places in the order of reading: by line, and by column within a line. -/
def Location.order (l : Location) : ℕ ×ₗ ℕ :=
  toLex (l.line, l.column)

namespace Cursor

-----------------------------------------------------------------------------------------
-- Moves
-----------------------------------------------------------------------------------------

/-- One move of a cursor. That a logical line starts or does not is no matter of place, and may
change with every move or without one. -/
inductive Move : Cursor → Cursor → Prop
  | mark (c : Cursor) (lineStart : Bool)
    : Move c { c with lineStart }
  | char {x : Char} {rest : List Char} {below : List (List Char)} {c : Cursor}
    (stands : c.ahead = (x :: rest) :: below)
    : Move c { c with ahead := rest :: below, column := c.column + 1 }
  | lineEnd {first : List Char} {below : List (List Char)} {c : Cursor}
    (stands : c.ahead = first :: below)
    : Move c { c with ahead := below, line := c.line + 1, column := 0 }

/-- Any number of moves. -/
abbrev Moves : Cursor → Cursor → Prop :=
  Relation.ReflTransGen Move

variable {c next : Cursor}

/-- No move goes back, by cases on the move. -/
theorem Move.order_le (h : Move c next) : c.location.order ≤ next.location.order := by
  cases h with
  | mark lineStart => exact le_rfl
  | char stands => exact Prod.Lex.toLex_le_toLex.2 (Or.inr ⟨rfl, Nat.le_succ _⟩)
  | lineEnd stands => exact Prod.Lex.toLex_le_toLex.2 (Or.inl (Nat.lt_succ_self _))

/-- Moves never lead backwards, by induction on their number. -/
theorem Moves.order_le (h : Moves c next) : c.location.order ≤ next.location.order := by
  induction h with
  | refl => exact le_rfl
  | tail _ last ih => exact ih.trans last.order_le

/-- Past the end of the source no move leads back. -/
theorem Moves.ahead_eq_nil (h : Moves c next) (ha : c.ahead = []) : next.ahead = [] := by
  induction h with
  | refl => exact ha
  | tail _ last ih =>
      cases last with
      | mark lineStart => exact ih
      | char stands => cases ih.symm.trans stands
      | lineEnd stands => cases ih.symm.trans stands

-----------------------------------------------------------------------------------------
-- A cursor stays on its lines
-----------------------------------------------------------------------------------------

/-- What lies ahead of the cursor is what the lines have from its place on. -/
def On (lines : List (List Char)) (c : Cursor) : Prop :=
  c.ahead = (lines.drop c.line).modifyHead (List.drop c.column)

/-- A cursor starts on its source. -/
theorem on_ofSource (source : String) : (ofSource source).On (source.toList.splitOn '\n') := by
  rw [← Text.lines_eq_splitOn]
  exact (congrFun List.modifyHead_id _).symm

/-- The line that a cursor stands on, if it has not passed the last one. -/
theorem On.exists_line {lines : List (List Char)} {first : List Char} {below : List (List Char)}
    (h : c.On lines) (ha : c.ahead = first :: below)
    : ∃ line,
        lines[c.line]? = some line
        ∧ line.drop c.column = first
        ∧ lines.drop (c.line + 1) = below := by
  have hdrop := ha.symm.trans h
  cases hd : lines.drop c.line with
  | nil =>
      rw [hd] at hdrop
      cases hdrop
  | cons line others =>
      rw [hd] at hdrop
      obtain ⟨hfirst, hbelow⟩ := List.cons.inj hdrop
      refine ⟨line, ?_, hfirst.symm, ?_⟩
      · rw [← List.head?_drop, hd, List.head?_cons]
      · rw [← List.tail_drop, hd, List.tail_cons, hbelow]

/-- A move stays on the lines, by cases on the move. -/
theorem On.move {lines : List (List Char)} (h : c.On lines) (hm : Move c next) : next.On lines := by
  cases hm with
  | mark lineStart => exact h
  | char stands =>
      obtain ⟨line, hline, hrest, hbelow⟩ := h.exists_line stands
      obtain ⟨hin, rfl⟩ := List.getElem?_eq_some_iff.1 hline
      dsimp only [On]
      rw [List.drop_eq_getElem_cons hin, hbelow, List.modifyHead_cons, ← List.tail_drop, hrest]
      rfl
  | lineEnd stands =>
      obtain ⟨-, -, -, hbelow⟩ := h.exists_line stands
      dsimp only [On]
      rw [hbelow]
      exact (congrFun List.modifyHead_id _).symm

/-- Wherever it moves, by induction on the moves. -/
theorem On.moves {lines : List (List Char)} (h : c.On lines) (hm : Moves c next)
    : next.On lines := by
  induction hm with
  | refl => exact h
  | tail _ last ih => exact ih.move last

-----------------------------------------------------------------------------------------
-- Everything a cursor does is moves
-----------------------------------------------------------------------------------------

/-- To start a logical line is a move that goes nowhere. -/
theorem moves_startLine (c : Cursor) : Moves c c.startLine :=
  .single (.mark c true)

/-- Advancing is a move over a character that stands ahead. -/
theorem moves_advance (h : c.rest ≠ []) : Moves c c.advance := by
  rcases c with ⟨_ | ⟨_ | ⟨x, rest⟩, below⟩, line, column, start⟩
  · exact absurd rfl h
  · exact absurd rfl h
  · exact (Relation.ReflTransGen.single (.char rfl)).tail (.mark _ false)

/-- Passing a line is a move if there is one. -/
theorem moves_advanceLine (h : c.ahead ≠ []) : Moves c c.advanceLine := by
  rcases c with ⟨_ | ⟨first, below⟩, line, column, start⟩
  · exact absurd rfl h
  · exact (Relation.ReflTransGen.single (.lineEnd rfl)).tail (.mark _ true)

/-- Blanks are passed one by one, by induction on the line. -/
theorem moves_skipBlanks (c : Cursor) : Moves c c.skipBlanks := by
  rcases c with ⟨_ | ⟨text, below⟩, line, column, start⟩
  · exact .refl
  induction text generalizing column with
  | nil => exact .refl
  | cons x rest ih =>
      cases hx : Text.isBlank x with
      | false => rw [skipBlanks_of_ink rfl hx]
      | true =>
          rw [skipBlanks_of_blank rfl hx]
          exact (ih (column + 1)).head (.char rfl)

/-- Lines are passed one by one, by induction on the lines ahead. -/
theorem moves_passLines (p : List Char → Bool) (c : Cursor) : Moves c (c.passLines p) := by
  generalize ha : c.ahead = lines
  induction lines generalizing c with
  | nil => rw [passLines_nil ha]
  | cons first below ih =>
      cases hf : p first with
      | false => rw [passLines_of_not ha hf]
      | true =>
          have hbelow : c.advanceLine.ahead = below := by rw [advanceLine, ha]; rfl
          rw [passLines_of_pos ha hf]
          exact (moves_advanceLine (by simp [ha])).trans (ih _ hbelow)

/-- Skipping comments goes by moves: over blanks, over lines, and over blanks again. -/
theorem moves_skipComments (c : Cursor) : Moves c c.skipComments :=
  (moves_passLines _ c).trans (moves_skipBlanks _)

/-- A round of skipping goes by moves, whether it passes a separator or not. -/
theorem moves_skipRound (c : Cursor) : Moves c c.skipRound := by
  have hline : Moves c (c.passLines List.isEmpty).skipBlanks :=
    (moves_passLines _ c).trans (moves_skipBlanks _)
  unfold skipRound
  dsimp only
  split
  · next hs =>
    have hseparator := moves_advance (rest_ne_nil_of_startsWith hs)
    exact hline.trans (hseparator.trans ((moves_skipBlanks _).trans
      ((moves_startLine _).trans (moves_skipComments _))))
  · exact hline.trans (moves_skipComments _)

/-- The walk to the next statement, by induction on its rounds. -/
theorem moves_toStatement (c : Cursor) : Moves c c.toStatement := by
  fun_induction toStatement c with
  | case1 c _ ih => exact (moves_skipRound c).trans ih
  | case2 c _ => exact moves_skipRound c

/-- Moves lead on from step to step of a scan. -/
theorem leadsOn_moves : Scan.LeadsOn Moves where
  refl _ := .refl
  trans hab hbc := hab.trans hbc
  advance h := moves_advance h
  skipBlanks c := moves_skipBlanks c

end Cursor

namespace Piece

/-- Taking a piece leads on, also when it fails. -/
theorem follows_here {R : Cursor → Cursor → Prop} (hR : Scan.LeadsOn R)
    : here.Follows R := by
  refine Scan.follows_get_bind fun c => ?_
  split
  · exact hR.refl c
  split
  · exact (Scan.follows_checkLineStart hR _).bind hR (fun _ =>
      (Scan.follows_header hR _).bind hR fun _ => Scan.follows_pure hR _) c
  split
  · exact (Scan.follows_checkLineStart hR _).bind hR (fun _ =>
      (Scan.follows_expect hR _).bind hR fun _ =>
        (Scan.follows_operand hR).bind hR fun _ => Scan.follows_pure hR _) c
  split
  · exact (Scan.follows_checkLineStart hR _).bind hR (fun _ =>
      (Scan.follows_expect hR _).bind hR fun _ => Scan.follows_pure hR _) c
  · exact hR.refl c

/-- Looking for a piece moves the cursor on, also where none is found. -/
theorem moves_next (c : Cursor) : Cursor.Moves c (Scan.after Piece.next c) :=
  (Cursor.moves_toStatement c).trans (follows_here Cursor.leadsOn_moves c.toStatement)

end Piece

end LoopCalc
