import LoopCalc.Proofs.Parsing.Resuming

/-! How a reading gets to its end. Looking ahead, or for blanks that are not there, takes it
nowhere, but whatever it repeats takes it on: the round of skipping that is to be followed by
another one, and the statement or `End` that is to be followed by another piece. Each of these
strides leaves the cursor at a later place with less ahead of it, and the cursor never leaves its
source. So a reading makes no more strides than there are characters and line ends ahead.
-/

namespace LoopCalc

namespace Cursor

-----------------------------------------------------------------------------------------
-- A cursor stays on its source
-----------------------------------------------------------------------------------------

/-- The cursor stands on one of the lines or right below them, and at or before the end of its line.
What lies ahead of it is what the lines have from its place on. -/
structure Tracks (lines : List (List Char)) (c : Cursor) : Prop where
  line_le : c.line ≤ lines.length
  column_le : ∀ line, lines[c.line]? = some line → c.column ≤ line.length
  ahead_eq : c.ahead = (lines.drop c.line).modifyHead (List.drop c.column)

variable {lines : List (List Char)} {c next : Cursor}

/-- A cursor starts out on the lines of its source. -/
theorem tracks_ofSource (source : String)
    : (ofSource source).Tracks (source.toList.splitOn '\n') where
  line_le := Nat.zero_le _
  column_le _ _ := Nat.zero_le _
  ahead_eq := on_ofSource source

/-- What lies ahead of a tracking cursor is what the lines have from its place on. -/
theorem Tracks.on (h : c.Tracks lines) : c.On lines :=
  h.ahead_eq

/-- A move keeps the cursor on the lines, by cases on the move. -/
theorem Tracks.move (h : c.Tracks lines) (hm : Move c next) : next.Tracks lines := by
  have hon := h.on.move hm
  cases hm with
  | mark lineStart => exact ⟨h.line_le, h.column_le, hon⟩
  | char stands =>
      obtain ⟨line, hline, hrest, -⟩ := h.on.exists_line stands
      have hlt : c.column < line.length := by
        rw [← Nat.not_le]
        intro hle
        rw [List.drop_eq_nil_of_le hle] at hrest
        cases hrest
      refine ⟨h.line_le, ?_, hon⟩
      intro other hother
      obtain rfl := Option.some.inj (hline.symm.trans hother)
      exact hlt
  | lineEnd stands =>
      obtain ⟨line, hline, -, -⟩ := h.on.exists_line stands
      exact ⟨(List.getElem?_eq_some_iff.1 hline).1, fun _ _ => Nat.zero_le _, hon⟩

/-- Wherever it moves, by induction on the moves. -/
theorem Tracks.moves (h : c.Tracks lines) (hm : Moves c next) : next.Tracks lines := by
  induction hm with
  | refl => exact h
  | tail _ last ih => exact ih.move last

/-- No move adds to what remains, by cases on the move. -/
theorem Move.remaining_le (h : Move c next) : next.remaining ≤ c.remaining := by
  cases h with
  | mark lineStart => exact Nat.le_refl _
  | char stands =>
      simp only [remaining, stands, extent, List.length_cons]
      omega
  | lineEnd stands =>
      simp only [remaining, stands, extent]
      omega

/-- No moves add to what remains, by induction on them. -/
theorem Moves.remaining_le (h : Moves c next) : next.remaining ≤ c.remaining := by
  induction h with
  | refl => exact Nat.le_refl _
  | tail _ last ih => exact last.remaining_le.trans ih

/-- A cursor that has less ahead of it than before has come to a later place. -/
theorem Moves.order_lt (h : Moves c next) (hr : next.remaining < c.remaining)
    : c.location.order < next.location.order := by
  induction h with
  | refl => exact absurd hr (Nat.lt_irrefl _)
  | tail before last ih =>
      cases last with
      | mark lineStart => exact ih hr
      | char stands =>
          refine (Moves.order_le before).trans_lt (Prod.Lex.toLex_lt_toLex.2 (Or.inr ⟨rfl, ?_⟩))
          exact Nat.lt_succ_self _
      | lineEnd stands =>
          refine (Moves.order_le before).trans_lt (Prod.Lex.toLex_lt_toLex.2 (Or.inl ?_))
          exact Nat.lt_succ_self _

-----------------------------------------------------------------------------------------
-- Strides
-----------------------------------------------------------------------------------------

/-- What a reading may repeat: a round of skipping that is not the last one, and the last round with
the statement or the `End` behind it. -/
inductive Stride : Cursor → Cursor → Prop
  | round {c : Cursor} (again : c.passesSeparator = true)
    : Stride c c.skipRound
  | piece {c next : Cursor} {piece : Piece} (last : c.passesSeparator = false)
    (taken : Piece.here c.skipRound = .ok piece next) (more : piece ≠ .finished)
    : Stride c next

/-- A stride goes by moves. -/
theorem Stride.moves (h : Stride c next) : Moves c next := by
  cases h with
  | round again => exact moves_skipRound c
  | piece last taken more =>
      have hhere := Piece.follows_here leadsOn_moves c.skipRound
      rw [Scan.after, taken] at hhere
      exact (moves_skipRound c).trans hhere

/-- A stride takes something off what remains: a separator, a line end, a comment or a piece. -/
theorem Stride.remaining_lt (h : Stride c next) : next.remaining < c.remaining := by
  cases h with
  | round again => exact remaining_skipRound_lt again
  | piece last taken more =>
      exact (Piece.remaining_lt_of_here more taken).trans_le (remaining_skipRound_le c)

/-- A stride leads to a later place, since it moves and takes something. -/
theorem Stride.order_lt (h : Stride c next) : c.location.order < next.location.order :=
  h.moves.order_lt h.remaining_lt

/-- Strides one after the other, with the cursors that they lead to. -/
inductive Trail : Cursor → List Cursor → Cursor → Prop
  | nil (c : Cursor) : Trail c [] c
  | cons {c next stop : Cursor} {later : List Cursor} (stride : Stride c next)
    (rest : Trail next later stop)
    : Trail c (next :: later) stop

namespace Trail

variable {stop : Cursor} {trail : List Cursor}

/-- A trail can be followed by another. -/
theorem append {further : Cursor} {more : List Cursor} (h : Trail c trail stop)
    (hmore : Trail stop more further)
    : Trail c (trail ++ more) further := by
  induction h with
  | nil c => exact hmore
  | cons stride _ ih => exact .cons stride (ih hmore)

/-- Each stride takes something from the text ahead, by induction on the strides. -/
theorem length_le (h : Trail c trail stop) : trail.length ≤ c.remaining := by
  induction h with
  | nil c => exact Nat.zero_le _
  | cons stride _ ih => exact Nat.succ_le_of_lt (ih.trans_lt stride.remaining_lt)

/-- Every cursor on a trail is reached by moves, by induction on the trail. -/
theorem moves_of_mem (h : Trail c trail stop) (hnext : next ∈ trail) : Moves c next := by
  induction h with
  | nil c => cases hnext
  | cons stride _ ih =>
      rcases List.mem_cons.1 hnext with rfl | hlater
      · exact stride.moves
      · exact stride.moves.trans (ih hlater)

end Trail

-----------------------------------------------------------------------------------------
-- Readings go by strides
-----------------------------------------------------------------------------------------

/-- The walk to the next statement is over with the first round that passes blanks only. -/
theorem toStatement_of_last (h : c.passesSeparator = false) : c.toStatement = c.skipRound := by
  rw [toStatement, if_neg (by simp [h])]

/-- The walk to the next statement makes strides up to its last round, by induction on its
rounds. -/
theorem exists_last_round (c : Cursor)
    : ∃ trail last,
        Trail c trail last ∧ last.passesSeparator = false ∧ c.toStatement = last.skipRound := by
  fun_induction toStatement c with
  | case1 c again ih =>
      obtain ⟨trail, last, htrail, hlast, hends⟩ := ih
      exact ⟨_, last, .cons (.round again) htrail, hlast, hends⟩
  | case2 c last => exact ⟨[], c, .nil c, Bool.eq_false_iff.2 last, rfl⟩

/-- A piece that is not the end of the source is taken by strides. -/
theorem exists_trail_of_next {piece : Piece} (h : Piece.next c = .ok piece next)
    (hf : piece ≠ .finished)
    : ∃ trail, Trail c trail next ∧ 1 ≤ trail.length := by
  obtain ⟨trail, last, htrail, hlast, hends⟩ := exists_last_round c
  rw [Piece.next_apply, hends] at h
  refine ⟨trail ++ [next], htrail.append (.cons (.piece hlast h hf) (.nil next)), ?_⟩
  rw [List.length_append]
  exact Nat.le_add_left ..

/-- Taking pieces leaves a trail with a stride for each of them, by induction on the pieces. -/
theorem Takes.exists_trail {pieces : List Piece} {stop : Cursor} (h : c.Takes pieces stop)
    : ∃ trail, Trail c trail stop ∧ pieces.length ≤ trail.length := by
  induction h with
  | nil c => exact ⟨[], .nil c, Nat.le_refl _⟩
  | cons taken more _ ih =>
      obtain ⟨first, hfirst, hone⟩ := exists_trail_of_next taken more
      obtain ⟨trail, htrail, hle⟩ := ih
      refine ⟨first ++ trail, hfirst.append htrail, ?_⟩
      rw [List.length_append, List.length_cons]
      omega

/-- A look for a piece that finds none makes its last strides to where no stride leads on. -/
theorem exists_trail_to_stop
    (h : ∀ piece next, Piece.next c = .ok piece next → piece = .finished)
    : ∃ trail stop,
        Trail c trail stop ∧ (∀ next, ¬Stride stop next) ∧ Piece.next stop = Piece.next c := by
  obtain ⟨trail, last, htrail, hlast, hends⟩ := exists_last_round c
  have hnext : Piece.next last = Piece.next c := by
    rw [Piece.next_apply, Piece.next_apply, hends, toStatement_of_last hlast]
  refine ⟨trail, last, htrail, ?_, hnext⟩
  intro next hstride
  cases hstride with
  | round again =>
      rw [hlast] at again
      cases again
  | piece _ taken more =>
      refine more (h _ next ?_)
      rw [← hnext, Piece.next_apply, toStatement_of_last hlast, taken]

end Cursor

namespace Parser

open Cursor (Stride Trail)
open LineByLine (Nest)

/-- The reading is over where it stands now, behind a piece, or it has found no piece at a place
from which no stride leads on. -/
def StopsAt (stop : Cursor) (after : Parser) : Prop :=
  after.cursor = stop
  ∨ (∀ next, ¬Stride stop next) ∧ after.cursor = Scan.after Piece.next stop

/-- However a reading ends, it leaves a trail up to where it stops. -/
theorem Ends.exists_trail {p : Parser} {n : Nest} {c : Cursor}
    {result : Except Fault Program × Parser} (h : p.Ends n c result)
    : ∃ trail stop, Trail c trail stop ∧ StopsAt stop result.2 := by
  cases h with
  | failed next =>
      have hnone : ∀ piece after, Piece.next c = .ok piece after → piece = .finished := by
        simp [next]
      obtain ⟨trail, stop, htrail, hstop, hnext⟩ := Cursor.exists_trail_to_stop hnone
      refine ⟨trail, stop, htrail, Or.inr ⟨hstop, ?_⟩⟩
      rw [Scan.after, hnext, next]
  | unbalanced next own earlier =>
      obtain ⟨trail, htrail, -⟩ := Cursor.exists_trail_of_next next (by simp)
      exact ⟨trail, _, htrail, Or.inl rfl⟩
  | closed next own earlier =>
      obtain ⟨trail, htrail, -⟩ := Cursor.exists_trail_of_next next (by simp)
      exact ⟨trail, _, htrail, Or.inl rfl⟩
  | finished next =>
      have hnone : ∀ piece after, Piece.next c = .ok piece after → piece = .finished := by
        intro piece after hafter
        rw [next] at hafter
        cases hafter
        rfl
      obtain ⟨trail, stop, htrail, hstop, hnext⟩ := Cursor.exists_trail_to_stop hnone
      refine ⟨trail, stop, htrail, Or.inr ⟨hstop, ?_⟩⟩
      dsimp only
      rw [cursor_noticeOpen, Scan.after, hnext, next]

/-- Of the characters and line ends ahead at the start of a source none is counted twice. -/
theorem extent_lines (text : List Char) : Cursor.extent (Text.lines text) = text.length + 1 := by
  induction text with
  | nil => rfl
  | cons c rest ih =>
      rw [Text.lines]
      split
      · simp only [Cursor.extent, ih, List.length_nil, List.length_cons]
        omega
      · cases hl : Text.lines rest with
        | nil => exact absurd hl (Text.lines_ne_nil rest)
        | cons line below =>
            rw [hl] at ih
            simp only [Cursor.extent, List.length_cons] at ih ⊢
            omega

/-- Whatever was asked of a parser before, a reading takes pieces up to some place and ends there.
It does so by strides, at least one for each piece, and every stride leads to a later place. There
are at most as many of them as the source has characters, and one more. The cursor only moves on,
character by character and line by line, and wherever that may take it, it stays on the source: it
comes no further down than right below the last line, and on no line further than to its end. -/
theorem readings_move_forward (source : String) (requests : List Request)
    : let lines := source.toList.splitOn '\n'
      let p := requests.foldl serve (ofSource source .silent)
      (∃ pieces c n trail rest stop,
          (p.cursor.Takes pieces c
            ∧ pieces.foldlM Nest.add? Nest.empty = some n
            ∧ p.Ends n c p.parse)
          ∧ p.cursor.Trail trail c
          ∧ c.Trail rest stop
          ∧ StopsAt stop p.parse.2
          ∧ pieces.length ≤ trail.length
          ∧ trail.length + rest.length ≤ source.length + 1
          ∧ ∀ d ∈ trail ++ rest ++ [p.parse.2.cursor], p.cursor.Moves d)
      ∧ (∀ c next : Cursor, c.Stride next → c.location.order < next.location.order)
      ∧ ∀ c, p.cursor.Moves c → c.Tracks lines := by
  intro lines p
  have hnew : (ofSource source .silent).watchdog = .silent := rfl
  have hw : p.watchdog = .silent := watchdog_foldl_serve hnew requests
  have hmoved : (Cursor.ofSource source).Moves p.cursor := moves_foldl_serve hnew requests
  obtain ⟨pieces, c, n, htakes, hnest, hends⟩ := parse_reads hw
  obtain ⟨trail, htrail, hpieces⟩ := htakes.exists_trail
  obtain ⟨rest, stop, hrest, hstop⟩ := hends.exists_trail
  have hwhole := htrail.append hrest
  refine ⟨⟨pieces, c, n, trail, rest, stop, ⟨htakes, hnest, hends⟩, htrail, hrest, hstop, hpieces,
    ?_, ?_⟩, ?_, ?_⟩
  · have hbound := hwhole.length_le.trans hmoved.remaining_le
    rwa [Cursor.remaining, Cursor.ofSource, extent_lines, List.length_append] at hbound
  · intro d hd
    rcases List.mem_append.1 hd with hd | hd
    · exact hwhole.moves_of_mem hd
    · obtain rfl := List.mem_singleton.1 hd
      exact moves_serve hw .parse
  · intro c next hstride
    exact hstride.order_lt
  · intro d hd
    exact (Cursor.tracks_ofSource source).moves (hmoved.trans hd)

end Parser

end LoopCalc
