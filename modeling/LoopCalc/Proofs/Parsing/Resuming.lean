import Mathlib.Data.Nat.PSub
import LoopCalc.Proofs.Parsing.Agreement
import LoopCalc.Proofs.Parsing.Moving

/-! One parser asked for programs again and again. A reading that fails leaves its loops open, and
the next one goes on inside of them, so that an `End` or the end of the source may close a block
that an earlier reading began. All that a reading does follows from the pieces it takes and from
what it finds behind them.
-/

namespace LoopCalc

open LineByLine (Nest)

/-- The number of open loops after a piece. There is none if it closes a loop and no loop is
open. -/
def Piece.depth? (depth : Nat) : Piece → Option Nat
  | header _ => some (depth + 1)
  | close _ => depth.ppred
  | disp _ _ | finished => some depth

/-- Pieces that nest close loops of their own only, by induction on the pieces. -/
theorem LineByLine.Nest.foldlM_depth? {pieces : List Piece} {n whole : Nest}
    (h : pieces.foldlM add? n = some whole) (before : Nat)
    : pieces.foldlM Piece.depth? (before + n.opened.length)
      = some (before + whole.opened.length) := by
  induction pieces generalizing n with
  | nil =>
      obtain rfl := Option.some.inj h
      rfl
  | cons piece pieces ih =>
      rw [List.foldlM_cons] at h
      obtain ⟨more, hadd, h⟩ := Option.bind_eq_some_iff.1 h
      have hlength := length_opened_of_add? hadd
      have hdepth : piece.depth? (before + n.opened.length)
          = some (before + more.opened.length) := by
        cases piece with
        | close location =>
            have hclosed : n.opened.length = more.opened.length + 1 := hlength.symm
            rw [hclosed]
            rfl
        | header header =>
            have hopened : more.opened.length = n.opened.length + 1 := hlength
            rw [hopened]
            rfl
        | disp value location => exact congrArg (fun k => some (before + k)) hlength.symm
        | finished => exact congrArg (fun k => some (before + k)) hlength.symm
      rw [List.foldlM_cons, hdepth]
      exact ih h

/-- The pieces that come next from one cursor, up to another. -/
inductive Cursor.Takes : Cursor → List Piece → Cursor → Prop
  | nil (c : Cursor) : Takes c [] c
  | cons {c next stop : Cursor} {piece : Piece} {pieces : List Piece}
    (taken : Piece.next c = .ok piece next) (more : piece ≠ .finished)
    (rest : Takes next pieces stop)
    : Takes c (piece :: pieces) stop

/-- Taking a piece goes by moves. -/
theorem Piece.moves_of_next {c next : Cursor} {piece : Piece} (h : Piece.next c = .ok piece next)
    : c.Moves next := by
  have hm := moves_next c
  rwa [Scan.after, h] at hm

/-- Failing to take a piece goes by moves, as far as it gets. -/
theorem Piece.moves_of_next_error {c next : Cursor} {fault : Fault}
    (h : Piece.next c = .error fault next)
    : c.Moves next := by
  have hm := moves_next c
  rwa [Scan.after, h] at hm

/-- Taking pieces goes by moves, by induction on the pieces. -/
theorem Cursor.Takes.moves {c stop : Cursor} {pieces : List Piece} (h : c.Takes pieces stop)
    : c.Moves stop := by
  induction h with
  | nil c => exact .refl
  | cons taken _ _ ih => exact (Piece.moves_of_next taken).trans ih

namespace Parser

variable {p : Parser} {n : Nest} {stop : Cursor} {result : Except Fault Program × Parser}

-----------------------------------------------------------------------------------------
-- One reading
-----------------------------------------------------------------------------------------

/-- What a reading comes to, given the nest of the pieces it took and the cursor behind them. -/
inductive Ends (p : Parser) (n : Nest) (stop : Cursor) : Except Fault Program × Parser → Prop
  /-- There is no piece. The loops of the reading stay open. -/
  | failed {fault : Fault} {cursor : Cursor} (next : Piece.next stop = .error fault cursor)
    : Ends p n stop (.error fault, { p with cursor, depth := p.depth + n.opened.length })
  /-- There is an `End`, and no loop is open, of this reading or an earlier one. -/
  | unbalanced {location : Location} {cursor : Cursor}
    (next : Piece.next stop = .ok (.close location) cursor) (own : n.opened = [])
    (earlier : p.depth = 0)
    : Ends p n stop (.error ⟨.unbalancedEnd, location⟩, { p with cursor })
  /-- There is an `End` for a loop that an earlier reading left open. -/
  | closed {location : Location} {cursor : Cursor}
    (next : Piece.next stop = .ok (.close location) cursor) (own : n.opened = [])
    (earlier : 0 < p.depth)
    : Ends p n stop (.ok n.block, { p with cursor, depth := p.depth - 1 })
  /-- The source is over, which closes the loops of this reading and one loop of an earlier one. -/
  | finished {cursor : Cursor} (next : Piece.next stop = .ok .finished cursor)
    : Ends p n stop (.ok n.program,
        { ({ p with cursor, depth := p.depth + n.opened.length } : Parser).noticeOpen with
          depth := p.depth - 1 })

/-- A reading takes pieces into a nest and ends behind them. -/
def Reads (p : Parser) (n : Nest) (result : Except Fault Program × Parser) : Prop :=
  ∃ pieces stop whole,
    p.cursor.Takes pieces stop ∧ pieces.foldlM Nest.add? n = some whole ∧ p.Ends whole stop result

/-- It does not matter to the end of a reading where it began. -/
theorem Ends.of_cursor {cursor : Cursor} (h : Ends { p with cursor } n stop result)
    : p.Ends n stop result := by
  cases h with
  | failed next => exact .failed next
  | unbalanced next own earlier => exact .unbalanced next own earlier
  | closed next own earlier => exact .closed next own earlier
  | finished next => exact .finished next

/-- A reading that ends at once has taken no pieces. -/
theorem Ends.reads (h : p.Ends n p.cursor result) : p.Reads n result :=
  ⟨[], p.cursor, n, .nil p.cursor, rfl, h⟩

/-- A reading that goes on behind a piece is one that takes the piece first. -/
theorem Reads.of_next {piece : Piece} {cursor : Cursor} {more : Nest}
    (h : Reads { p with cursor } more result) (hf : piece ≠ .finished)
    (hnext : Piece.next p.cursor = .ok piece cursor) (hadd : n.add? piece = some more)
    : p.Reads n result := by
  obtain ⟨pieces, stop, whole, htakes, hfold, hends⟩ := h
  refine ⟨piece :: pieces, stop, whole, .cons hnext hf htakes, ?_, hends.of_cursor⟩
  rw [List.foldlM_cons, hadd]
  exact hfold

/-- By induction on the run: its depth is at all times that of the earlier readings and the loops of
its own. -/
theorem readBlock_reads {stack : List OpenLoop} {block : List Statement} {earlier : Nat}
    (hd : p.depth = earlier + stack.length)
    : Reads { p with depth := earlier } (nest stack block) (readBlock stack block p) := by
  fun_induction readBlock stack block p with
  | case1 stack block p fault cursor hnext =>
      have hends : Ends { p with depth := earlier } (nest stack block) p.cursor _ := .failed hnext
      rw [length_opened_nest, ← hd] at hends
      exact hends.reads
  | case2 stack block p cursor hnext =>
      have hends : Ends { p with depth := earlier } (nest stack block) p.cursor _ := .finished hnext
      have hdepth : p.depth - (stack.length + 1) = earlier - 1 := by omega
      rw [length_opened_nest, ← hd, ← hdepth, ← reverse_closeAll] at hends
      exact hends.reads
  | case3 stack block p value location cursor hnext ih =>
      exact (ih hd).of_next (by simp) hnext (add?_disp stack block value location)
  | case4 stack block p header cursor hnext ih =>
      exact (ih (congrArg (· + 1) hd)).of_next (by simp) hnext (add?_header stack block header)
  | case5 stack block p location cursor hnext hzero =>
      obtain ⟨hearlier, hstack⟩ : earlier = 0 ∧ stack.length = 0 := by omega
      obtain rfl := List.length_eq_zero_iff.1 hstack
      obtain rfl : p.depth = earlier := hd
      exact (Ends.unbalanced hnext rfl hzero).reads
  -- an `End` and no loop of this reading: it closes one of an earlier reading
  | case6 block p location cursor hnext hne =>
      obtain rfl : p.depth = earlier := hd
      exact (Ends.closed hnext rfl (Nat.pos_of_ne_zero hne)).reads
  | case7 block p location cursor hnext _ frame outer ih =>
      have hd' : p.depth - 1 = earlier + outer.length := by
        rw [hd, List.length_cons]
        omega
      exact (ih hd').of_next (by simp) hnext (add?_close frame outer block location)

/-- Every reading under a silent watchdog takes pieces and ends behind them. -/
theorem parse_reads (h : p.watchdog = .silent) : p.Reads Nest.empty p.parse := by
  have hd : p.depth = p.depth + ([] : List OpenLoop).length := rfl
  have hreads : p.Reads (nest [] []) (readBlock [] [] p) := readBlock_reads hd
  rw [parse, h]
  exact hreads

-----------------------------------------------------------------------------------------
-- What the end of a reading tells
-----------------------------------------------------------------------------------------

/-- A remark on open loops moves nothing. -/
theorem cursor_noticeOpen (p : Parser) : p.noticeOpen.cursor = p.cursor := by
  rw [noticeOpen]
  split <;> rfl

/-- A remark on open loops leaves the watchdog alone. -/
theorem watchdog_noticeOpen (p : Parser) : p.noticeOpen.watchdog = p.watchdog := by
  rw [noticeOpen]
  split <;> rfl

/-- A notice is given only where none was given before. -/
theorem length_notices_noticeOpen (p : Parser)
    : p.noticeOpen.notices.length + p.warned.toNat
      = p.notices.length + p.noticeOpen.warned.toNat := by
  rw [noticeOpen]
  split
  · rfl
  · next h =>
    have hw : p.warned = false := by simpa using fun hw => h (Or.inr hw)
    simp [hw]

namespace Ends

/-- However a reading ends, it ends by moves. -/
theorem moves (h : p.Ends n stop result) : stop.Moves result.2.cursor := by
  cases h with
  | failed next => exact Piece.moves_of_next_error next
  | unbalanced next _ _ => exact Piece.moves_of_next next
  | closed next _ _ => exact Piece.moves_of_next next
  | finished next =>
      dsimp only
      rw [cursor_noticeOpen]
      exact Piece.moves_of_next next

/-- However a reading ends, its watchdog stays as it was. -/
theorem watchdog_eq (h : p.Ends n stop result) : result.2.watchdog = p.watchdog := by
  cases h with
  | finished next => exact watchdog_noticeOpen _
  | _ => rfl

/-- A notice is given exactly if the parser is marked as having given one. -/
theorem length_notices (h : p.Ends n stop result)
    : result.2.notices.length + p.warned.toNat = p.notices.length + result.2.warned.toNat := by
  cases h with
  | finished next => exact length_notices_noticeOpen _
  | _ => rfl

/-- A reading that fails leaves its open loops counted, and gives no notice. -/
theorem of_error {fault : Fault} (h : p.Ends n stop result) (he : result.1 = .error fault)
    : result.2.depth = p.depth + n.opened.length ∧ result.2.notices = p.notices := by
  cases h with
  | failed next => exact ⟨rfl, rfl⟩
  | unbalanced next own earlier =>
      rw [own]
      exact ⟨rfl, rfl⟩
  | closed next _ _ => cases he
  | finished next => cases he

/-- A reading that succeeds closes one block, or it reads to the end from outside of all blocks. -/
theorem of_ok {program : Program} (h : p.Ends n stop result) (he : result.1 = .ok program)
    : (0 < p.depth → result.2.depth + 1 = p.depth)
      ∧ (p.depth = 0 → result.2.depth = 0 ∧ result.2.cursor.atEnd = true) := by
  cases h with
  | failed next => cases he
  | unbalanced next _ _ => cases he
  | closed next own earlier => exact ⟨fun h => Nat.sub_add_cancel h, fun h => absurd h earlier.ne'⟩
  | finished next =>
      refine ⟨fun h => Nat.sub_add_cancel h, fun h => ⟨congrArg (· - 1) h, ?_⟩⟩
      have hend := Piece.ahead_of_next_finished next
      dsimp only
      rw [cursor_noticeOpen, Cursor.atEnd, hend]
      rfl

end Ends

-----------------------------------------------------------------------------------------
-- Readings one after the other
-----------------------------------------------------------------------------------------

/-- What can be asked of a parser. -/
inductive Request where
  | parse
  | takeNotices

/-- The parser after a request. -/
def serve (p : Parser) : Request → Parser
  | .parse => p.parse.2
  | .takeNotices => p.takeNotices.2

/-- The notices given in the course of requests: those that were taken, and those still held at the
end. -/
def given : Parser → List Request → List Notice
  | p, [] => p.notices
  | p, .parse :: later => given (p.serve .parse) later
  | p, .takeNotices :: later => p.takeNotices.1 ++ given (p.serve .takeNotices) later

/-- No request makes a silent watchdog fire. -/
theorem watchdog_serve (h : p.watchdog = .silent) (request : Request)
    : (p.serve request).watchdog = .silent := by
  cases request with
  | parse =>
      obtain ⟨_, _, _, -, -, hends⟩ := parse_reads h
      exact hends.watchdog_eq.trans h
  | takeNotices => exact h

/-- Every request goes by moves, by cases on the request. -/
theorem moves_serve (h : p.watchdog = .silent) (request : Request)
    : p.cursor.Moves (p.serve request).cursor := by
  cases request with
  | parse =>
      obtain ⟨_, _, _, htakes, -, hends⟩ := parse_reads h
      exact htakes.moves.trans hends.moves
  | takeNotices => exact .refl

/-- A silent watchdog stays silent, by induction on the requests. -/
theorem watchdog_foldl_serve (h : p.watchdog = .silent) (requests : List Request)
    : (requests.foldl serve p).watchdog = .silent := by
  induction requests generalizing p with
  | nil => exact h
  | cons request later ih => exact ih (watchdog_serve h request)

/-- Requests go by moves, by induction on them. -/
theorem moves_foldl_serve (h : p.watchdog = .silent) (requests : List Request)
    : p.cursor.Moves (requests.foldl serve p).cursor := by
  induction requests generalizing p with
  | nil => exact .refl
  | cons request later ih => exact (moves_serve h request).trans (ih (watchdog_serve h request))

/-- Over all requests at most one notice is added to those held, and none once one was given, by
induction on the requests. -/
theorem length_given_le (h : p.watchdog = .silent) (requests : List Request)
    : (p.given requests).length + p.warned.toNat ≤ p.notices.length + 1 := by
  induction requests generalizing p with
  | nil =>
      have hw := p.warned.toNat_le
      rw [given]
      omega
  | cons request later ih =>
      have hlater := ih (watchdog_serve h request)
      cases request with
      | parse =>
          obtain ⟨_, _, _, -, -, hends⟩ := parse_reads h
          have hone := hends.length_notices
          rw [given]
          rw [serve] at hlater ⊢
          omega
      | takeNotices =>
          rw [given, List.length_append]
          simp only [serve, takeNotices, List.length_nil] at hlater ⊢
          omega

/-- Past the end of the source there is an empty program to read. -/
theorem parse_of_atEnd (hw : p.watchdog = .silent) (h : p.cursor.ahead = [])
    : p.parse.1 = .ok [] := by
  have hend := (Cursor.moves_toStatement p.cursor).ahead_eq_nil h
  have hnext : Piece.next p.cursor = .ok .finished p.cursor.toStatement := Piece.here_of_nil hend
  rw [parse, hw]
  dsimp only
  rw [readBlock_of_next hnext]
  rfl

/-- However often a parser is asked, and whatever came of it: its place never goes backwards. A
reading that succeeds closes one loop of the earlier readings, if they left one open, and else it
reaches the end of the source. A reading closes no loop where none is open. One that fails leaves
its own loops open beside the earlier ones and gives no notice. There is one notice at most. At the
end of the source only empty programs are left to read. -/
theorem readings_resume (source : String) (requests : List Request)
    : let p := requests.foldl serve (ofSource source .silent)
      let next := p.parse.2
      (∀ later : List Request,
          p.cursor.location.order ≤ (later.foldl serve p).cursor.location.order)
      ∧ (∀ program, p.parse.1 = .ok program
          → (0 < p.depth → next.depth + 1 = p.depth)
            ∧ (p.depth = 0 → next.depth = 0 ∧ next.cursor.atEnd = true))
      ∧ (∃ pieces stop n,
          p.cursor.Takes pieces stop
          ∧ pieces.foldlM Nest.add? Nest.empty = some n
          ∧ pieces.foldlM Piece.depth? p.depth = some (p.depth + n.opened.length)
          ∧ p.Ends n stop p.parse
          ∧ ∀ fault, p.parse.1 = .error fault
            → next.depth = p.depth + n.opened.length ∧ next.notices = p.notices)
      ∧ ((ofSource source .silent).given requests).length ≤ 1
      ∧ (next.cursor.atEnd = true
          → ∀ later : List Request, (later.foldl serve next).parse.1 = .ok []) := by
  intro p next
  have hw : p.watchdog = .silent := watchdog_foldl_serve rfl requests
  obtain ⟨pieces, stop, n, htakes, hfold, hends⟩ := parse_reads hw
  refine ⟨?_, ?_, ?_, ?_, ?_⟩
  · intro later
    exact (moves_foldl_serve hw later).order_le
  · intro program hok
    exact hends.of_ok hok
  · refine ⟨pieces, stop, n, htakes, hfold, Nest.foldlM_depth? hfold p.depth, hends, ?_⟩
    intro fault he
    exact hends.of_error he
  · have hgiven : ((ofSource source .silent).given requests).length + 0 ≤ 0 + 1 :=
      length_given_le rfl requests
    exact hgiven
  · intro hend later
    have hnext : next.watchdog = .silent := watchdog_serve hw .parse
    have ha : next.cursor.ahead = [] := List.isEmpty_iff.1 hend
    exact parse_of_atEnd (watchdog_foldl_serve hnext later)
      ((moves_foldl_serve hnext later).ahead_eq_nil ha)

/-- A display without its operand stands in a loop, and another loop follows. -/
def brokenLoopSource : String :=
  "For(A,1,2)\nDisp \nFor(B,1,2)"

/-- The first reading fails inside of the loop. The second one goes on there, up to the end of the
source, and closes both loops. -/
theorem readings_resume_brokenLoop
    : let first := (ofSource brokenLoopSource .silent).parse.2
      let second := first.parse.2
      (∃ fault, (ofSource brokenLoopSource .silent).parse.1 = .error fault)
      ∧ first.depth = 1
      ∧ first.notices = []
      ∧ (∃ program, first.parse.1 = .ok program ∧ Program.marks program = [⟨.loop, ⟨3, 1⟩⟩])
      ∧ second.depth + 1 = first.depth
      ∧ second.notices = [⟨2, ⟨4, 1⟩⟩]
      ∧ second.cursor.atEnd = true
      ∧ ∀ later : List Request, (later.foldl serve second).parse.1 = .ok [] := by
  intro first second
  have hruns : (ofSource brokenLoopSource .silent).parse.1.isOk = false
      ∧ first.depth = 1
      ∧ first.parse.1.toOption.map Program.marks = some [⟨.loop, ⟨3, 1⟩⟩]
      ∧ second.notices = [⟨2, ⟨4, 1⟩⟩]
      ∧ second.cursor.atEnd = true := by
    decide +kernel
  obtain ⟨hfails, hdepth, hreads, hnotices, hend⟩ := hruns
  obtain ⟨program, hp, hmarks⟩ := Option.map_eq_some_iff.1 hreads
  have hok := eq_ok_of_toOption hp
  obtain ⟨-, -, ⟨_, _, _, -, -, -, -, hfailed⟩, -, -⟩ := readings_resume brokenLoopSource []
  obtain ⟨-, hsucceeds, -, -, hempty⟩ := readings_resume brokenLoopSource [.parse]
  cases hfirst : (ofSource brokenLoopSource .silent).parse.1 with
  | ok _ =>
      rw [hfirst] at hfails
      cases hfails
  | error fault =>
      exact ⟨⟨fault, rfl⟩, hdepth, (hfailed fault hfirst).2, ⟨program, hok, hmarks⟩,
        (hsucceeds program hok).1 (hdepth ▸ Nat.one_pos), hnotices, hend, hempty hend⟩

end Parser

end LoopCalc
