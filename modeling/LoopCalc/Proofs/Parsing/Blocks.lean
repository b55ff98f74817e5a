import LoopCalc.Program.Parser
import LoopCalc.Proofs.Grammar.Nesting
import LoopCalc.Proofs.Parsing.Pieces

/-! Runs of the parser and the nesting of logical lines. The stack and the block of a run, which
grow at their fronts, stand for a nest; a step of the run takes one logical line into it.
-/

namespace LoopCalc.Parser

open LineByLine (LogicalLine Nest piece?)

/-- What has been read, given the open loops and the statements, last first, of the innermost
block. -/
def nest (stack : List OpenLoop) (block : List Statement) : Nest :=
  ⟨stack.map fun frame => (frame.header, frame.before.reverse), block.reverse⟩

/-- A nest has as many open loops as the stack of the parser. -/
theorem length_opened_nest (stack : List OpenLoop) (block : List Statement)
    : (nest stack block).opened.length = stack.length :=
  List.length_map _

/-- A display is put on the innermost block of the parser. -/
theorem add?_disp (stack : List OpenLoop) (block : List Statement) (value : Operand)
    (location : Location)
    : (nest stack block).add? (.disp value location)
      = some (nest stack (.disp value location :: block)) := by
  simp [nest, Nest.add?]

/-- A header is put on the stack of the parser, around a new block. -/
theorem add?_header (stack : List OpenLoop) (block : List Statement) (header : Header)
    : (nest stack block).add? (.header header) = some (nest (⟨header, block⟩ :: stack) []) :=
  rfl

/-- A close takes the innermost loop off the stack of the parser. -/
theorem add?_close (frame : OpenLoop) (stack : List OpenLoop) (block : List Statement)
    (location : Location)
    : (nest (frame :: stack) block).add? (.close location)
      = some (nest stack (frame.close block)) := by
  simp [nest, Nest.add?, OpenLoop.close]

/-- Closing all loops gives the program of the nest, by induction on the open loops. -/
theorem reverse_closeAll (stack : List OpenLoop) (block : List Statement)
    : (closeAll stack block).reverse = (nest stack block).program := by
  induction stack generalizing block with
  | nil => rfl
  | cons frame stack ih =>
      rw [closeAll, ih]
      simp [nest, Nest.program, OpenLoop.close]

/-- A parser in the middle of a run: the logical lines it still has to read, the loops it has open,
and the place where its source ends. -/
structure Midway (p : Parser) (stack : List OpenLoop) (lines : List LogicalLine)
    (bottom : Location) : Prop where
  reaches : p.cursor.Reaches lines
  depth_eq : p.depth = stack.length
  not_warned : p.warned = false
  no_notices : p.notices = []
  bottom_eq : p.cursor.bottom = bottom

/-- The notices on a source that leaves some loops open. -/
def noticesOn (unclosed : Nat) (bottom : Location) : List Notice :=
  if unclosed = 0 then [] else [⟨unclosed, bottom⟩]

variable {p : Parser} {stack : List OpenLoop} {block : List Statement}
  {lines front : List LogicalLine} {bottom : Location}

-----------------------------------------------------------------------------------------
-- Runs take in logical lines
-----------------------------------------------------------------------------------------

/-- What a run does with the piece that it takes. -/
theorem readBlock_of_next {piece : Piece} {cursor : Cursor}
    (h : Piece.next p.cursor = .ok piece cursor)
    : readBlock stack block p =
        match piece with
        | .finished => finish stack block { p with cursor }
        | .disp value location =>
            readBlock stack (.disp value location :: block) { p with cursor }
        | .header header =>
            readBlock (⟨header, block⟩ :: stack) [] { p with cursor, depth := p.depth + 1 }
        | .close location =>
            if p.depth = 0 then (.error ⟨.unbalancedEnd, location⟩, { p with cursor })
            else
              match stack with
              | [] => (.ok block.reverse, { p with cursor, depth := p.depth - 1 })
              | frame :: outer =>
                  readBlock outer (frame.close block) { p with cursor, depth := p.depth - 1 } := by
  rw [readBlock]
  split
  · next hn =>
    rw [h] at hn
    cases hn
  all_goals
    next hn =>
      rw [h] at hn
      cases hn
      rfl

/-- A run stops where no piece can be taken. -/
theorem readBlock_of_next_error {fault : Fault} {cursor : Cursor}
    (h : Piece.next p.cursor = .error fault cursor)
    : readBlock stack block p = (.error fault, { p with cursor }) := by
  rw [readBlock]
  split
  · next hn =>
    rw [h] at hn
    cases hn
    rfl
  all_goals
    next hn =>
      rw [h] at hn
      cases hn

/-- One logical line is one step of the run. -/
theorem readBlock_cons {l : LogicalLine} {n : Nest} (h : p.Midway stack (l :: lines) bottom)
    (hn : (nest stack block).read? l = some n)
    : ∃ stack' block' p',
        readBlock stack block p = readBlock stack' block' p'
        ∧ nest stack' block' = n
        ∧ p'.Midway stack' lines bottom := by
  obtain ⟨piece, hl, hadd⟩ := Option.bind_eq_some_iff.1 hn
  obtain ⟨cursor, hnext, hr⟩ := Piece.next_of_reaches_cons h.reaches hl
  have hb : cursor.bottom = bottom := (Piece.bottom_of_next hnext).trans h.bottom_eq
  rw [readBlock_of_next hnext]
  cases piece with
  | finished => exact absurd hl LineByLine.piece?_ne_finished
  | disp value location =>
      rw [add?_disp] at hadd
      exact ⟨stack, .disp value location :: block, _, rfl, Option.some.inj hadd,
        ⟨hr, h.depth_eq, h.not_warned, h.no_notices, hb⟩⟩
  | header header =>
      rw [add?_header] at hadd
      exact ⟨⟨header, block⟩ :: stack, [], _, rfl, Option.some.inj hadd,
        ⟨hr, congrArg (· + 1) h.depth_eq, h.not_warned, h.no_notices, hb⟩⟩
  | close location =>
      cases stack with
      | nil => cases hadd
      | cons frame outer =>
          have hd : p.depth = outer.length + 1 := h.depth_eq
          rw [add?_close] at hadd
          exact ⟨outer, frame.close block, _, if_neg (by omega), Option.some.inj hadd,
            ⟨hr, by simp [hd], h.not_warned, h.no_notices, hb⟩⟩

/-- A run takes in logical lines one after the other, by induction on them. -/
theorem readBlock_append {n : Nest} (h : p.Midway stack (front ++ lines) bottom)
    (hn : front.foldlM Nest.read? (nest stack block) = some n)
    : ∃ stack' block' p',
        readBlock stack block p = readBlock stack' block' p'
        ∧ nest stack' block' = n
        ∧ p'.Midway stack' lines bottom := by
  induction front generalizing stack block p with
  | nil => exact ⟨stack, block, p, rfl, Option.some.inj hn, h⟩
  | cons l front ih =>
      rw [List.foldlM_cons] at hn
      obtain ⟨n₁, hl, hfront⟩ := Option.bind_eq_some_iff.1 hn
      obtain ⟨stack₁, block₁, p₁, hstep, rfl, h₁⟩ := readBlock_cons h hl
      obtain ⟨stack₂, block₂, p₂, hrun, hnest, h₂⟩ := ih h₁ hfront
      exact ⟨stack₂, block₂, p₂, hstep.trans hrun, hnest, h₂⟩

/-- With nothing left to read, open loops are closed and remarked on. -/
theorem readBlock_nil (block : List Statement) (h : p.Midway stack [] bottom)
    : (readBlock stack block p).1 = .ok (nest stack block).program
      ∧ (readBlock stack block p).2.notices = noticesOn stack.length bottom := by
  obtain ⟨cursor, hnext, ha⟩ := Piece.next_of_reaches_nil h.reaches
  have hb : cursor.location = bottom := by
    have hb := (Piece.bottom_of_next hnext).trans h.bottom_eq
    rwa [Cursor.bottom, if_pos ha] at hb
  rw [readBlock_of_next hnext]
  refine ⟨congrArg Except.ok (reverse_closeAll stack block), ?_⟩
  simp only [finish, noticeOpen, noticesOn, h.depth_eq, h.not_warned, h.no_notices, hb]
  by_cases hs : stack.length = 0 <;> simp [hs]

/-- An `End` outside of all loops is refused where it stands. -/
theorem readBlock_unbalanced (block : List Statement) {l : LogicalLine} {location : Location}
    (h : p.Midway [] (l :: lines) bottom) (hl : piece? l = some (.close location))
    : (readBlock [] block p).1 = .error ⟨.unbalancedEnd, location⟩ := by
  obtain ⟨cursor, hnext, -⟩ := Piece.next_of_reaches_cons h.reaches hl
  have hd : p.depth = 0 := h.depth_eq
  rw [readBlock_of_next hnext]
  exact congrArg Prod.fst (if_pos hd)

/-- A run that fails gives no notice, by induction on the run. -/
theorem notices_of_readBlock_error {fault : Fault} (h : (readBlock stack block p).1 = .error fault)
    : (readBlock stack block p).2.notices = p.notices := by
  fun_induction readBlock stack block p with
  | case1 => rfl
  | case2 => cases h
  | case3 _ _ _ _ _ _ _ ih => exact ih h
  | case4 _ _ _ _ _ _ ih => exact ih h
  | case5 => rfl
  | case6 => cases h
  | case7 _ _ _ _ _ _ _ _ ih => exact ih h

-----------------------------------------------------------------------------------------
-- Runs that succeed have taken in logical lines
-----------------------------------------------------------------------------------------

/-- The logical lines ahead of the cursor can be reached and complete a nest to a program. -/
def Completes (c : Cursor) (n : Nest) (program : Program) : Prop :=
  ∃ lines whole,
    c.Reaches lines ∧ lines.foldlM Nest.read? n = some whole ∧ whole.program = program

/-- What can be completed behind a piece can be completed before it, with the piece in front. -/
theorem Completes.of_next {c next : Cursor} {piece : Piece} {n more : Nest} {program : Program}
    (h : Completes next more program) (hf : piece ≠ .finished)
    (hnext : Piece.next c = .ok piece next) (hadd : n.add? piece = some more)
    : Completes c n program := by
  obtain ⟨lines, whole, hr, hfold, hw⟩ := h
  obtain ⟨l, hl, hc⟩ := Piece.reaches_cons_of_next hf hnext hr
  refine ⟨l :: lines, whole, hc, ?_, hw⟩
  rw [List.foldlM_cons, Nest.read?, hl, Option.bind_some, hadd]
  exact hfold

/-- A run that succeeds has nested the logical lines ahead of it, by induction on the run. -/
theorem completes_of_readBlock {program : Program} (hd : p.depth = stack.length)
    (h : (readBlock stack block p).1 = .ok program)
    : Completes p.cursor (nest stack block) program := by
  fun_induction readBlock stack block p with
  | case1 => cases h
  | case2 stack block p cursor hnext =>
      refine ⟨[], nest stack block, Piece.reaches_nil_of_next hnext, rfl, ?_⟩
      rw [← reverse_closeAll]
      exact Except.ok.inj h
  | case3 stack block p value location cursor hnext ih =>
      exact (ih hd h).of_next (by nofun) hnext (add?_disp stack block value location)
  | case4 stack block p header cursor hnext ih =>
      exact (ih (congrArg (· + 1) hd) h).of_next (by nofun) hnext (add?_header stack block header)
  | case5 => cases h
  -- the depth is that of the stack, so no `End` closes the outermost block
  | case6 block p location cursor hnext hne => exact absurd hd hne
  | case7 block p location cursor hnext _ frame outer ih =>
      have hd' : p.depth - 1 = outer.length := by simp [hd]
      exact (ih hd' h).of_next (by nofun) hnext (add?_close frame outer block location)

end LoopCalc.Parser
