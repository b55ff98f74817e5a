import LoopCalc.Program.Watch
import LoopCalc.Timeout

/-!
Reading programs. The pieces of a source text are nested by a stack of open loops. Loops still open
at the end of the source are closed there, with one notice.

A parser can be asked again after it has stopped: it goes on from where its cursor stands, with the
loops it had open, and gives its notice at most once.

Under a silent watchdog the source is read piece by piece. A watchdog that can fire is asked at
every read, also at those by which the blocks around an open loop find the end of the source once
more, so it can fire after the notice was given.
-/

namespace LoopCalc

/-- A loop whose body is being read, with the statements before it, last first. -/
structure OpenLoop where
  header : Header
  before : List Statement

namespace OpenLoop

/-- The statements up to and with the loop, last first, once its body is known. -/
def close (frame : OpenLoop) (body : List Statement) : List Statement :=
  .loop frame.header body.reverse :: frame.before

end OpenLoop

/-- The state of a reader of one source text. -/
structure Parser where
  cursor : Cursor
  watchdog : Watchdog
  /-- Loops open, those that an earlier, failed reading left open included. -/
  depth : Nat
  /-- The notice about open loops has been given. -/
  warned : Bool
  /-- The notices not yet taken, oldest first. -/
  notices : List Notice

namespace Parser

/-- A reader at the start of a source text. -/
def ofSource (source : String) (watchdog : Watchdog) : Parser :=
  ⟨Cursor.ofSource source, watchdog, 0, false, []⟩

/-- The statements of the outermost block, last first, once all open loops are closed. -/
def closeAll : List OpenLoop → List Statement → List Statement
  | [], block => block
  | frame :: outer, block => closeAll outer (frame.close block)

/-- At the end of the source, remark on open loops unless that was done before. -/
def noticeOpen (p : Parser) : Parser :=
  if p.depth = 0 ∨ p.warned then p
  else { p with warned := true, notices := p.notices ++ [⟨p.depth, p.cursor.location⟩] }

/-- The program once nothing is left to read. Every open block, the outermost included, counts as
closed. -/
def finish (stack : List OpenLoop) (block : List Statement) (p : Parser)
    : Except Fault Program × Parser :=
  (.ok (closeAll stack block).reverse, { p.noticeOpen with depth := p.depth - (stack.length + 1) })

/-- Read the rest of a program, given the open loops and the statements, last first, of the
innermost block. -/
def readBlock (stack : List OpenLoop) (block : List Statement) (p : Parser)
    : Except Fault Program × Parser :=
  match _h : Piece.next p.cursor with
  | .error fault cursor => (.error fault, { p with cursor })
  | .ok .finished cursor => finish stack block { p with cursor }
  | .ok (.disp value location) cursor =>
      readBlock stack (.disp value location :: block) { p with cursor }
  | .ok (.header header) cursor =>
      readBlock (⟨header, block⟩ :: stack) [] { p with cursor, depth := p.depth + 1 }
  | .ok (.close location) cursor =>
      if p.depth = 0 then
        (.error ⟨.unbalancedEnd, location⟩, { p with cursor })
      else
        match stack with
        | [] => (.ok block.reverse, { p with cursor, depth := p.depth - 1 })
        | frame :: outer =>
            readBlock outer (frame.close block) { p with cursor, depth := p.depth - 1 }
termination_by p.cursor.remaining
decreasing_by all_goals exact Piece.remaining_lt_of_next (by nofun) _h

/-- The innermost open block counts as closed at the end of the source. -/
def closeBlock (p : Parser) : Parser :=
  { p.noticeOpen with depth := p.depth - 1 }

/-- The program once nothing is left to read, under a watchdog that lets so many reads pass. Every
block around the innermost one looks for the end of the source itself. -/
def finishWatched
    : List OpenLoop → List Statement → Parser → Nat → Except Fault Program × Parser
  | [], block, p, reads => (.ok block.reverse, { p.closeBlock with watchdog := .after reads })
  | _ :: _, _, p, 0 =>
      (.error ⟨.timeout, p.cursor.location⟩, { p.closeBlock with watchdog := .after 0 })
  | frame :: outer, block, p, reads + 1 =>
      finishWatched outer (frame.close block) p.closeBlock reads

/-- Read the rest of a program under a watchdog that lets so many reads pass. Every piece takes a
read, so there is at most one piece more than there are reads. -/
def readWatched
    : Nat → List OpenLoop → List Statement → Parser → Nat → Except Fault Program × Parser
  | 0, _, _, p, reads =>
      (.error ⟨.timeout, p.cursor.location⟩, { p with watchdog := .after reads })
  | count + 1, stack, block, p, reads =>
      match Watch.next ⟨p.cursor, reads⟩ with
      | .error fault ⟨cursor, reads⟩ =>
          (.error fault, { p with cursor, watchdog := .after reads })
      | .ok .finished ⟨cursor, reads⟩ => finishWatched stack block { p with cursor } reads
      | .ok (.disp value location) ⟨cursor, reads⟩ =>
          readWatched count stack (.disp value location :: block) { p with cursor } reads
      | .ok (.header header) ⟨cursor, reads⟩ =>
          readWatched count (⟨header, block⟩ :: stack) [] { p with cursor, depth := p.depth + 1 }
            reads
      | .ok (.close location) ⟨cursor, reads⟩ =>
          if p.depth = 0 then
            (.error ⟨.unbalancedEnd, location⟩, { p with cursor, watchdog := .after reads })
          else
            let p := { p with cursor, depth := p.depth - 1 }
            match stack with
            | [] => (.ok block.reverse, { p with watchdog := .after reads })
            | frame :: outer => readWatched count outer (frame.close block) p reads

/-- Read a program from where the cursor stands. -/
def parse (p : Parser) : Except Fault Program × Parser :=
  match p.watchdog with
  | .silent => readBlock [] [] p
  | .after reads => readWatched (reads + 1) [] [] p reads

/-- The notices so far, and the reader without them. -/
def takeNotices (p : Parser) : List Notice × Parser :=
  (p.notices, { p with notices := [] })

end Parser

end LoopCalc
