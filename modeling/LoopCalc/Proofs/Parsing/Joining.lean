import LoopCalc.Proofs.Parsing.ImplicitClosing
import LoopCalc.Proofs.Parsing.Stalling

/-! One source below another. The lower source says what it says alone, only further down: the lines
of the upper source are added to every line number and no column changes. So the joined source is
read as the two programs one after the other, unless the upper source holds nothing but blanks and
a separator comes first below it.
-/

namespace LoopCalc

open Text (Blanks)
open LineByLine (LogicalLine Nest logicalLines)

-----------------------------------------------------------------------------------------
-- The same further down
-----------------------------------------------------------------------------------------

def Header.down (k : Nat) (h : Header) : Header :=
  { h with location := h.location.down k }

def Notice.down (k : Nat) (n : Notice) : Notice :=
  { n with location := n.location.down k }

mutual

/-- The statement, and all statements in it, so many lines further down. -/
def Statement.down (k : Nat) : Statement → Statement
  | .disp value location => .disp value (location.down k)
  | .loop header body => .loop (header.down k) (Program.down k body)

def Program.down (k : Nat) : List Statement → List Statement
  | [] => []
  | s :: rest => s.down k :: Program.down k rest

end

def Piece.down (k : Nat) : Piece → Piece
  | disp value location => .disp value (location.down k)
  | header h => .header (h.down k)
  | close location => .close (location.down k)
  | finished => .finished

def LineByLine.LogicalLine.down (k : Nat) (l : LogicalLine) : LogicalLine :=
  { l with location := l.location.down k }

/-- Programs one behind the other move down together, by induction on the first. -/
theorem Program.down_append (k : Nat) (front back : List Statement)
    : Program.down k (front ++ back) = Program.down k front ++ Program.down k back := by
  induction front with
  | nil => rfl
  | cons s front ih => rw [List.cons_append, down, ih, down, List.cons_append]

namespace LineByLine

/-- A field on a lower line holds the same logical line, further down. -/
theorem ofField_down (line k : Nat) (field : Nat × List Char)
    : ofField (line + k) field = (ofField line field).map (LogicalLine.down k) := by
  rw [ofField, ofField]
  split
  · rfl
  · simp only [Option.map_some, LogicalLine.down, Location.down, Nat.add_right_comm]

/-- A lower line holds the same logical lines, further down. -/
theorem ofLine_down (line column k : Nat) (text : List Char)
    : ofLine (line + k) column text = (ofLine line column text).map (LogicalLine.down k) := by
  rw [ofLine, ofLine, List.map_filterMap]
  simp only [ofField_down]

/-- Lines say the same further down, by induction on the lines. -/
theorem ofLines_down (line column k : Nat) (lines : List (List Char))
    : ofLines (line + k) column lines = (ofLines line column lines).map (LogicalLine.down k) := by
  induction lines generalizing line column with
  | nil => rfl
  | cons text below ih =>
      rw [ofLines, ofLines, List.map_append, ofLine_down, Nat.add_right_comm, ih]

/-- A header on a lower line is the same header, further down. -/
theorem header?_down (k : Nat) (location : Location) (inner : List Char)
    : header? (location.down k) inner = (header? location inner).map (Header.down k) := by
  unfold header?
  split
  · next name start stop _ =>
    cases counter? name <;> cases operand? start <;> cases operand? stop <;> rfl
  · next name start stop step _ =>
    cases counter? name <;> cases operand? start <;> cases operand? stop <;>
      cases operand? step <;> rfl
  · rfl

/-- A lower logical line is read as the same piece, further down. By cases on its keyword. -/
theorem piece?_down (k : Nat) (l : LogicalLine)
    : piece? (l.down k) = (piece? l).map (Piece.down k) := by
  have ht : (l.down k).text = l.text := rfl
  have hl : (l.down k).location = l.location.down k := rfl
  by_cases hend : l.text = Keyword.close.chars
  · rw [piece?, piece?, if_pos (ht.trans hend), if_pos hend]
    rfl
  rw [piece?, piece?, if_neg (ht ▸ hend), if_neg hend, ht, hl]
  cases Keyword.disp.chars.isPrefixOf? l.text with
  | some value =>
      dsimp only
      rw [Option.map_map]
      rfl
  | none =>
      cases Keyword.loop.chars.isPrefixOf? l.text with
      | none => rfl
      | some inner =>
          dsimp only
          rw [header?_down, Option.map_map, Option.map_map]
          rfl

namespace Nest

-----------------------------------------------------------------------------------------
-- Nesting below what was read before
-----------------------------------------------------------------------------------------

/-- A nest so many lines further down, with some statements before its outermost block. -/
def under (k : Nat) (front : List Statement)
    : List (Header × List Statement) → List Statement → Nest
  | [], block => ⟨[], front ++ Program.down k block⟩
  | (header, before) :: outer, block =>
      ⟨(header.down k, (under k front outer before).block) :: (under k front outer before).opened,
        Program.down k block⟩

variable {k : Nat} {front : List Statement}

/-- A statement that is added to a block is added to the block under the others. -/
theorem under_concat (opened : List (Header × List Statement)) (block : List Statement)
    (s : Statement)
    : under k front opened (block ++ [s])
      = ⟨(under k front opened block).opened,
          (under k front opened block).block ++ [s.down k]⟩ := by
  have hdown : Program.down k (block ++ [s]) = Program.down k block ++ [s.down k] :=
    Program.down_append k block [s]
  cases opened with
  | nil => simp only [under, hdown, List.append_assoc]
  | cons loop outer => simp only [under, hdown]

/-- Taking in a piece is the same below other statements. -/
theorem add?_under {n more : Nest} {piece : Piece} (h : n.add? piece = some more)
    : (under k front n.opened n.block).add? (piece.down k)
      = some (under k front more.opened more.block) := by
  rcases n with ⟨opened, block⟩
  cases piece with
  | disp value location =>
      obtain rfl := Option.some.inj h
      exact congrArg some (under_concat opened block (.disp value location)).symm
  | header header =>
      obtain rfl := Option.some.inj h
      rfl
  | close location =>
      cases opened with
      | nil => cases h
      | cons loop outer =>
          obtain rfl := Option.some.inj h
          exact congrArg some (under_concat outer loop.2 (.loop loop.1 block)).symm
  | finished =>
      obtain rfl := Option.some.inj h
      rfl

/-- Logical lines nest below others as they nest alone, by induction on the lines. -/
theorem foldlM_under {lines : List LogicalLine} {n whole : Nest}
    (h : lines.foldlM read? n = some whole)
    : (lines.map (LogicalLine.down k)).foldlM read? (under k front n.opened n.block)
      = some (under k front whole.opened whole.block) := by
  induction lines generalizing n with
  | nil =>
      obtain rfl := Option.some.inj h
      rfl
  | cons l lines ih =>
      rw [List.foldlM_cons] at h
      obtain ⟨more, hl, h⟩ := Option.bind_eq_some_iff.1 h
      obtain ⟨piece, hp, hadd⟩ := Option.bind_eq_some_iff.1 hl
      rw [List.map_cons, List.foldlM_cons, read?, piece?_down, hp, Option.map_some,
        Option.bind_some, add?_under hadd]
      exact ih h

/-- Closing all loops keeps the statements in front, by induction on the open loops. -/
theorem program_under (opened : List (Header × List Statement)) (block : List Statement)
    : (under k front opened block).program = front ++ Program.down k (program ⟨opened, block⟩) := by
  induction opened generalizing block with
  | nil => rfl
  | cons loop outer ih =>
      have houter := ih (loop.2 ++ [.loop loop.1 block])
      rw [under_concat] at houter
      exact houter

/-- No loop is opened or closed by statements above. By induction on the open loops. -/
theorem length_opened_under (opened : List (Header × List Statement)) (block : List Statement)
    : (under k front opened block).opened.length = opened.length := by
  induction opened generalizing block with
  | nil => rfl
  | cons loop outer ih => exact congrArg (· + 1) (ih loop.2)

end Nest

end LineByLine

-----------------------------------------------------------------------------------------
-- Joined sources
-----------------------------------------------------------------------------------------

namespace Parser

/-- The second source below the first. -/
def join (above below : String) : String :=
  above ++ "\n" ++ below

/-- The joined source as characters: one source, a line end, and the other. -/
theorem toList_join (above below : String)
    : (join above below).toList = above.toList ++ '\n' :: below.toList := by
  rw [join, String.toList_append, String.toList_append, List.append_assoc]
  rfl

/-- The joined source has the lines of both. -/
theorem lines_join (above below : String)
    : Text.lines (join above below).toList
      = Text.lines above.toList ++ Text.lines below.toList := by
  rw [toList_join, Text.lines_append_lineEnd]

/-- The joined source has the logical lines of both, the second further down. -/
theorem logicalLines_join (above below : String)
    : logicalLines (join above below)
      = logicalLines above ++ (logicalLines below).map (LogicalLine.down (lineCount above)) := by
  rw [LineByLine.logicalLines_eq, LineByLine.logicalLines_eq, LineByLine.logicalLines_eq,
    lines_join, ofLines_append, LineByLine.ofLines_down, lineCount_eq]

/-- Blanks that do not start with a line end, and a separator as the first ink below them: joined,
the two texts stall the parser, though neither does alone. -/
structure Clogs (above below : List Char) : Prop where
  blank : ∀ c ∈ above, Text.isBlank c = true
  first : ∃ c ∈ above.head?, c ≠ '\n'
  separator : (Text.trimStart below).head? = some ':'

/-- Texts that clog stall when they are joined. -/
theorem stalls_of_clogs {above below : List Char} (h : Clogs above below)
    : Cursor.stalls (Text.lines (above ++ '\n' :: below)) = true := by
  obtain ⟨rest, hrest⟩ := List.head?_eq_some_iff.1 h.separator
  obtain ⟨c, hc, hne⟩ := h.first
  let b : Blanks := ⟨above, h.blank⟩
  refine Cursor.stalls_lines_iff.2
    ⟨b.overLineEnd below, rest, ?_, by simp [Text.Blanks.overLineEnd], ?_⟩
  · rw [← hrest, b.overLineEnd_append]
  · obtain ⟨more, rfl⟩ := List.head?_eq_some_iff.1 hc
    exact fun hend => hne (Option.some.inj hend)

/-- Where the walk stalls on the joined texts and not on the upper one, the upper one is blank. -/
theorem clogs_of_stalls {above below : List Char}
    (ha : Cursor.stalls (Text.lines above) = false)
    (h : Cursor.stalls (Text.lines (above ++ '\n' :: below)) = true)
    : Clogs above below := by
  obtain ⟨b, rest, he, hend, hhead⟩ := Cursor.stalls_lines_iff.1 h
  rcases List.append_eq_append_iff.1 he with ⟨more, hb, hmore⟩ | ⟨more, rfl, hmore⟩
  · cases more with
    | nil => cases hmore
    | cons x more =>
        rw [List.cons_append] at hmore
        obtain ⟨rfl, hbelow⟩ := List.cons.inj hmore
        have hmem : ∀ c ∈ more, Text.isBlank c = true := fun c hc =>
          b.blank c (hb ▸ List.mem_append_right _ (List.mem_cons_of_mem _ hc))
        refine ⟨fun c hc => b.blank c (hb ▸ List.mem_append_left _ hc), ?_, ?_⟩
        · rw [hb] at hhead
          cases above with
          | nil => exact absurd rfl hhead
          | cons c above => exact ⟨c, rfl, fun hc => hhead (congrArg some hc)⟩
        · rw [hbelow, Text.trimStart_blanks_append ⟨more, hmem⟩,
            Text.trimStart_of_flush (Text.flush_cons.2 (by decide))]
          rfl
  -- the separator stands in the upper text already
  · cases more with
    | nil => cases hmore
    | cons x more =>
        obtain ⟨rfl, -⟩ := List.cons.inj hmore
        rw [Cursor.stalls_lines_iff.2 ⟨b, more, rfl, hend, hhead⟩] at ha
        cases ha

/-- A notice on a lower source is the same notice, further down. -/
theorem map_down_noticesOn (k unclosed line : Nat)
    : (noticesOn unclosed ⟨line + 1, 1⟩).map (Notice.down k)
      = noticesOn unclosed ⟨line + k + 1, 1⟩ := by
  unfold noticesOn
  split
  · rfl
  · simp only [List.map_cons, List.map_nil, Notice.down, Location.down, Nat.add_right_comm]

/-- A source without a notice leaves no loop open. -/
theorem Nests.opened_eq_nil {source : String} {whole : Nest} (h : Nests source whole)
    (hn : ((ofSource source .silent).parse).2.notices = [])
    : whole.opened = [] := by
  rw [h.parse.2, noticesOn] at hn
  split at hn
  · next hl => exact List.length_eq_zero_iff.1 hl
  · cases hn

/-- Nests join when no loop is left open in the upper one. -/
theorem Nests.join {above below : String} {upper : List Statement} {lower : Nest}
    (ha : Nests above ⟨[], upper⟩) (hb : Nests below lower)
    (hc : ¬Clogs above.toList below.toList)
    : Nests (join above below) (Nest.under (lineCount above) upper lower.opened lower.block) := by
  constructor
  · rw [Bool.eq_false_iff, toList_join]
    intro hs
    exact hc (clogs_of_stalls ha.goesOn hs)
  · have hstart : Nest.under (lineCount above) upper [] [] = ⟨[], upper⟩ :=
      congrArg (Nest.mk []) (List.append_nil upper)
    rw [logicalLines_join, List.foldlM_append, ha.foldlM_eq, ← hstart]
    exact Nest.foldlM_under hb.foldlM_eq

/-- A source that is read without a notice can stand above any other that is read: the two programs
follow each other, the lower one and its notice as many lines further down as stand above it. This
fails exactly where blanks stand above a separator. -/
theorem parse_join {above below : String} {upper lower : Program}
    (ha : ((ofSource above .silent).parse).1 = .ok upper)
    (hn : ((ofSource above .silent).parse).2.notices = [])
    (hb : ((ofSource below .silent).parse).1 = .ok lower)
    : (¬Clogs above.toList below.toList
        → ((ofSource (join above below) .silent).parse).1
            = .ok (upper ++ Program.down (lineCount above) lower)
          ∧ ((ofSource (join above below) .silent).parse).2.notices
            = ((ofSource below .silent).parse).2.notices.map (Notice.down (lineCount above)))
      ∧ (Clogs above.toList below.toList
        → ∃ location,
            ((ofSource (join above below) .silent).parse).1 = .error ⟨.noStatement, location⟩) := by
  obtain ⟨⟨opened, block⟩, hu, rfl⟩ := exists_nests_of_parse ha
  obtain ⟨whole, hl, rfl⟩ := exists_nests_of_parse hb
  obtain rfl : opened = [] := hu.opened_eq_nil hn
  constructor
  · intro hc
    have hj := (hu.join hl hc).parse
    rw [hj.1, hj.2, hl.parse.2, Nest.program_under, Nest.length_opened_under, map_down_noticesOn,
      lines_join, List.length_append, lineCount_eq, Nat.add_comm (Text.lines above.toList).length]
    exact ⟨rfl, rfl⟩
  · intro hc
    have hs := stalls_of_clogs hc
    rw [← toList_join] at hs
    exact ⟨_, parse_of_stalls hs⟩

/-- A loop with nothing in it, closed on the line below its header. -/
def closedSource : String :=
  "For(A,B,C) // once\n:End"

/-- A loop left open, with a display in it. -/
def openBelowSource : String :=
  "For(C,A,B\n Disp C"

/-- A closed loop above, and an open one with a display below it. -/
theorem parse_join_open
    : ((ofSource closedSource .silent).parse).2.notices = []
      ∧ ((ofSource openBelowSource .silent).parse).2.notices = [⟨1, ⟨3, 1⟩⟩]
      ∧ ((ofSource (join closedSource openBelowSource) .silent).parse).1
        = .ok [.loop ⟨.letter 0, .reference (.letter 1), .reference (.letter 2),
              .literal (.ofInt 1), ⟨1, 1⟩⟩ [],
            .loop ⟨.letter 2, .reference (.letter 0), .reference (.letter 1),
              .literal (.ofInt 1), ⟨3, 1⟩⟩ [.disp (.reference (.letter 2)) ⟨4, 2⟩]]
      ∧ ((ofSource (join closedSource openBelowSource) .silent).parse).2.notices
        = [⟨1, ⟨5, 1⟩⟩] := by
  have ha : Nests closedSource ⟨[], [.loop ⟨.letter 0, .reference (.letter 1),
      .reference (.letter 2), .literal (.ofInt 1), ⟨1, 1⟩⟩ []]⟩ := ⟨by decide, rfl⟩
  have hb : Nests openBelowSource ⟨[(⟨.letter 2, .reference (.letter 0),
      .reference (.letter 1), .literal (.ofInt 1), ⟨1, 1⟩⟩, [])],
      [.disp (.reference (.letter 2)) ⟨2, 2⟩]⟩ := ⟨by decide, rfl⟩
  have hc : ¬Clogs closedSource.toList openBelowSource.toList := by
    intro hc
    exact absurd hc.separator (by decide)
  have hj := (parse_join ha.parse.1 ha.parse.2 hb.parse.1).1 hc
  rw [hb.parse.2] at hj
  exact ⟨ha.parse.2, hb.parse.2, hj⟩

/-- A blank above a separator: both are read alone, and the two joined are refused. -/
theorem parse_refuses_joined_blank
    : ((ofSource " " .silent).parse).1 = .ok []
      ∧ ((ofSource " " .silent).parse).2.notices = []
      ∧ ((ofSource ":Disp A" .silent).parse).1
        = .ok [.disp (.reference (.letter 0)) ⟨1, 2⟩]
      ∧ ¬∃ program, ((ofSource (join " " ":Disp A") .silent).parse).1 = .ok program := by
  have ha : Nests " " ⟨[], []⟩ := ⟨by decide, rfl⟩
  have hb : Nests ":Disp A" ⟨[], [.disp (.reference (.letter 0)) ⟨1, 2⟩]⟩ := ⟨by decide, rfl⟩
  refine ⟨ha.parse.1, ha.parse.2, hb.parse.1, ?_⟩
  rintro ⟨program, h⟩
  exact absurd (parse_eq_ok_iff.1 h).2 (by decide)

end Parser

end LoopCalc
