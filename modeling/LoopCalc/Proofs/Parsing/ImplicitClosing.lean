import LoopCalc.Proofs.Parsing.Agreement

/-! Loops that the end of a source closes could as well be closed by lines that say `End`. Each such
line takes one from the number of open loops and changes nothing else, until none is left.
-/

namespace LoopCalc.Parser

open LineByLine (LogicalLine Nest logicalLines ofLine ofLines piece?)

/-- The source with so many lines `End` below it. -/
def withEnds (source : String) : Nat → String
  | 0 => source
  | k + 1 => withEnds source k ++ "\nEnd"

/-- The number of open loops in the notice that was given; none without a notice. -/
def reportedOpen (notices : List Notice) : Nat :=
  (notices.head?.map Notice.unclosed).getD 0

/-- The number of lines of a source. -/
def lineCount (source : String) : Nat :=
  (source.toList.splitOn '\n').length

/-- Lines are counted by their list. -/
theorem lineCount_eq (source : String) : lineCount source = (Text.lines source.toList).length := by
  rw [lineCount, Text.lines_eq_splitOn]

/-- The number of open loops can be read off the notice on them. -/
theorem reportedOpen_noticesOn (unclosed : Nat) (bottom : Location)
    : reportedOpen (noticesOn unclosed bottom) = unclosed := by
  unfold noticesOn
  split
  · next h => exact h.symm
  · rfl

/-- An `End` on a new line, as characters. -/
theorem toList_append_end (source : String)
    : (source ++ "\nEnd").toList = source.toList ++ '\n' :: Keyword.close.chars :=
  String.toList_append

/-- An `End` on a new line is one more line. -/
theorem lines_append_end (source : String)
    : Text.lines (source ++ "\nEnd").toList
      = Text.lines source.toList ++ [Keyword.close.chars] := by
  rw [toList_append_end, Text.lines_append_lineEnd]
  rfl

/-- An `End` on a new line counts as one more line. -/
theorem lineCount_append_end (source : String)
    : lineCount (source ++ "\nEnd") = lineCount source + 1 := by
  rw [lineCount_eq, lineCount_eq, lines_append_end, List.length_append]
  rfl

/-- The logical lines of lines below others, by induction on the lines above. -/
theorem ofLines_append (line : Nat) (above below : List (List Char))
    : ofLines line 0 (above ++ below)
      = ofLines line 0 above ++ ofLines (line + above.length) 0 below := by
  induction above generalizing line with
  | nil => rfl
  | cons text above ih =>
      rw [List.cons_append, ofLines, ofLines, ih, List.append_assoc, List.length_cons,
        Nat.add_assoc, Nat.add_comm 1]

/-- An `End` on a line of its own, below the others. -/
def endLine (source : String) : LogicalLine :=
  ⟨⟨lineCount source + 1, 1⟩, Keyword.close.chars⟩

/-- The new line is read as a close at its first column. -/
theorem piece?_endLine (source : String)
    : piece? (endLine source) = some (.close ⟨lineCount source + 1, 1⟩) :=
  rfl

/-- An `End` on a new line is one more logical line. -/
theorem logicalLines_append_end (source : String)
    : logicalLines (source ++ "\nEnd") = logicalLines source ++ [endLine source] := by
  rw [LineByLine.logicalLines_eq, LineByLine.logicalLines_eq, lines_append_end, ofLines_append,
    Nat.zero_add, endLine, lineCount_eq]
  rfl

/-- An `End` below the other lines does not make the parser stall. -/
theorem not_stalls_append_end {source : String}
    (h : Cursor.stalls (Text.lines source.toList) = false)
    : Cursor.stalls (Text.lines (source ++ "\nEnd").toList) = false := by
  rw [lines_append_end]
  obtain ⟨first, below, hl⟩ := List.exists_cons_of_ne_nil (Text.lines_ne_nil source.toList)
  rw [hl, Cursor.stalls, decide_eq_false_iff_not] at h
  rw [hl, List.cons_append, Cursor.stalls, decide_eq_false_iff_not]
  rintro ⟨hne, hb, hs⟩
  -- the new line is the first with ink only if all lines below the first are blank
  cases hd : below.dropWhile Text.isBlankLine with
  | nil =>
      rw [List.dropWhile_append, hd] at hs
      exact absurd hs (by decide)
  | cons line more =>
      rw [List.dropWhile_append, hd] at hs
      exact h ⟨hne, hb, by rw [hd]; exact hs⟩

/-- One more `End` closes the innermost open loop. -/
theorem Nests.append_end {source : String} {whole : Nest} (h : Nests source whole)
    (hopen : whole.opened ≠ [])
    : ∃ closed,
        Nests (source ++ "\nEnd") closed
        ∧ closed.program = whole.program
        ∧ closed.opened.length = whole.opened.length - 1 := by
  rcases whole with ⟨_ | ⟨loop, outer⟩, block⟩
  · contradiction
  refine ⟨⟨outer, loop.2 ++ [.loop loop.1 block]⟩, ⟨not_stalls_append_end h.goesOn, ?_⟩, rfl, rfl⟩
  rw [logicalLines_append_end, List.foldlM_append, h.foldlM_eq]
  rfl

/-- With all loops closed, one more `End` is one too many. -/
theorem Nests.parse_append_end {source : String} {whole : Nest} (h : Nests source whole)
    (hopen : whole.opened = [])
    : ((ofSource (source ++ "\nEnd") .silent).parse).1
      = .error ⟨.unbalancedEnd, ⟨lineCount source + 1, 1⟩⟩ := by
  have hm := midway_ofSource (not_stalls_append_end h.goesOn)
  rw [logicalLines_append_end] at hm
  obtain ⟨stack, block, p, hrun, rfl, hp⟩ := h.exists_midway hm
  obtain rfl : stack = [] := by simpa [nest] using hopen
  have herror := readBlock_unbalanced block hp (piece?_endLine source)
  rw [← hrun] at herror
  exact herror

/-- Lines `End` close open loops and keep the program, by induction on their number. -/
theorem Nests.withEnds {source : String} {whole : Nest} (h : Nests source whole) {k : Nat}
    (hk : k ≤ whole.opened.length)
    : ∃ closed,
        Nests (withEnds source k) closed
        ∧ closed.program = whole.program
        ∧ closed.opened.length = whole.opened.length - k := by
  induction k with
  | zero => exact ⟨whole, h, rfl, rfl⟩
  | succ k ih =>
      obtain ⟨middle, hm, hprogram, hlength⟩ := ih (Nat.le_of_succ_le hk)
      have hopen : middle.opened ≠ [] := by
        intro hn
        rw [hn, List.length_nil] at hlength
        omega
      obtain ⟨closed, hc, hp, hl⟩ := hm.append_end hopen
      exact ⟨closed, hc, hp.trans hprogram, by omega⟩

/-- The loops that a notice reports open can be closed by as many lines `End`. With fewer lines the
notice reports what is left, and one more is refused. -/
theorem parse_withEnds {source : String} {program : Program} {unclosed : Nat}
    (h : ((ofSource source .silent).parse).1 = .ok program)
    (hn : reportedOpen ((ofSource source .silent).parse).2.notices = unclosed)
    : (∀ k ≤ unclosed,
        ((ofSource (withEnds source k) .silent).parse).1 = .ok program
        ∧ ((ofSource (withEnds source k) .silent).parse).2.notices
          = if k = unclosed then []
            else [⟨unclosed - k, ⟨lineCount (withEnds source k) + 1, 1⟩⟩])
      ∧ ((ofSource (withEnds source (unclosed + 1)) .silent).parse).1
        = .error ⟨.unbalancedEnd, ⟨lineCount (withEnds source (unclosed + 1)), 1⟩⟩ := by
  obtain ⟨whole, hw, rfl⟩ := exists_nests_of_parse h
  rw [hw.parse.2, reportedOpen_noticesOn] at hn
  subst hn
  constructor
  · intro k hk
    obtain ⟨closed, hc, hprogram, hlength⟩ := hw.withEnds hk
    rw [hc.parse.1, hc.parse.2, hprogram, hlength, noticesOn, lineCount_eq]
    refine ⟨rfl, if_congr ?_ rfl rfl⟩
    omega
  · obtain ⟨closed, hc, -, hlength⟩ := hw.withEnds (Nat.le_refl _)
    rw [Nat.sub_self] at hlength
    rw [withEnds, hc.parse_append_end (List.length_eq_zero_iff.1 hlength), lineCount_append_end]

/-- A loop in a loop, both left open, with a comment behind the last statement. -/
def openSource : String :=
  "For(A,1,3)\nFor(B,1,A\n Disp B // last"

/-- A source with two open loops takes two ends, and not a third. -/
theorem parse_withEnds_two
    : ∃ program,
        ((ofSource openSource .silent).parse).1 = .ok program
        ∧ reportedOpen ((ofSource openSource .silent).parse).2.notices = 2
        ∧ (∀ k ≤ 2,
          ((ofSource (withEnds openSource k) .silent).parse).1 = .ok program
          ∧ ((ofSource (withEnds openSource k) .silent).parse).2.notices
            = if k = 2 then [] else [⟨2 - k, ⟨lineCount (withEnds openSource k) + 1, 1⟩⟩])
        ∧ ((ofSource (withEnds openSource 3) .silent).parse).1
          = .error ⟨.unbalancedEnd, ⟨lineCount (withEnds openSource 3), 1⟩⟩ := by
  have hok : ((ofSource openSource .silent).parse).1.toOption.isSome = true := by decide +kernel
  obtain ⟨program, hp⟩ := Option.isSome_iff_exists.1 hok
  have h := eq_ok_of_toOption hp
  have hn : reportedOpen ((ofSource openSource .silent).parse).2.notices = 2 := by decide +kernel
  exact ⟨program, h, hn, parse_withEnds h hn⟩

end LoopCalc.Parser
