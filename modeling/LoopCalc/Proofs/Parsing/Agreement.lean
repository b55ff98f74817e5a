import Mathlib.Data.List.Infix
import LoopCalc.Proofs.Grammar.Places
import LoopCalc.Proofs.Parsing.Blocks

/-! The parser and the description of the language line by line. They agree on every source that
the parser gets started on. It does not get started where blanks fill the first line and a separator
opens the first line that holds anything.
-/

namespace LoopCalc.Parser

open LineByLine (LogicalLine Nest logicalLines pieces? program?)

/-- At the start of a source all of its logical lines are ahead. -/
theorem pending_ofSource (source : String)
    : (Cursor.ofSource source).pending = logicalLines source := by
  rw [LineByLine.logicalLines_eq]
  rfl

/-- At the start of a source a logical line starts. -/
theorem ready_ofSource (source : String) : (Cursor.ofSource source).Ready :=
  Or.inl rfl

/-- The place past the last line of a source is found by counting its lines. -/
theorem bottom_ofSource (source : String)
    : (Cursor.ofSource source).bottom = ⟨(Text.lines source.toList).length + 1, 1⟩ := by
  have hn : (Cursor.ofSource source).ahead ≠ [] := Text.lines_ne_nil _
  rw [Cursor.bottom, if_neg hn]
  simp only [Cursor.ofSource, Nat.zero_add]

/-- A parser at the start of a source has all its logical lines to read. -/
theorem midway_ofSource {source : String} (h : Cursor.stalls (Text.lines source.toList) = false)
    : (ofSource source .silent).Midway [] (logicalLines source)
        ⟨(Text.lines source.toList).length + 1, 1⟩ where
  reaches := ⟨ready_ofSource source, h, pending_ofSource source⟩
  depth_eq := rfl
  not_warned := rfl
  no_notices := rfl
  bottom_eq := bottom_ofSource source

/-- The logical lines of a source nest, and the parser gets to all of them. -/
structure Nests (source : String) (whole : Nest) : Prop where
  goesOn : Cursor.stalls (Text.lines source.toList) = false
  foldlM_eq : (logicalLines source).foldlM Nest.read? Nest.empty = some whole

/-- A run that has taken in all logical lines of a source. -/
theorem Nests.exists_midway {source : String} {whole : Nest} (h : Nests source whole)
    {more : List LogicalLine} {bottom : Location} {p : Parser}
    (hp : p.Midway [] (logicalLines source ++ more) bottom)
    : ∃ stack block p',
        readBlock [] [] p = readBlock stack block p'
        ∧ nest stack block = whole
        ∧ p'.Midway stack more bottom :=
  have hn : (logicalLines source).foldlM Nest.read? (nest [] []) = some whole := h.foldlM_eq
  readBlock_append hp hn

/-- A source whose logical lines nest is read as the program of the nest, with a notice if loops are
left open. -/
theorem Nests.parse {source : String} {whole : Nest} (h : Nests source whole)
    : ((ofSource source .silent).parse).1 = .ok whole.program
      ∧ ((ofSource source .silent).parse).2.notices
        = noticesOn whole.opened.length ⟨(Text.lines source.toList).length + 1, 1⟩ := by
  have hm := midway_ofSource h.goesOn
  rw [← List.append_nil (logicalLines source)] at hm
  obtain ⟨stack, block, p, hrun, rfl, hp⟩ := h.exists_midway hm
  have hend := readBlock_nil block hp
  rw [← hrun, ← length_opened_nest stack block] at hend
  exact hend

/-- A source that is read has logical lines that nest to the program. -/
theorem exists_nests_of_parse {source : String} {program : Program}
    (h : ((ofSource source .silent).parse).1 = .ok program)
    : ∃ whole, Nests source whole ∧ whole.program = program := by
  obtain ⟨lines, whole, hr, hn, hw⟩ := completes_of_readBlock rfl h
  obtain rfl := hr.pending_eq.symm.trans (pending_ofSource source)
  exact ⟨whole, ⟨hr.goesOn, hn⟩, hw⟩

/-- A source that stalls the parser is refused where the walk ends. -/
theorem parse_of_stalls {source : String} (h : Cursor.stalls (Text.lines source.toList) = true)
    : ((ofSource source .silent).parse).1
      = .error ⟨.noStatement, (Cursor.ofSource source).toStatement.location⟩ := by
  have hs : (Cursor.ofSource source).toStatement.startsWith [':'] = true :=
    Cursor.startsWith_separator_toStatement h
  exact congrArg Prod.fst (readBlock_of_next_error (Piece.here_of_separator hs))

/-- The line-by-line reader nests the logical lines, one by one. -/
theorem program?_eq_map (source : String)
    : program? source = ((logicalLines source).foldlM Nest.read? Nest.empty).map Nest.program := by
  rw [Nest.foldlM_read?, Option.map_bind, program?, pieces?]
  congr 1
  funext pieces
  rw [Function.comp_apply]
  cases pieces.foldlM Nest.add? Nest.empty <;> rfl

/-- The parser gives the program that a source spells line by line, and it gives no other. -/
theorem parse_eq_ok_iff {source : String} {program : Program}
    : ((ofSource source .silent).parse).1 = .ok program
      ↔ program? source = some program ∧ Cursor.stalls (Text.lines source.toList) = false := by
  rw [program?_eq_map, Option.map_eq_some_iff]
  constructor
  · intro h
    obtain ⟨whole, hn, hw⟩ := exists_nests_of_parse h
    exact ⟨⟨whole, hn.foldlM_eq, hw⟩, hn.goesOn⟩
  · rintro ⟨⟨whole, hn, rfl⟩, hs⟩
    exact (Nests.mk hs hn).parse.1

/-- A result that is there is one without a fault. -/
theorem eq_ok_of_toOption {result : Except Fault Program} {program : Program}
    (h : result.toOption = some program)
    : result = .ok program := by
  cases result with
  | ok value => exact congrArg Except.ok (Option.some.inj h)
  | error fault => cases h

/-- Every program that the parser gives is spelled line by line by its source, with each keyword
where the program says. -/
theorem parse_sound {source : String} {program : Program}
    (h : ((ofSource source .silent).parse).1 = .ok program)
    : program? source = some program
      ∧ ∀ m ∈ Program.marks program, m.StandsIn source.toList := by
  refine ⟨(parse_eq_ok_iff.1 h).1, ?_⟩
  obtain ⟨whole, hn, rfl⟩ := exists_nests_of_parse h
  intro m hm
  rw [Nest.marks_of_foldlM hn.foldlM_eq] at hm
  obtain ⟨l, hl, hlm⟩ := List.mem_filterMap.1 hm
  exact LineByLine.standsIn_of_mem_logicalLines hl hlm

/-- Two loops, one of them left open, with comments, separators and blanks between the pieces. -/
def nestedSource : String :=
  "For(A,1,3):For(B,~1.5,A,.5) // steps\n\t Disp B\n:End: Disp Ans"

/-- The four keywords stand where the program says, and line by line the same program is read. -/
theorem parse_sound_nested
    : ∃ program,
        ((ofSource nestedSource .silent).parse).1 = .ok program
        ∧ Program.marks program
          = [⟨.loop, ⟨1, 1⟩⟩, ⟨.loop, ⟨1, 12⟩⟩, ⟨.disp, ⟨2, 3⟩⟩, ⟨.disp, ⟨3, 7⟩⟩]
        ∧ program? nestedSource = some program
        ∧ ∀ m ∈ Program.marks program, m.StandsIn nestedSource.toList := by
  have h : ((ofSource nestedSource .silent).parse).1.toOption.map Program.marks
      = some [⟨.loop, ⟨1, 1⟩⟩, ⟨.loop, ⟨1, 12⟩⟩, ⟨.disp, ⟨2, 3⟩⟩, ⟨.disp, ⟨3, 7⟩⟩] := by
    decide +kernel
  obtain ⟨program, hp, hm⟩ := Option.map_eq_some_iff.1 h
  have hok := eq_ok_of_toOption hp
  exact ⟨program, hok, hm, parse_sound hok⟩

/-- A source all of whose logical lines are pieces, and none of whose beginnings closes more loops
than it opens, is read exactly if the parser does not stall at its start. -/
theorem parse_complete_iff {source : String} {pieces : List Piece}
    (hp : pieces? source = some pieces)
    (hb : ∀ front, front <+: pieces
      → front.countP Piece.isClose ≤ front.countP Piece.isHeader)
    : (∃ program, ((ofSource source .silent).parse).1 = .ok program)
      ↔ Cursor.stalls (Text.lines source.toList) = false := by
  have hk : ∀ k, (pieces.take k).countP Piece.isClose
      ≤ Nest.empty.opened.length + (pieces.take k).countP Piece.isHeader := by
    intro k
    have := hb (pieces.take k) (List.take_prefix k pieces)
    omega
  obtain ⟨whole, hn⟩ := Nest.exists_foldlM_add? hk
  have hprogram : program? source = some whole.program := by
    rw [program?, hp]
    simp only [Option.bind_eq_bind, Option.bind_some, hn, Option.pure_def]
  simp only [parse_eq_ok_iff, hprogram, Option.some.injEq, exists_and_right, exists_eq', true_and]

/-- Blank lines, comments and separators before the first statement do not stop the parser when the
first line is empty. -/
def spreadSource : String :=
  "\n \t\n: :// loop\n:For(A,1,2)\n  \n::Disp A\n:End"

/-- A source with blank lines, comments and separators between its pieces does not stall. -/
theorem parse_complete_iff_spread
    : pieces? spreadSource
        = some [.header ⟨.letter 0, .literal (.ofInt 1), .literal (.ofInt 2), .literal (.ofInt 1),
            ⟨4, 2⟩⟩, .disp (.reference (.letter 0)) ⟨6, 3⟩, .close ⟨7, 2⟩]
      ∧ ((∃ program, ((ofSource spreadSource .silent).parse).1 = .ok program)
        ↔ Cursor.stalls (Text.lines spreadSource.toList) = false)
      ∧ Cursor.stalls (Text.lines spreadSource.toList) = false := by
  have hp : pieces? spreadSource
      = some [.header ⟨.letter 0, .literal (.ofInt 1), .literal (.ofInt 2), .literal (.ofInt 1),
          ⟨4, 2⟩⟩, .disp (.reference (.letter 0)) ⟨6, 3⟩, .close ⟨7, 2⟩] := by
    decide +kernel
  refine ⟨hp, parse_complete_iff hp ?_, by decide +kernel⟩
  intro front hf
  rw [← List.mem_inits] at hf
  revert front
  decide +kernel

/-- A line of one blank before a separator: the text is a display, and it is refused. -/
theorem parse_refuses_blank_before_separator
    : pieces? " \n:Disp 1" = some [.disp (.literal (.ofInt 1)) ⟨2, 2⟩]
      ∧ (∀ front, front <+: [Piece.disp (.literal (.ofInt 1)) ⟨2, 2⟩]
        → front.countP Piece.isClose ≤ front.countP Piece.isHeader)
      ∧ ¬∃ program, ((ofSource " \n:Disp 1" .silent).parse).1 = .ok program := by
  refine ⟨by decide +kernel, ?_, ?_⟩
  · intro front hf
    rw [← List.mem_inits] at hf
    revert front
    decide +kernel
  · rintro ⟨program, h⟩
    have hs := (parse_eq_ok_iff.1 h).2
    revert hs
    decide +kernel

end LoopCalc.Parser
