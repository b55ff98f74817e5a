import Mathlib.Data.List.Forall2
import LoopCalc.Proofs.Highlight.Gaps
import LoopCalc.Proofs.Parsing.Resuming

/-! The highlighter and the parser cut a source at the same places. Where a source can be read, and
two slashes stand in comment lines only, the values that are shown are those of the program in the
order of its text, the keywords are those of its pieces, and the comments are the lines that the
parser passes as comments.
-/

namespace LoopCalc

open LineByLine (Boundary Nest)
open Screen.Highlight

-----------------------------------------------------------------------------------------
-- Programs in the order of their texts
-----------------------------------------------------------------------------------------

mutual

/-- The displays and headers of a statement, each header before what is in its loop. -/
def Statement.preorder : Statement → List Piece
  | .disp value location => [.disp value location]
  | .loop header body => .header header :: Program.preorder body

/-- The displays and headers of a program, each header before what is in its loop. -/
def Program.preorder : List Statement → List Piece
  | [] => []
  | statement :: rest => statement.preorder ++ Program.preorder rest

end

/-- The pieces of a program in preorder stand in the order of its text. -/
theorem Program.preorder_inTextOrder
    : InTextOrder Program.preorder fun header => [.header header] :=
  .of_cons rfl (fun _ _ => rfl) fun _ _ => rfl

/-- The piece opens a statement. -/
def Piece.opens : Piece → Bool
  | disp .. | header _ => true
  | close _ | finished => false

/-- A piece opens with itself in preorder, unless it closes a loop. -/
theorem Piece.preorder_opening (piece : Piece)
    : Program.preorder piece.opening = [piece].filter Piece.opens := by
  cases piece <;> rfl

/-- Pieces nest to a program in their order, by induction on the pieces. -/
theorem LineByLine.Nest.preorder_of_foldlM {pieces : List Piece} {n whole : Nest}
    (h : pieces.foldlM add? n = some whole)
    : Program.preorder whole.program
      = Program.preorder n.program ++ pieces.filter Piece.opens := by
  induction pieces generalizing n with
  | nil =>
      obtain rfl := Option.some.inj h
      exact (List.append_nil _).symm
  | cons piece pieces ih =>
      rw [List.foldlM_cons] at h
      obtain ⟨more, hadd, h⟩ := Option.bind_eq_some_iff.1 h
      rw [ih h, view_of_add? Program.preorder_inTextOrder hadd, piece.preorder_opening,
        List.append_assoc, ← List.filter_append]
      rfl

namespace Spelling

/-- The spelled piece opens a statement. -/
def opens : Spelling → Bool
  | close _ => false
  | disp .. | header _ => true

/-- The piece is written like this, at some place. -/
def Says (s : Spelling) (piece : Piece) : Prop :=
  ∃ location, s.piece location = piece

/-- A spelling opens something exactly if the piece that it says does. -/
theorem Says.opens_iff {s : Spelling} {piece : Piece} (h : s.Says piece)
    : s.opens = true ↔ piece.opens = true := by
  obtain ⟨location, rfl⟩ := h
  cases s <;> rfl

end Spelling

-----------------------------------------------------------------------------------------
-- What the parser takes from a source
-----------------------------------------------------------------------------------------

namespace Cursor

/-- From the cursor on, the pieces with the given spellings are taken one after the other up to the
end of the source. Each is passed character by character, after a walk over some comment lines. -/
inductive Consumes : Cursor → List Spelling → List Nat → Prop
  | finished {c next : Cursor} (taken : Piece.next c = .ok .finished next)
    : Consumes c [] c.walkComments
  | piece {c next : Cursor} {s : Spelling} {spelled : List Spelling} {comments : List Nat}
    (taken : Piece.next c = .ok (s.piece c.toStatement.location) next)
    (passed : c.toStatement.Passed s.chars next) (later : Consumes next spelled comments)
    : Consumes c (s :: spelled) (c.walkComments ++ comments)

/-- Every piece that is taken has its spelling, by induction on the pieces. -/
theorem Takes.exists_consumes {c stop : Cursor} {pieces : List Piece} (h : c.Takes pieces stop)
    {next : Cursor} (hend : Piece.next stop = .ok .finished next)
    : ∃ spelled comments,
        c.Consumes spelled comments ∧ List.Forall₂ Spelling.Says spelled pieces := by
  induction h with
  | nil c => exact ⟨[], c.walkComments, .finished hend, .nil⟩
  | cons taken more _ ih =>
      obtain ⟨spelled, comments, hconsumes, hsays⟩ := ih hend
      rcases Piece.passed_of_here taken with ⟨-, hf, -⟩ | ⟨⟨s, hpassed, rfl⟩, -⟩
      · exact absurd hf more
      · exact ⟨s :: spelled, _, .piece taken hpassed hconsumes, .cons ⟨_, rfl⟩ hsays⟩

/-- Whatever is consumed from a place, the cursor was ready there. -/
theorem Consumes.ready {c : Cursor} {spelled : List Spelling} {comments : List Nat}
    (h : c.Consumes spelled comments)
    : c.Ready := by
  cases h with
  | finished taken => exact Piece.ready_of_next taken
  | piece taken _ _ => exact Piece.ready_of_next taken

/-- No piece starts with a comment mark. -/
theorem isCommentLine_spelling (s : Spelling) (rest : List Char)
    : Text.isCommentLine (s.chars ++ rest) = false := by
  cases s <;> exact isCommentLine_cons (by decide) (by decide) _

/-- In tidy lines, a piece shows its keyword and its values, if no comment can follow it. -/
theorem Passed.shown_eq {c next : Cursor} {s : Spelling} (h : c.Passed s.chars next)
    (ht : c.IsTidy) (hn : Boundary next.rest)
    : next.IsTidy
      ∧ c.shown = ⟨.keyword, keywordText (keyword s)⟩ :: values s ++ next.shown
      ∧ c.comments = next.comments := by
  obtain ⟨rest, below, ha, rfl⟩ := h
  have hline := isCommentLine_spelling s rest
  rw [IsTidy, ha] at ht
  obtain ⟨hfirst, hbelow⟩ := List.forall_mem_cons.1 ht
  have hplain : ¬['/', '/'] <:+: rest := hfirst.not_infix hline (List.suffix_append _ rest)
  have hrest := isCommentLine_of_not_infix hplain
  have hstops : Stops rest := by
    have hn : Boundary rest := hn
    cases hn with
    | lineEnd => exact stops_nil
    | separator more => exact IsSymbol.stops ⟨by decide, by decide⟩ more
    | comment more => exact IsSymbol.stops ⟨by decide, by decide⟩ _
  refine ⟨?_, ?_, ?_⟩
  · exact List.forall_mem_cons.2 ⟨fun hslashes => absurd hslashes hplain, hbelow⟩
  · rw [shown, ha, List.flatMap_cons, lineMarks_of_not hline, marks_spelling s hstops, shown,
      List.flatMap_cons, lineMarks_of_not hrest, List.append_assoc]
  · rw [comments, ha, comments, Text.numbersOf, Text.numbersOf, hline, hrest]

/-- What is shown ahead is what is taken, by induction on the pieces. -/
theorem Consumes.shown_eq {c : Cursor} {spelled : List Spelling} {comments : List Nat}
    (h : c.Consumes spelled comments) (ht : c.IsTidy)
    : c.shown = spelled.flatMap (fun s => ⟨.keyword, keywordText (keyword s)⟩ :: values s)
      ∧ c.comments = comments := by
  induction h with
  | @finished c next taken =>
      have hwalk := skims_toStatement ht
      have hend : c.toStatement.ahead = [] := by
        rcases Piece.passed_of_here taken with ⟨ha, -, -⟩ | ⟨⟨s, -, hs⟩, -⟩
        · exact ha
        · cases s <;> cases hs
      rw [hwalk.shown_eq, hwalk.comments_eq, shown, Cursor.comments, hend]
      exact ⟨rfl, List.append_nil _⟩
  | @piece c next s spelled comments taken passed later ih =>
      have hwalk := skims_toStatement ht
      have hboundary : Boundary next.rest := by
        rcases Piece.passed_of_here taken with ⟨-, hs, -⟩ | ⟨-, hflush⟩
        · cases s <;> cases hs
        rcases later.ready with hl | hb
        -- behind a piece no logical line starts, so the one before it must be over
        · obtain ⟨_, _, -, rfl⟩ := passed
          cases hl
        · rwa [Text.trimStart_of_flush hflush] at hb
      obtain ⟨htidy, hshown, hcomments⟩ := passed.shown_eq hwalk.tidy hboundary
      obtain ⟨hlater, hlaterComments⟩ := ih htidy
      refine ⟨?_, ?_⟩
      · rw [hwalk.shown_eq, hshown, hlater]
        rfl
      · rw [hwalk.comments_eq, hcomments, hlaterComments]

end Cursor

/-- A source that is read is taken as a whole, and its pieces are the program in the order of its
text. -/
theorem Parser.exists_consumes_of_parse {source : String} {program : Program}
    (h : ((ofSource source .silent).parse).1 = .ok program)
    : ∃ spelled comments,
        (Cursor.ofSource source).Consumes spelled comments
        ∧ List.Forall₂ Spelling.Says (spelled.filter Spelling.opens)
          (Program.preorder program) := by
  obtain ⟨pieces, stop, whole, htakes, hfold, hends⟩ :=
    @Parser.parse_reads (ofSource source .silent) rfl
  generalize (ofSource source .silent).parse = result at h hends
  cases hends with
  | failed _ => cases h
  | unbalanced _ _ _ => cases h
  | closed _ _ earlier => exact absurd earlier (Nat.lt_irrefl 0)
  | finished next =>
      obtain rfl := Except.ok.inj h
      obtain ⟨spelled, comments, hconsumes, hsays⟩ := htakes.exists_consumes next
      refine ⟨spelled, comments, hconsumes, ?_⟩
      rw [Nest.preorder_of_foldlM hfold]
      exact List.rel_filter (fun _ _ hs => hs.opens_iff) hsays

-----------------------------------------------------------------------------------------
-- Sources on the screen
-----------------------------------------------------------------------------------------

namespace Screen.Highlight

/-- The values of a piece are drawn as values, not as keywords. -/
theorem isValue_of_mem_values {s : Spelling} {t : Token} (h : t ∈ values s)
    : t.isValue = true ∧ t.isKeyword = false := by
  have hword (w : Word) : (ofWord w).isValue = true ∧ (ofWord w).isKeyword = false := by
    refine ⟨isValue_ofWord w, ?_⟩
    cases w <;> rfl
  cases s with
  | close after => cases h
  | disp before word after =>
      obtain rfl := List.mem_singleton.1 h
      exact hword word
  | header spelled =>
      simp only [values, List.mem_cons, Option.mem_toList, Option.map_eq_some_iff] at h
      rcases h with rfl | rfl | rfl | ⟨a, -, rfl⟩
      · exact hword (.name spelled.iterator)
      · exact hword spelled.start.word
      · exact hword spelled.stop.word
      · exact hword a.word

/-- Values are marks, so they can be looked for among the marks. -/
theorem filter_isValue (tokens : List Token)
    : tokens.filter Token.isValue = (tokens.filter Token.isMark).filter Token.isValue := by
  rw [List.filter_filter]
  refine List.filter_congr fun t _ => ?_
  cases hv : t.isValue <;> simp [Token.isMark, hv]

/-- Keywords are marks, so they can be looked for among the marks. -/
theorem filter_isKeyword (tokens : List Token)
    : tokens.filter Token.isKeyword = (tokens.filter Token.isMark).filter Token.isKeyword := by
  rw [List.filter_filter]
  refine List.filter_congr fun t _ => ?_
  cases hk : t.isKeyword <;> simp [Token.isMark, hk]

/-- A piece shows its values, and one keyword. -/
theorem filter_spelling (s : Spelling)
    : let shown := ⟨.keyword, keywordText (keyword s)⟩ :: values s
      shown.filter Token.isValue = values s
      ∧ shown.filter Token.isKeyword = [⟨.keyword, keywordText (keyword s)⟩] := by
  constructor
  · rw [List.filter_cons_of_neg (by simp [Token.isValue, Role.style, Style.ink, Style.strong])]
    exact List.filter_eq_self.2 fun t ht => (isValue_of_mem_values ht).1
  · rw [List.filter_cons_of_pos rfl, List.filter_eq_nil_iff.2]
    intro t ht
    simp [(isValue_of_mem_values ht).2]

/-- Of a source that is read, and in which two slashes stand only where a line is a comment, the
values that are shown are those of the pieces that the parser takes, which are the displays and
headers of the program in the order of its text. The keywords are those of the pieces, the `End`s
included. The lines shown as comments are those that the parser passes as comments. -/
theorem shown_as_parsed {source : String} {program : Program}
    (hparse : ((Parser.ofSource source .silent).parse).1 = .ok program)
    (htidy : ∀ text ∈ Text.lines source.toList,
      ['/', '/'] <:+: text → ['/', '/'] <+: Text.trimStart text)
    : let lines := Text.lines source.toList
      let shown := lines.flatMap line
      ∃ (spelled : List Spelling) (skipped : List Nat),
        (Cursor.ofSource source).Consumes spelled skipped
        ∧ List.Forall₂ Spelling.Says (spelled.filter Spelling.opens) (Program.preorder program)
        ∧ shown.filter Token.isValue = spelled.flatMap values
        ∧ (shown.filter Token.isKeyword).map Token.text
          = spelled.map (fun s => keywordText (keyword s))
        ∧ Text.numbersOf (fun text => (line text).any Token.isComment) 0 lines = skipped := by
  intro lines shown
  obtain ⟨spelled, skipped, hconsumes, hsays⟩ := Parser.exists_consumes_of_parse hparse
  have ht : (Cursor.ofSource source).IsTidy :=
    fun text hl hs => List.isPrefixOf_iff_prefix.2 (htidy text hl hs)
  obtain ⟨hshown, hcomments⟩ := hconsumes.shown_eq ht
  have hmarks : shown.filter Token.isMark
      = spelled.flatMap fun s => ⟨.keyword, keywordText (keyword s)⟩ :: values s :=
    (List.filter_flatMap ..).trans hshown
  refine ⟨spelled, skipped, hconsumes, hsays, ?_, ?_, ?_⟩
  · rw [filter_isValue, hmarks, List.filter_flatMap]
    exact List.flatMap_congr fun s _ => (filter_spelling s).1
  · rw [filter_isKeyword, hmarks, List.filter_flatMap, List.map_flatMap]
    refine Eq.trans (List.flatMap_congr fun s _ => ?_) List.map_eq_flatMap.symm
    exact congrArg (List.map Token.text) (filter_spelling s).2
  · simp only [any_isComment_line]
    exact hcomments

/-- A loop without a step around a display, between comment lines. -/
def commentedSource : String :=
  "// down\nFor( theta,~1.5,B):Disp theta\n  // up\nEnd : Disp .5"

/-- A source with comments above and between its pieces, on the first and the third line. -/
theorem shown_as_parsed_commented
    : ∃ program,
        ((Parser.ofSource commentedSource .silent).parse).1 = .ok program
        ∧ (∀ text ∈ Text.lines commentedSource.toList,
          ['/', '/'] <:+: text → ['/', '/'] <+: Text.trimStart text)
        ∧ ∃ (spelled : List Spelling) (skipped : List Nat),
          (Cursor.ofSource commentedSource).Consumes spelled skipped
          ∧ List.Forall₂ Spelling.Says (spelled.filter Spelling.opens) (Program.preorder program)
          ∧ skipped = [1, 3] := by
  have hnests : Parser.Nests commentedSource
      ⟨[], [.loop ⟨.theta, .literal (.ofDecimal .minus ⟨15, -1⟩), .reference (.letter 1),
          .literal (.ofInt 1), ⟨2, 1⟩⟩ [.disp (.reference .theta) ⟨2, 20⟩],
        .disp (.literal (.ofDecimal .plus ⟨5, -1⟩)) ⟨4, 7⟩]⟩ :=
    ⟨by decide, rfl⟩
  have htidy : ∀ text ∈ Text.lines commentedSource.toList,
      ['/', '/'] <:+: text → ['/', '/'] <+: Text.trimStart text := by
    decide
  obtain ⟨spelled, skipped, hconsumes, hsays, -, -, hcomments⟩ :=
    shown_as_parsed hnests.parse.1 htidy
  refine ⟨_, hnests.parse.1, htidy, spelled, skipped, hconsumes, hsays, ?_⟩
  simp only [any_isComment_line] at hcomments
  rw [← hcomments]
  decide

end Screen.Highlight

end LoopCalc
