import LoopCalc.Proofs.Parsing.Failing
import LoopCalc.Proofs.Parsing.ImplicitClosing
import LoopCalc.Proofs.Parsing.Stalling
import LoopCalc.Proofs.Parsing.Walking

/-! Faults point behind texts that could have gone on well. A run keeps the text that it has passed
apart from the text ahead: what was passed says the same whatever follows it, so when a piece breaks
off, the text ahead can be exchanged for one that completes it.
-/

namespace LoopCalc

open Text (Blanks)
open LineByLine (Boundary Nest)

-----------------------------------------------------------------------------------------
-- Places in a text
-----------------------------------------------------------------------------------------

namespace Location

/-- The text before a place: the lines above it, and its own line up to it. -/
def textBefore (l : Location) (source : List Char) : List Char :=
  ((source.splitOn '\n').take (l.line - 1)).flatMap (· ++ ['\n'])
    ++ ((source.splitOn '\n').getD (l.line - 1) []).take (l.column - 1)

/-- What the line of a place holds from the place on. -/
def restOfLine (l : Location) (source : List Char) : List Char :=
  ((source.splitOn '\n').getD (l.line - 1) []).drop (l.column - 1)

/-- The place is on a line of the text, at most behind the last character of the line. -/
structure Within (l : Location) (source : List Char) : Prop where
  line_pos : 1 ≤ l.line
  line_le : l.line ≤ (source.splitOn '\n').length
  column_pos : 1 ≤ l.column
  column_le : l.column ≤ ((source.splitOn '\n').getD (l.line - 1) []).length + 1

/-- The place divides a text into the two given parts. -/
structure Divides (l : Location) (front rest : List Char) : Prop where
  within : l.Within (front ++ rest)
  textBefore_eq : l.textBefore (front ++ rest) = front
  restOfLine_eq : l.restOfLine (front ++ rest) = Text.firstLine rest

/-- Within the first line, a text is divided by counting columns. -/
theorem divides_of_inline {front : List Char} (h : '\n' ∉ front) (rest : List Char)
    : Divides ⟨1, 1 + front.length⟩ front rest := by
  obtain ⟨first, below, hl⟩ := List.exists_cons_of_ne_nil (Text.lines_ne_nil rest)
  have hs : (front ++ rest).splitOn '\n' = (front ++ first) :: below := by
    rw [← Text.lines_eq_splitOn, Text.lines_append_of_not_mem h, hl]
    rfl
  refine ⟨⟨?_, ?_, ?_, ?_⟩, ?_, ?_⟩
  · exact Nat.le_refl 1
  · simp [hs]
  · exact Nat.le_add_right 1 _
  · simp [hs]
    omega
  · simp [textBefore, hs]
  · simp [restOfLine, hs, Text.firstLine, hl]

/-- A place is as far down as lines stand above it. -/
theorem Divides.below {l : Location} {front rest first : List Char} (h : l.Divides front rest)
    (hf : '\n' ∉ first)
    : (l.down 1).Divides (first ++ '\n' :: front) rest := by
  have hs : (first ++ '\n' :: front ++ rest).splitOn '\n'
      = first :: (front ++ rest).splitOn '\n' := by
    rw [← Text.lines_eq_splitOn, ← Text.lines_eq_splitOn, List.append_assoc, List.cons_append,
      Text.lines_append_lineEnd, Text.lines_of_not_mem hf]
    rfl
  obtain ⟨⟨hpos, hle, hcpos, hcle⟩, hbefore, hbehind⟩ := h
  rcases l with ⟨_ | line, column⟩
  · cases hpos
  simp only [textBefore, restOfLine, Nat.add_sub_cancel] at hle hcle hbefore hbehind
  refine ⟨⟨Nat.le_add_left 1 _, ?_, hcpos, ?_⟩, ?_, ?_⟩
  · rw [hs]
    exact Nat.succ_le_succ hle
  · rw [hs]
    exact hcle
  · rw [textBefore, hs, down, Nat.add_sub_cancel, List.take_succ_cons, List.getD_cons_succ,
      List.flatMap_cons, List.append_assoc, hbefore, List.append_assoc]
    rfl
  · rw [restOfLine, hs]
    exact hbehind

/-- Walking over a text leads to the place behind it, by induction on its lines. -/
theorem divides_past (front rest : List Char) : (start.past front).Divides front rest := by
  induction hk : front.length using Nat.strongRecOn generalizing front with
  | ind k ih =>
      by_cases h : '\n' ∈ front
      · obtain ⟨first, more, rfl, hf⟩ := List.eq_append_cons_of_mem h
        have hdown : start.past (first ++ '\n' :: more) = (start.past more).down 1 := by
          rw [past_append, past_of_not_mem hf, ← past_down]
          rfl
        have hlt : more.length < k := by
          rw [← hk, List.length_append, List.length_cons]
          omega
        rw [hdown]
        exact (ih more.length hlt more rfl).below hf
      · rw [past_of_not_mem h]
        exact divides_of_inline h rest

end Location

-----------------------------------------------------------------------------------------
-- Cursors between two texts
-----------------------------------------------------------------------------------------

/-- There is a line ahead of a cursor that passes a text, if only an empty one. -/
theorem Cursor.Passed.ahead_ne_nil {c next : Cursor} {text : List Char} (h : c.Passed text next)
    : c.ahead ≠ [] := by
  obtain ⟨line, below, ha, -⟩ := h
  simp [ha]

/-- The cursor leaves the text behind, within its line. -/
theorem Cursor.Passed.exists_rest {c next : Cursor} {text rest : List Char}
    (h : c.Passed text next) (ha : c.ahead = Text.lines rest)
    : '\n' ∉ text
      ∧ next.location = c.location.past text
      ∧ ∃ behind, rest = text ++ behind ∧ next.ahead = Text.lines behind := by
  obtain ⟨line, below, hc, rfl⟩ := h
  have hl : Text.lines rest = (text ++ line) :: below := ha.symm.trans hc
  have hinline : '\n' ∉ text := fun hm =>
    Text.not_mem_of_mem_lines (hl ▸ List.mem_cons_self) (List.mem_append_left _ hm)
  obtain ⟨behind, rfl, hb⟩ := Text.exists_of_lines_eq_append hl
  refine ⟨hinline, ?_, behind, rfl, hb.symm⟩
  rw [Location.past_of_not_mem hinline]
  simp only [location, Nat.add_right_comm]

/-- The cursor stands between two texts. The first nests to the given nest, and it does so before
every text that could follow it where the cursor stands. -/
structure Between (c : Cursor) (front rest : List Char) (n : Nest) : Prop where
  ahead_eq : c.ahead = Text.lines rest
  location_eq : c.location = Location.start.past front
  flush : c.lineStart = true ∨ Text.Flush c.rest
  nests : ∀ more, c.lineStart = true ∨ Boundary (Text.firstLine more)
    → (linesOf 0 0 (front ++ more)).foldlM Nest.read? .empty
      = (linesOf c.line c.column more).foldlM Nest.read? n

/-- At the start of a source the cursor stands before all of it. -/
theorem between_ofSource (source : String)
    : Between (Cursor.ofSource source) [] source.toList .empty where
  ahead_eq := rfl
  location_eq := rfl
  flush := Or.inl rfl
  nests _ _ := rfl

namespace Between

variable {c : Cursor} {front rest : List Char} {n : Nest}

/-- The walk to the next statement moves text from one side of the cursor to the other. -/
theorem toStatement (h : Between c front rest n) (ha : c.toStatement.ahead ≠ [])
    : ∃ text behind,
        rest = text ++ behind
        ∧ Between c.toStatement (front ++ text) behind n
        ∧ (c.passesSeparator = true ∨ ∀ x ∈ text, Text.isBlank x = true) := by
  obtain ⟨text, behind, rfl, hb, hstroll, hblank⟩ :=
    (Cursor.walks_toStatement c).passes ha rest h.ahead_eq
  refine ⟨text, behind, rfl, ⟨hb, ?_, ?_, ?_⟩, hblank⟩
  · rw [Location.past_append, ← h.location_eq, hstroll.location_eq]
  · rcases Cursor.settled_toStatement c with hn | ⟨x, line, below, hl, hx, -⟩
    · contradiction
    · refine Or.inr ?_
      rw [Cursor.rest, hl]
      exact Text.flush_cons.2 hx
  · intro more hm
    rw [List.append_assoc, h.nests _ (hstroll.boundary h.ahead_eq h.flush hm),
      hstroll.linesOf_eq]

/-- A statement that starts at the cursor is the next to be nested. -/
theorem foldlM_spelling (h : Between c front rest n) (hl : c.lineStart = true) {s : Spelling}
    (hs : '\n' ∉ s.chars) {taken : Nest} (hadd : n.add? (s.piece c.location) = some taken)
    {more : List Char} (hm : Boundary (Text.firstLine more))
    : (linesOf 0 0 (front ++ (s.chars ++ more))).foldlM Nest.read? .empty
      = (linesOf c.line (c.column + s.chars.length) more).foldlM Nest.read? taken := by
  obtain ⟨first, below, hf⟩ := List.exists_cons_of_ne_nil (Text.lines_ne_nil more)
  have hm : Boundary first := by rwa [Text.firstLine, hf] at hm
  have hread : n.read? ⟨c.location, s.trimmed.chars⟩ = some taken := by
    rw [Nest.read?, LineByLine.piece?_spelling, Option.bind_some, hadd]
  rw [h.nests _ (Or.inl hl), linesOf_spelling hs hf hm, List.foldlM_cons]
  exact congrArg (Option.bind · _) hread

/-- Taking a piece moves its text from one side of the cursor to the other. -/
theorem passed (h : Between c front rest n) (hl : c.lineStart = true) {s : Spelling}
    {next : Cursor} (hp : c.Passed s.chars next) (hf : Text.Flush next.rest) {taken : Nest}
    (hadd : n.add? (s.piece c.location) = some taken)
    : ∃ behind, rest = s.chars ++ behind ∧ Between next (front ++ s.chars) behind taken := by
  obtain ⟨hinline, hlocation, behind, rfl, hb⟩ := hp.exists_rest h.ahead_eq
  refine ⟨behind, rfl, hb, ?_, Or.inr hf, ?_⟩
  · rw [Location.past_append, ← h.location_eq, hlocation]
  · intro more hm
    obtain ⟨line, below, -, rfl⟩ := hp
    rw [List.append_assoc]
    exact h.foldlM_spelling hl hinline hadd (hm.resolve_left Bool.false_ne_true)

end Between

namespace Parser

/-- Some source that is read starts with the text. -/
def Viable (front : List Char) : Prop :=
  ∃ source program,
    front <+: source.toList ∧ ((ofSource source .silent).parse).1 = .ok program

/-- A text is viable if some text behind it completes it to logical lines that nest. -/
theorem viable_of_foldlM {front more : List Char} {whole : Nest}
    (hs : Cursor.stalls (Text.lines (front ++ more)) = false)
    (h : (linesOf 0 0 (front ++ more)).foldlM Nest.read? .empty = some whole)
    : Viable front := by
  have hlist : (String.ofList (front ++ more)).toList = front ++ more := String.toList_ofList
  have hn : Nests (String.ofList (front ++ more)) whole := by
    constructor
    · rwa [hlist]
    · rwa [LineByLine.logicalLines_eq, hlist]
  exact ⟨_, _, by rw [hlist]; exact List.prefix_append front more, hn.parse.1⟩

variable {c : Cursor} {front rest : List Char} {n : Nest} {fault : Fault}

/-- What was passed between two pieces is a source of its own. -/
theorem viable_of_between (h : Between c front rest n)
    (hs : Cursor.stalls (Text.lines front) = false)
    : Viable front := by
  have hfold := h.nests [] (Or.inr .lineEnd)
  rw [← List.append_nil front] at hs
  exact viable_of_foldlM hs hfold

/-- What was passed up to the middle of a statement is the start of a source. -/
theorem viable_of_begun (h : Between c front rest n) (hl : c.lineStart = true)
    (hs : Cursor.stalls (Text.lines (front ++ rest)) = false) {text : List Char}
    (hinline : '\n' ∉ text) (hb : Begun text)
    : Viable (front ++ text) := by
  obtain ⟨s, more, hchars, hmore, hopens⟩ := hb
  have hclose : (s.piece c.location).isClose = true → n.opened ≠ [] := by
    simp [hopens]
  obtain ⟨taken, hadd, -⟩ := Nest.exists_add? hclose
  have hend : '\n' ∉ s.chars := by
    rw [hchars]
    simp [hinline, hmore]
  have hseparator : ':' ∉ s.chars := s.not_mem_chars (by decide)
  have hgoes := Cursor.not_stalls_append hs hseparator
  have hfold := h.foldlM_spelling hl hend hadd (show Boundary (Text.firstLine []) from .lineEnd)
  rw [List.append_nil, hchars, ← List.append_assoc] at hfold
  rw [hchars, ← List.append_assoc] at hgoes
  exact viable_of_foldlM hgoes hfold

-----------------------------------------------------------------------------------------
-- Runs that fail
-----------------------------------------------------------------------------------------

/-- The fault is placed in the source behind a viable text. A loop over `Ans` is placed behind the
`Ans` and its blanks, and the text before the `Ans` is viable. -/
def PointsBehindViable (source : List Char) (fault : Fault) : Prop :=
  ∃ front rest,
    source = front ++ rest
    ∧ fault.location = Location.start.past front
    ∧ (fault.cause ≠ .ansIterator → Viable front)
    ∧ (fault.cause = .ansIterator
      → ∃ (before : List Char) (after : Blanks),
          front = before ++ (Variable.ans.chars ++ after.chars)
          ∧ Viable before
          ∧ Text.Flush (Text.firstLine rest))

/-- A fault at the cursor is placed behind a viable text, as the text before the cursor is. -/
theorem points_of_between (h : Between c front rest n)
    (hs : Cursor.stalls (Text.lines front) = false) (hl : fault.location = c.location)
    (hcause : fault.cause ≠ .ansIterator)
    : PointsBehindViable (front ++ rest) fault :=
  ⟨front, rest, rfl, hl.trans h.location_eq, fun _ => viable_of_between h hs,
    fun hc => absurd hc hcause⟩

/-- A statement that breaks off is at fault behind a viable text, by cases on how it breaks off. -/
theorem points_of_stops (h : Between c front rest n) (hl : c.lineStart = true)
    (hs : Cursor.stalls (Text.lines (front ++ rest)) = false) (hstops : Scan.Stops c fault)
    : PointsBehindViable (front ++ rest) fault := by
  cases hstops with
  | @inside text next passed location_eq counts begun =>
      obtain ⟨hinline, hlocation, behind, rfl, -⟩ := passed.exists_rest h.ahead_eq
      refine ⟨front ++ text, behind, (List.append_assoc _ _ _).symm, ?_,
        fun _ => viable_of_begun h hl hs hinline begun, fun hc => absurd hc counts⟩
      rw [location_eq, hlocation, h.location_eq, ← Location.past_append]
  | @overAns text after next passed location_eq cause_eq flush begun =>
      obtain ⟨hinline, hlocation, behind, rfl, hb⟩ := passed.exists_rest h.ahead_eq
      have htext : '\n' ∉ text := fun hm => hinline (List.mem_append_left _ hm)
      refine ⟨front ++ (text ++ (Variable.ans.chars ++ after.chars)), behind,
        (List.append_assoc _ _ _).symm, ?_, fun hc => absurd cause_eq hc, fun _ =>
        ⟨front ++ text, after, (List.append_assoc _ _ _).symm,
          viable_of_begun h hl hs htext begun, ?_⟩⟩
      · rw [location_eq, hlocation, h.location_eq, ← Location.past_append]
      · rwa [Text.firstLine, ← hb]

/-- Where no piece can be taken, the fault points behind a viable text. -/
theorem points_of_next_error (h : Between c front rest n)
    (hs : Cursor.stalls (Text.lines (front ++ rest)) = false) {stop : Cursor}
    (hnext : Piece.next c = .error fault stop)
    : PointsBehindViable (front ++ rest) fault := by
  obtain ⟨ha, hfails⟩ := Piece.here_eq_error hnext
  obtain ⟨text, behind, rfl, hb, -⟩ := h.toStatement ha
  rw [← List.append_assoc] at hs ⊢
  rcases hfails with ⟨hl, hcause⟩ | ⟨hl, hstops⟩
  · exact points_of_between hb (Cursor.not_stalls_front hs) hl hcause
  · exact points_of_stops hb hl hs hstops

/-- An `End` outside of all loops stands behind a viable text. -/
theorem points_of_close (h : Between c front rest n)
    (hs : Cursor.stalls (Text.lines (front ++ rest)) = false) {location : Location}
    {next : Cursor} (hnext : Piece.next c = .ok (.close location) next)
    : PointsBehindViable (front ++ rest) ⟨.unbalancedEnd, location⟩ := by
  rcases Piece.passed_of_here hnext with ⟨-, hp, -⟩ | ⟨⟨s, hpassed, hp⟩, -⟩
  · cases hp
  have ha := hpassed.ahead_ne_nil
  have hl : location = c.toStatement.location := by
    cases s with
    | close after => exact (Piece.close.inj hp).symm
    | disp before word after => cases hp
    | header spelled => cases hp
  obtain ⟨text, behind, rfl, hb, -⟩ := h.toStatement ha
  rw [← List.append_assoc] at hs ⊢
  exact points_of_between hb (Cursor.not_stalls_front hs) hl (by simp)

/-- After a piece the cursor stands between two texts again, and the rest of the run decides. -/
theorem points_of_next (h : Between c front rest n)
    (hs : Cursor.stalls (Text.lines (front ++ rest)) = false) {piece : Piece} {next : Cursor}
    {taken : Nest} (hf : piece ≠ .finished) (hnext : Piece.next c = .ok piece next)
    (hadd : n.add? piece = some taken)
    (hrun : ∀ {front' rest'}, Between next front' rest' taken
      → Cursor.stalls (Text.lines (front' ++ rest')) = false
      → PointsBehindViable (front' ++ rest') fault)
    : PointsBehindViable (front ++ rest) fault := by
  rcases Piece.passed_of_here hnext with ⟨-, hp, -⟩ | ⟨⟨s, hpassed, rfl⟩, hflush⟩
  · contradiction
  have ha := hpassed.ahead_ne_nil
  have hl := (Piece.lineStart_of_here hnext).resolve_left ha
  obtain ⟨text, middle, rfl, hb, -⟩ := h.toStatement ha
  obtain ⟨behind, rfl, hafter⟩ := hb.passed hl hpassed hflush hadd
  have he : front ++ (text ++ (s.chars ++ behind)) = front ++ text ++ s.chars ++ behind := by
    simp only [List.append_assoc]
  rw [he] at hs ⊢
  exact hrun hafter hs

/-- A run that fails points behind a viable text, by induction on the run. -/
theorem points_of_readBlock_error {p : Parser} {stack : List OpenLoop} {block : List Statement}
    (hb : Between p.cursor front rest (nest stack block))
    (hs : Cursor.stalls (Text.lines (front ++ rest)) = false)
    (h : (readBlock stack block p).1 = .error fault)
    : PointsBehindViable (front ++ rest) fault := by
  fun_induction readBlock stack block p generalizing front rest with
  | case1 stack block p found cursor hnext =>
      obtain rfl := Except.error.inj h
      exact points_of_next_error hb hs hnext
  | case2 => cases h
  | case3 stack block p value location cursor hnext ih =>
      have hadd := add?_disp stack block value location
      exact points_of_next hb hs (by simp) hnext hadd fun hb hs => ih hb hs h
  | case4 stack block p header cursor hnext ih =>
      have hadd := add?_header stack block header
      exact points_of_next hb hs (by simp) hnext hadd fun hb hs => ih hb hs h
  | case5 stack block p location cursor hnext =>
      obtain rfl := Except.error.inj h
      exact points_of_close hb hs hnext
  | case6 => cases h
  | case7 block p location cursor hnext _ frame outer ih =>
      have hadd := add?_close frame outer block location
      exact points_of_next hb hs (by simp) hnext hadd fun hb hs => ih hb hs h

/-- Where the walk stalls, nothing but blanks is passed, and blanks are a source. -/
theorem points_of_stalls {source : String}
    (hs : Cursor.stalls (Text.lines source.toList) = true)
    (h : ((ofSource source .silent).parse).1 = .error fault)
    : PointsBehindViable source.toList fault := by
  have hstart : (Cursor.ofSource source).toStatement.startsWith [':'] = true :=
    Cursor.startsWith_separator_toStatement hs
  have hfault : fault = ⟨.noStatement, (Cursor.ofSource source).toStatement.location⟩ :=
    Except.error.inj (h.symm.trans (parse_of_stalls hs))
  have ha : (Cursor.ofSource source).toStatement.ahead ≠ [] := by
    obtain ⟨line, below, ha⟩ := Cursor.ahead_of_startsWith hstart
    simp [ha]
  obtain ⟨text, behind, he, hb, hblank⟩ := (between_ofSource source).toStatement ha
  have hquiet : (Cursor.ofSource source).passesSeparator = false := (Cursor.round_of_stalls hs).1
  have hblank := hblank.resolve_left (by simp [hquiet])
  have hseparator : ':' ∉ text := (⟨text, hblank⟩ : Blanks).not_mem (by decide)
  rw [he]
  exact points_of_between hb (Cursor.not_stalls_of_not_mem hseparator) (by rw [hfault])
    (by simp [hfault])

/-- Every fault is placed behind a viable text, by whether the source stalls. -/
theorem points_of_parse_error {source : String}
    (h : ((ofSource source .silent).parse).1 = .error fault)
    : PointsBehindViable source.toList fault := by
  cases hs : Cursor.stalls (Text.lines source.toList) with
  | true => exact points_of_stalls hs h
  | false => exact points_of_readBlock_error (between_ofSource source) hs h

/-- A fault lies inside its source and comes with no notice. The text before it is the start of a
source that is read. A loop over `Ans` is placed behind the `Ans` and its blanks instead, and then
the text before the `Ans` is such a start. -/
theorem parse_error_points_behind_viable {source : String}
    (h : ((ofSource source .silent).parse).1 = .error fault)
    : fault.location.Within source.toList
      ∧ ((ofSource source .silent).parse).2.notices = []
      ∧ (fault.cause ≠ .ansIterator → Viable (fault.location.textBefore source.toList))
      ∧ (fault.cause = .ansIterator
        → ∃ (before : List Char) (after : Blanks),
            fault.location.textBefore source.toList
              = before ++ (Variable.ans.chars ++ after.chars)
            ∧ Viable before
            ∧ Text.Flush (fault.location.restOfLine source.toList)) := by
  obtain ⟨front, rest, he, hl, hviable, hans⟩ := points_of_parse_error h
  have hd := Location.divides_past front rest
  rw [he, hl, hd.textBefore_eq, hd.restOfLine_eq]
  exact ⟨hd.within, notices_of_readBlock_error h, hviable, hans⟩

/-- A display above a loop over `Ans`. -/
def ansBelowDisplaySource : String :=
  "Disp B\n: For(Ans ,A,B)"

/-- The fault is placed behind the blank that follows the name. -/
theorem parse_error_points_behind_viable_ansBelowDisplay
    : ((ofSource ansBelowDisplaySource .silent).parse).1 = .error ⟨.ansIterator, ⟨2, 11⟩⟩
      ∧ Location.Within ⟨2, 11⟩ ansBelowDisplaySource.toList
      ∧ ((ofSource ansBelowDisplaySource .silent).parse).2.notices = []
      ∧ ∃ (before : List Char) (after : Blanks),
          "Disp B\n: For(Ans ".toList = before ++ (Variable.ans.chars ++ after.chars)
          ∧ Viable before
          ∧ Text.Flush ",A,B)".toList := by
  have hdisp : Piece.next (ofSource ansBelowDisplaySource .silent).cursor
      = .ok (.disp (.reference (.letter 1)) ⟨1, 1⟩)
          ⟨["".toList, ": For(Ans ,A,B)".toList], 0, 6, false⟩ := by
    rw [Piece.next_apply, Cursor.toStatement_of_not_boundary (by rintro ⟨⟩)]
    rfl
  have hwalk : Cursor.toStatement ⟨["".toList, ": For(Ans ,A,B)".toList], 0, 6, false⟩
      = ⟨["For(Ans ,A,B)".toList], 1, 2, true⟩ := by
    rw [Cursor.toStatement, if_pos (by decide), Cursor.toStatement, if_neg (by decide)]
    rfl
  have hloop : Piece.next ⟨["".toList, ": For(Ans ,A,B)".toList], 0, 6, false⟩
      = .error ⟨.ansIterator, ⟨2, 11⟩⟩ ⟨[",A,B)".toList], 1, 10, false⟩ := by
    rw [Piece.next_apply, hwalk]
    rfl
  have h : ((ofSource ansBelowDisplaySource .silent).parse).1
      = .error ⟨.ansIterator, ⟨2, 11⟩⟩ := by
    have hfirst : (ofSource ansBelowDisplaySource .silent).parse
        = readBlock [] [.disp (.reference (.letter 1)) ⟨1, 1⟩]
            ⟨⟨["".toList, ": For(Ans ,A,B)".toList], 0, 6, false⟩, .silent, 0, false, []⟩ :=
      readBlock_of_next hdisp
    rw [hfirst, readBlock_of_next_error hloop]
  obtain ⟨hwithin, hnotices, -, hans⟩ := parse_error_points_behind_viable h
  exact ⟨h, hwithin, hnotices, hans rfl⟩

end Parser

end LoopCalc
