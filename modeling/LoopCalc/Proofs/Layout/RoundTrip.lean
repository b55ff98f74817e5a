import Mathlib.Data.List.Forall2
import LoopCalc.Proofs.Layout.Page
import LoopCalc.Proofs.Parsing.Agreement
import LoopCalc.Proofs.Parsing.Stalling

/-! Reading a page gives back what is written on it: the sketched statements, with the numbers of
their texts, at the places where the page puts them.
-/

namespace LoopCalc

open Text (Blanks)
open LineByLine (Nest)

-----------------------------------------------------------------------------------------
-- Parts nest as they were sketched
-----------------------------------------------------------------------------------------

/-- A word stands for its operand, by cases on whether it is a literal or a name. -/
theorem Word.means_operand (w : Word) : w.Means w.operand := by
  cases w with
  | literal l hl =>
      rw [Means, LineByLine.number?_chars hl]
      rfl
  | name v => rfl

/-- The spelling of a display is read as that display. -/
theorem Spelling.piece_of_spells_disp {s : Spelling} {word : Word} (h : s.Spells (.disp word))
    (location : Location)
    : s.piece location = .disp word.operand location := by
  cases s with
  | disp before w after =>
      obtain rfl : w = word := h
      rfl
  | close after => cases h
  | header spelled => cases h

/-- The spelling of a close is read as a close. -/
theorem Spelling.piece_of_spells_close {s : Spelling} (h : s.Spells .close) (location : Location)
    : s.piece location = .close location := by
  cases s with
  | close after => rfl
  | disp before w after => cases h
  | header spelled => cases h

/-- A header is read with the operands that its words mean, and with the step one if none is
written. -/
theorem Spelling.piece_of_spells_header {s : Spelling} {iterator : Variable}
    {start stop step : Word} (h : s.Spells (.header iterator start stop step))
    (location : Location)
    : ∃ header,
        s.piece location = .header header
        ∧ header.iterator = iterator
        ∧ start.Means header.start
        ∧ stop.Means header.stop
        ∧ step.Means header.step := by
  cases s with
  | close after => cases h
  | disp before w after => cases h
  | header spelled =>
      obtain ⟨rfl, rfl, rfl, hstep⟩ := h
      refine ⟨spelled.header location, rfl, rfl, Word.means_operand _, Word.means_operand _, ?_⟩
      rw [HeaderSpelling.header]
      cases ha : spelled.step with
      | none => simpa [ha] using hstep
      | some a =>
          have hw : a.word = step := by simpa [ha] using hstep
          rw [← hw]
          exact a.word.means_operand

/-- A part at its place. -/
def Page.piece (place : Spelling × Location) : Piece :=
  place.1.piece place.2

/-- The pieces of a page can be put together in two runs, the second from where the first got to. -/
theorem Page.foldlM_split (k : Nat) (places : List (Spelling × Location)) (n : Nest)
    : (places.map piece).foldlM Nest.add? n
      = (((places.take k).map piece).foldlM Nest.add? n).bind
          fun middle => ((places.drop k).map piece).foldlM Nest.add? middle := by
  have h := congrArg (fun all => (all.map piece).foldlM Nest.add? n)
    (List.take_append_drop k places)
  simp only [List.map_append, List.foldlM_append] at h
  exact h.symm

mutual

/-- The parts of a sketch make one statement at the end of the innermost block. -/
theorem Sketch.foldlM_parts (sketch : Sketch) {places : List (Spelling × Location)}
    (h : List.Forall₂ (fun place part => place.1.Spells part) places sketch.parts)
    (opened : List (Header × List Statement)) (block : List Statement)
    : ∃ statement,
        (places.map Page.piece).foldlM Nest.add? ⟨opened, block⟩
          = some ⟨opened, block ++ [statement]⟩
        ∧ sketch.Means statement := by
  cases sketch with
  | disp word =>
      rw [parts, List.forall₂_cons_right_iff] at h
      obtain ⟨⟨s, l⟩, rest, hs, hrest, rfl⟩ := h
      obtain rfl := List.forall₂_nil_right_iff.1 hrest
      refine ⟨.disp word.operand l, ?_, by rw [Means]; exact word.means_operand⟩
      rw [List.map_singleton, Page.piece, Spelling.piece_of_spells_disp hs]
      rfl
  | loop iterator counts start stop step body =>
      rw [parts, List.forall₂_cons_right_iff] at h
      obtain ⟨⟨s, l⟩, rest, hs, hrest, rfl⟩ := h
      obtain ⟨header, hheader, hmeaning⟩ := Spelling.piece_of_spells_header hs l
      -- what follows the header is the body and one `End`
      have hbody := List.forall₂_take_append _ _ _ hrest
      have hend := List.forall₂_drop_append _ _ _ hrest
      obtain ⟨⟨last, l'⟩, none, hlast, hnone, hdrop⟩ := List.forall₂_cons_right_iff.1 hend
      obtain rfl := List.forall₂_nil_right_iff.1 hnone
      obtain ⟨statements, hfold, hmeans⟩ :=
        Sketch.foldlM_allParts body hbody ((header, block) :: opened) []
      refine ⟨.loop header statements, ?_, ?_⟩
      · have hrun := Page.foldlM_split (Sketch.allParts body).length rest
          ⟨(header, block) :: opened, []⟩
        rw [hfold, hdrop, Option.bind_some, List.map_singleton, Page.piece,
          Spelling.piece_of_spells_close hlast] at hrun
        rw [List.map_cons, Page.piece, hheader]
        exact hrun
      · obtain ⟨hiterator, hstart, hstop, hstep⟩ := hmeaning
        rw [Means]
        exact ⟨hiterator, hstart, hstop, hstep, hmeans⟩
termination_by structural sketch

/-- The parts of sketches are put together to statements that they mean, behind what stands there
already. By recursion on the sketches. -/
theorem Sketch.foldlM_allParts (sketches : List Sketch) {places : List (Spelling × Location)}
    (h : List.Forall₂ (fun place part => place.1.Spells part) places (Sketch.allParts sketches))
    (opened : List (Header × List Statement)) (block : List Statement)
    : ∃ statements,
        (places.map Page.piece).foldlM Nest.add? ⟨opened, block⟩
          = some ⟨opened, block ++ statements⟩
        ∧ Sketch.AllMean sketches statements := by
  cases sketches with
  | nil =>
      obtain rfl := List.forall₂_nil_right_iff.1 h
      exact ⟨[], by rw [List.append_nil]; rfl, by rw [AllMean]; trivial⟩
  | cons sketch rest =>
      have hfirst := List.forall₂_take_append _ _ _ h
      have hrest := List.forall₂_drop_append _ _ _ h
      obtain ⟨statement, hfold₁, hmeans₁⟩ := sketch.foldlM_parts hfirst opened block
      obtain ⟨statements, hfold₂, hmeans₂⟩ :=
        Sketch.foldlM_allParts rest hrest opened (block ++ [statement])
      refine ⟨statement :: statements, ?_, by rw [AllMean]; exact ⟨hmeans₁, hmeans₂⟩⟩
      rw [Page.foldlM_split sketch.parts.length, hfold₁, Option.bind_some, hfold₂,
        List.append_assoc, List.singleton_append]
termination_by structural sketches

end

namespace Page

/-- Every spelling is placed once, in order. By induction on what is written. -/
theorem map_fst_placesFrom (l : Location) (written : List (Spelling × Gap)) (last : Option Spelling)
    : (placesFrom l written last).map Prod.fst = written.map Prod.fst ++ last.toList := by
  induction written generalizing l with
  | nil => cases last <;> rfl
  | cons part written ih =>
      obtain ⟨s, gap⟩ := part
      rw [placesFrom, List.map_cons, ih]
      rfl

/-- Every placed line is read as its piece, by induction on the places. -/
theorem mapM_line (places : List (Spelling × Location))
    : (places.map line).mapM LineByLine.piece? = some (places.map piece) := by
  induction places with
  | nil => rfl
  | cons place places ih =>
      rw [List.map_cons, List.mapM_cons, ih, line, LineByLine.piece?_spelling]
      rfl

/-- The lines of a page nest to the sketched program. The lines `End` that are left out close
loops that the end of the text closes as well. -/
theorem Spells.exists_nest {p : Page} {tree : List Sketch} (h : p.Spells tree)
    : ∃ whole,
        (p.places.map line).foldlM Nest.read? Nest.empty = some whole
        ∧ Sketch.AllMean tree whole.program := by
  obtain ⟨omitted, hparts⟩ := h
  -- put the omitted lines back, at no matter which place
  let ends : List (Spelling × Location) := List.replicate omitted (.close .none, Location.start)
  have hfst : (p.places ++ ends).map Prod.fst
      = p.written.map Prod.fst ++ p.last.toList ++ List.replicate omitted (.close .none) := by
    rw [List.map_append, places, map_fst_placesFrom, List.map_replicate]
  rw [← hfst, List.forall₂_map_left_iff] at hparts
  obtain ⟨statements, hfold, hmeans⟩ := Sketch.foldlM_allParts tree hparts [] []
  rw [List.map_append, List.foldlM_append] at hfold
  obtain ⟨whole, hwhole, hends⟩ := Option.bind_eq_some_iff.1 hfold
  refine ⟨whole, ?_, ?_⟩
  · rw [Nest.foldlM_read?, mapM_line]
    exact hwhole
  · have hclose : ∀ q ∈ ends.map piece, q.isClose = true := by
      intro q hq
      rw [List.map_replicate] at hq
      rw [(List.mem_replicate.1 hq).2]
      rfl
    rw [← Nest.program_of_foldlM_close hclose hends]
    exact hmeans

end Page

-----------------------------------------------------------------------------------------
-- Pages do not stall
-----------------------------------------------------------------------------------------

namespace Text

/-- A blank line is trimmed away with its end. -/
theorem trimStart_blankLine {line : List Char} (h : isBlankLine line = true) (rest : List Char)
    : trimStart (line ++ '\n' :: rest) = trimStart rest := by
  have hblank : ∀ c ∈ line ++ ['\n'], isBlank c = true := by
    intro c hc
    rcases List.mem_append.1 hc with hc | hc
    · exact List.all_eq_true.1 h c hc
    · rw [List.mem_singleton.1 hc]
      decide
  have htrim := trimStart_blanks_append ⟨line ++ ['\n'], hblank⟩ rest
  rwa [List.append_assoc] at htrim

/-- What follows the first ink does not matter for where it is. -/
theorem trimStart_append_of_ink {front rest : List Char} {x : Char}
    (h : trimStart front = x :: rest) (back : List Char)
    : trimStart (front ++ back) = x :: (rest ++ back) := by
  have hx : isBlank x = false := flush_cons.1 (h ▸ flush_trimStart front)
  have hfront := leading_append_trimStart front
  rw [← hfront, h, List.append_assoc, trimStart_blanks_append, List.cons_append,
    trimStart_of_flush (flush_cons.2 hx)]

end Text

/-- No separator comes first in a text below a margin if none does without it. -/
theorem Margin.head?_trimStart_ne (m : Margin) {rest : List Char}
    (h : (Text.trimStart rest).head? ≠ some ':')
    : (Text.trimStart (m.chars ++ rest)).head? ≠ some ':' := by
  rw [chars, List.append_assoc]
  have hindent : (Text.trimStart (m.indent.chars ++ rest)).head? ≠ some ':' := by
    rwa [Text.trimStart_blanks_append]
  have hidle := m.isIdle
  generalize m.indent.chars ++ rest = text at hindent ⊢
  generalize m.idle = idle at hidle ⊢
  induction idle with
  | nil => exact hindent
  | cons line idle ih =>
      have hmore := ih fun l hl => hidle l (List.mem_cons_of_mem _ hl)
      have hline := (hidle line List.mem_cons_self).1
      rw [List.flatMap_cons, List.append_assoc, List.append_assoc, List.singleton_append]
      rw [Text.isIdleLine, Bool.or_eq_true] at hline
      rcases hline with hb | hc
      · rwa [Text.trimStart_blankLine hb]
      · obtain ⟨comment, hcomment⟩ := List.isPrefixOf_iff_prefix.1 hc
        rw [Text.trimStart_append_of_ink hcomment.symm]
        simp

namespace Page

/-- What is written does not start with a separator. -/
theorem head?_body_ne (written : List (Spelling × Gap)) (last : Option Spelling) (remark : Remark)
    : (Text.trimStart (body written last ++ remark.chars)).head? ≠ some ':' := by
  have hs : ∀ (s : Spelling) rest, (Text.trimStart (s.chars ++ rest)).head? ≠ some ':' := by
    intro s rest
    obtain ⟨c, text, hc, hb⟩ := s.exists_chars_eq_cons
    have hm : ':' ∉ s.chars := s.not_mem_chars (by decide)
    have hne : c ≠ ':' := by
      rintro rfl
      exact hm (hc ▸ List.mem_cons_self)
    rw [hc, List.cons_append, Text.trimStart_of_flush (Text.flush_cons.2 hb)]
    simpa using hne
  cases written with
  | nil =>
      cases last with
      | none =>
          have hr := remark.boundary
          rw [body, List.flatMap_nil, List.nil_append, Option.map_none, Option.getD_none,
            List.nil_append, Text.trimStart_of_flush hr.flush]
          rcases remark with ⟨_ | text, hi⟩
          · simp [Remark.chars]
          · simp [Remark.chars]
      | some s => exact hs s _
  | cons part written =>
      obtain ⟨s, gap⟩ := part
      rw [body, List.flatMap_cons, List.append_assoc, List.append_assoc, List.append_assoc]
      exact hs s _

/-- The source of a page never stalls, since its margin is followed by a piece. -/
theorem goesOn (p : Page) : Cursor.stalls (Text.lines p.source.toList) = false := by
  rw [Bool.eq_false_iff]
  intro hs
  rw [source, String.toList_ofList] at hs
  exact p.margin.head?_trimStart_ne (head?_body_ne p.written p.last p.remark)
    (Cursor.head?_trimStart_of_stalls hs)

end Page

/-- The marks of a page are those of its logical lines. -/
theorem Page.marks_eq (p : Page)
    : p.marks = (p.places.map line).filterMap LineByLine.LogicalLine.mark? := by
  rw [marks, List.filterMap_map]
  congr 1
  funext place
  rw [Function.comp_apply, LineByLine.LogicalLine.mark?, line, LineByLine.piece?_spelling]
  rfl

/-- Every page that is laid out for some sketches is read as the sketched program, with its
statements where the page puts them. -/
theorem Parser.parse_page {p : Page} {tree : List Sketch} (h : p.Spells tree)
    : ∃ program,
        ((ofSource p.source .silent).parse).1 = .ok program
        ∧ Sketch.AllMean tree program
        ∧ Program.marks program = p.marks := by
  obtain ⟨whole, hn, hmeans⟩ := h.exists_nest
  have hnests : Nests p.source whole := ⟨p.goesOn, by rw [p.logicalLines_source, hn]⟩
  refine ⟨whole.program, hnests.parse.1, hmeans, ?_⟩
  rw [Nest.marks_of_foldlM hn, p.marks_eq]
  rfl

/-- A number by its digits. -/
def Word.ofDigits (negative : Bool) (whole fraction : List Char)
    (hw : whole.all Char.isDigit = true) (hf : fraction.all Char.isDigit = true)
    (hd : whole ≠ [] ∨ fraction ≠ [])
    : Word :=
  .literal ⟨negative, whole, fraction⟩ ⟨List.all_eq_true.1 hw, List.all_eq_true.1 hf, hd⟩

/-- Some blanks. -/
def Text.Blanks.ofChars (chars : List Char) (h : chars.all isBlank = true) : Blanks :=
  ⟨chars, List.all_eq_true.1 h⟩

/-- A loop in a loop with a display in it. -/
def loopInLoop : List Sketch :=
  [.loop (.letter 0) (by decide) (.ofDigits false ['1'] [] rfl rfl (by decide))
    (.ofDigits false ['3'] [] rfl rfl (by decide)) (.ofDigits false ['1'] ['0'] rfl rfl (by decide))
    [.loop (.letter 1) (by decide) (.ofDigits true ['1'] ['5'] rfl rfl (by decide))
      (.name (.letter 0)) (.ofDigits false [] ['5'] rfl rfl (by decide))
      [.disp (.name (.letter 1))]]]

/-- One layout of the loops, with blanks, comments, a step and an `End` left out. -/
def loopInLoopPage : Page where
  margin := ⟨[" // two".toList, []], .ofChars [' '] rfl, by decide, by decide⟩
  written :=
    [(.header
        { lead := .ofChars [' '] rfl
          iterator := .letter 0
          counts := by decide
          after := .none
          start := ⟨.none, .ofDigits false ['1'] [] rfl rfl (by decide), .none⟩
          stop := ⟨.none, .ofDigits false ['3'] [] rfl rfl (by decide), .ofChars [' '] rfl⟩
          step := none
          closing := none },
      .separator .none (by decide)),
    (.header
        { lead := .none
          iterator := .letter 1
          counts := by decide
          after := .none
          start := ⟨.none, .ofDigits true ['1'] ['5'] rfl rfl (by decide), .none⟩
          stop := ⟨.ofChars ['\t'] rfl, .name (.letter 0), .none⟩
          step := some ⟨.none, .ofDigits false [] ['5'] rfl rfl (by decide), .none⟩
          closing := some (.ofChars [' '] rfl) },
      .lineEnd ⟨some "inner".toList, by decide⟩
        ⟨["  ".toList], .ofChars ['\t'] rfl, by decide, by decide⟩),
    (.disp .none (.name (.letter 1)) .none,
      .lineEnd ⟨none, by decide⟩ ⟨[], .none, by decide, by decide⟩)]
  last := some (.close .none)
  remark := ⟨none, by decide⟩
  inline := by decide

/-- A loop in a loop, with comments, a separator, both forms of headers and an end left out. -/
theorem Parser.parse_page_loopInLoop
    : loopInLoopPage.source
        = " // two\n\n For( A,1,3 :For(B,~1.5,\tA,.5) //inner\n  \n\tDisp B\nEnd"
      ∧ loopInLoopPage.Spells loopInLoop
      ∧ loopInLoopPage.marks = [⟨.loop, ⟨3, 2⟩⟩, ⟨.loop, ⟨3, 14⟩⟩, ⟨.disp, ⟨5, 2⟩⟩]
      ∧ ∃ program,
          ((ofSource loopInLoopPage.source .silent).parse).1 = .ok program
          ∧ Sketch.AllMean loopInLoop program
          ∧ Program.marks program = loopInLoopPage.marks := by
  have h : loopInLoopPage.Spells loopInLoop := by
    refine ⟨1, ?_⟩
    have hone : (Entry.number? (Entry.plainSigns ['1', '.', '0'])).map Operand.literal
        = some (.literal (.ofInt 1)) := by
      decide +kernel
    exact .cons ⟨rfl, rfl, rfl, hone⟩ (.cons ⟨rfl, rfl, rfl, rfl⟩
      (.cons rfl (.cons trivial (.cons trivial .nil))))
  exact ⟨by decide +kernel, h, by decide +kernel, parse_page h⟩

end LoopCalc
