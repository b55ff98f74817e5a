import LoopCalc.Proofs.Grammar.Places

/-! Programs laid out as text. A sketch is a program without places whose numbers are given by
their texts. A page writes the parts of a sketch one after the other, with whatever may stand
between them, and fixes where each of them stands.
-/

namespace LoopCalc

open Text (Blanks)
open LineByLine (Boundary LogicalLine ofLine ofLines logicalLines)

-----------------------------------------------------------------------------------------
-- Sketches
-----------------------------------------------------------------------------------------

/-- A statement whose numbers are given by their texts. -/
inductive Sketch where
  | disp (word : Word)
  | loop (iterator : Variable) (counts : iterator ≠ .ans) (start stop step : Word)
      (body : List Sketch)

/-- The word stands for the operand. A number is that of its text, with `~` read as a minus sign. -/
def Word.Means : Word → Operand → Prop
  | literal l _, operand =>
      (Entry.number? (Entry.plainSigns l.chars)).map Operand.literal = some operand
  | name v, operand => operand = .reference v

mutual

/-- The statement is the one sketched, at any place. -/
def Sketch.Means : Sketch → Statement → Prop
  | .disp word, .disp value _ => word.Means value
  | .loop iterator _ start stop step body, .loop header statements =>
      header.iterator = iterator
      ∧ start.Means header.start
      ∧ stop.Means header.stop
      ∧ step.Means header.step
      ∧ Sketch.AllMean body statements
  | _, _ => False

def Sketch.AllMean : List Sketch → List Statement → Prop
  | [], [] => True
  | sketch :: rest, statement :: more => sketch.Means statement ∧ Sketch.AllMean rest more
  | _, _ => False

end

/-- What is written in one go: a display, a header or an `End`. -/
inductive Part where
  | disp (word : Word)
  | header (iterator : Variable) (start stop step : Word)
  | close

mutual

/-- The parts of a sketch in their order, with an `End` for each loop. -/
def Sketch.parts : Sketch → List Part
  | .disp word => [.disp word]
  | .loop iterator _ start stop step body =>
      .header iterator start stop step :: (Sketch.allParts body ++ [.close])

def Sketch.allParts : List Sketch → List Part
  | [] => []
  | sketch :: rest => sketch.parts ++ Sketch.allParts rest

end

/-- The spelling is one of the part. A step may be left out if it is the number one. -/
def Spelling.Spells : Spelling → Part → Prop
  | .disp _ word _, .disp w => word = w
  | .header h, .header iterator start stop step =>
      h.iterator = iterator
      ∧ h.start.word = start
      ∧ h.stop.word = stop
      ∧ match h.step with
        | some a => a.word = step
        | none => step.Means (.literal (.ofInt 1))
  | .close _, .close => True
  | _, _ => False

-----------------------------------------------------------------------------------------
-- Pages
-----------------------------------------------------------------------------------------

/-- Lines that hold nothing for a reader, and the indentation of the line below them. -/
structure Margin where
  idle : List (List Char)
  indent : Blanks
  isIdle : ∀ line ∈ idle, Text.isIdleLine line = true ∧ '\n' ∉ line
  inline : '\n' ∉ indent.chars

def Margin.chars (m : Margin) : List Char :=
  m.idle.flatMap (· ++ ['\n']) ++ m.indent.chars

/-- A comment up to the end of its line, or none. -/
structure Remark where
  text : Option (List Char)
  inline : ∀ t ∈ text, '\n' ∉ t

def Remark.chars (r : Remark) : List Char :=
  (r.text.map fun t => '/' :: '/' :: t).getD []

/-- What stands between two parts, but for the blanks after the first of them. -/
inductive Gap where
  | separator (after : Blanks) (inline : '\n' ∉ after.chars)
  | lineEnd (remark : Remark) (margin : Margin)

def Gap.chars : Gap → List Char
  | separator after _ => ':' :: after.chars
  | lineEnd remark margin => remark.chars ++ '\n' :: margin.chars

/-- A program as it is laid out. The text may end behind a gap or behind a part. -/
structure Page where
  margin : Margin
  written : List (Spelling × Gap)
  last : Option Spelling
  remark : Remark
  inline : ∀ s ∈ written.map Prod.fst ++ last.toList, '\n' ∉ s.chars

namespace Page

/-- The parts and gaps of a page, up to its last part. -/
def body (written : List (Spelling × Gap)) (last : Option Spelling) : List Char :=
  written.flatMap (fun w => w.1.chars ++ w.2.chars) ++ (last.map Spelling.chars).getD []

def chars (p : Page) : List Char :=
  p.margin.chars ++ (body p.written p.last ++ p.remark.chars)

def source (p : Page) : String :=
  String.ofList p.chars

/-- Each part behind the text from the given place on, with its own place. -/
def placesFrom : Location → List (Spelling × Gap) → Option Spelling → List (Spelling × Location)
  | _, [], none => []
  | l, [], some s => [(s, l)]
  | l, (s, gap) :: more, last => (s, l) :: placesFrom (l.past (s.chars ++ gap.chars)) more last

/-- The parts of the page with the places of their first characters. -/
def places (p : Page) : List (Spelling × Location) :=
  placesFrom (Location.start.past p.margin.chars) p.written p.last

/-- The marks of the statements on the page. -/
def marks (p : Page) : List Mark :=
  p.places.filterMap fun (s, l) => (s.piece l).mark?

/-- The page holds the parts of the sketches, but for some of the last lines `End`. -/
def Spells (p : Page) (tree : List Sketch) : Prop :=
  ∃ omitted : Nat,
    List.Forall₂ Spelling.Spells
      (p.written.map Prod.fst ++ p.last.toList ++ List.replicate omitted (.close .none))
      (Sketch.allParts tree)

end Page

-----------------------------------------------------------------------------------------
-- Text that says nothing
-----------------------------------------------------------------------------------------

/-- The logical lines of a text whose first line starts after some columns. -/
def linesOf (line column : Nat) (text : List Char) : List LogicalLine :=
  ofLines line column (Text.lines text)

/-- A text without a line feed stands in one line with the first line of what follows. -/
theorem linesOf_inline_append {front : List Char} (h : '\n' ∉ front) (rest : List Char)
    (line column : Nat)
    : ∃ first below,
        Text.lines rest = first :: below
        ∧ linesOf line column (front ++ rest)
          = ofLine line column (front ++ first) ++ ofLines (line + 1) 0 below := by
  obtain ⟨first, below, hl⟩ := List.exists_cons_of_ne_nil (Text.lines_ne_nil rest)
  refine ⟨first, below, hl, ?_⟩
  rw [linesOf, Text.lines_append_of_not_mem h, hl]
  rfl

/-- The text only moves the place of what follows it. -/
def Silent (text : List Char) : Prop :=
  ∀ line column, ∃ line' column',
    (⟨line + 1, column + 1⟩ : Location).past text = ⟨line' + 1, column' + 1⟩
    ∧ ∀ rest, linesOf line column (text ++ rest) = linesOf line' column' rest

/-- No text at all is silent. -/
theorem Silent.nil : Silent [] :=
  fun line column => ⟨line, column, rfl, fun _ => rfl⟩

/-- Silent texts one after the other are silent. -/
theorem Silent.append {front back : List Char} (hf : Silent front) (hb : Silent back)
    : Silent (front ++ back) := by
  intro line column
  obtain ⟨line₁, column₁, hp₁, hl₁⟩ := hf line column
  obtain ⟨line₂, column₂, hp₂, hl₂⟩ := hb line₁ column₁
  refine ⟨line₂, column₂, by rw [Location.past_append, hp₁, hp₂], ?_⟩
  intro rest
  rw [List.append_assoc, hl₁, hl₂]

/-- Blanks on one line are silent. -/
theorem silent_blanks {b : Blanks} (h : '\n' ∉ b.chars) : Silent b.chars := by
  intro line column
  refine ⟨line, column + b.chars.length, ?_, ?_⟩
  · rw [Location.past_of_not_mem h, Nat.add_right_comm]
  · intro rest
    obtain ⟨first, below, hl, hr⟩ := linesOf_inline_append h rest line column
    rw [hr, LineByLine.ofLine_blanks_append, linesOf, hl]
    rfl

/-- A separator is silent. -/
theorem silent_separator : Silent [':'] := by
  intro line column
  refine ⟨line, column + 1, rfl, ?_⟩
  intro rest
  have hs : '\n' ∉ [':'] := by decide
  obtain ⟨first, below, hl, hr⟩ := linesOf_inline_append hs rest line column
  rw [hr, List.singleton_append, LineByLine.ofLine_separator, linesOf, hl]
  rfl

/-- An idle line and its end are silent. -/
theorem silent_line {text : List Char} (hi : Text.isIdleLine text = true) (h : '\n' ∉ text)
    : Silent (text ++ ['\n']) := by
  intro line column
  refine ⟨line + 1, 0, ?_, ?_⟩
  · rw [Location.past_append, Location.past_of_not_mem h]
    rfl
  · intro rest
    rw [List.append_assoc, linesOf, List.singleton_append, Text.lines_append_lineEnd,
      Text.lines_of_not_mem h, List.singleton_append, ofLines,
      LineByLine.ofLine_of_isIdleLine hi]
    rfl

/-- A margin is silent, by induction on its idle lines. -/
theorem Margin.silent (m : Margin) : Silent m.chars := by
  refine Silent.append ?_ (silent_blanks m.inline)
  have hidle := m.isIdle
  generalize m.idle = idle at hidle ⊢
  induction idle with
  | nil => exact .nil
  | cons line idle ih =>
      obtain ⟨hi, hn⟩ := hidle line List.mem_cons_self
      rw [List.flatMap_cons]
      exact (silent_line hi hn).append (ih fun l hl => hidle l (List.mem_cons_of_mem _ hl))

/-- A remark stays on its line. -/
theorem Remark.not_mem_chars (r : Remark) : '\n' ∉ r.chars := by
  rcases r with ⟨_ | text, hi⟩
  · exact List.not_mem_nil
  · have ht : '\n' ∉ text := hi text rfl
    simpa [Remark.chars] using ht

/-- A logical line is over where a remark starts. -/
theorem Remark.boundary (r : Remark) : Boundary r.chars := by
  rcases r with ⟨_ | text, hi⟩
  · exact .lineEnd
  · exact .comment text

/-- A remark on a line of its own makes the line idle. -/
theorem Remark.isIdleLine_chars (r : Remark) : Text.isIdleLine r.chars = true := by
  rcases r with ⟨_ | text, hi⟩
  · rfl
  · rfl

/-- Whatever stands between two parts is silent, by cases on the gap. -/
theorem Gap.silent (gap : Gap) : Silent gap.chars := by
  cases gap with
  | separator after inline => exact silent_separator.append (silent_blanks inline)
  | lineEnd remark margin =>
      have h := (silent_line remark.isIdleLine_chars remark.not_mem_chars).append margin.silent
      rwa [List.append_assoc] at h

/-- A gap closes the logical line before it. -/
theorem Gap.boundary (gap : Gap) (rest : List Char)
    : ∃ first below, Text.lines (gap.chars ++ rest) = first :: below ∧ Boundary first := by
  cases gap with
  | separator after inline =>
      have hs : '\n' ∉ [':'] := by decide
      obtain ⟨first, below, hl⟩ :=
        List.exists_cons_of_ne_nil (Text.lines_ne_nil (after.chars ++ rest))
      refine ⟨':' :: first, below, ?_, .separator first⟩
      exact (Text.lines_append_of_not_mem hs (after.chars ++ rest)).trans (by rw [hl]; rfl)
  | lineEnd remark margin =>
      refine ⟨remark.chars, Text.lines (margin.chars ++ rest), ?_, remark.boundary⟩
      rw [Gap.chars, List.append_assoc, List.cons_append, Text.lines_append_lineEnd,
        Text.lines_of_not_mem remark.not_mem_chars]
      rfl

/-- A piece before a boundary is a logical line, without the blanks at its end. -/
theorem linesOf_spelling {s : Spelling} (hs : '\n' ∉ s.chars) {rest first : List Char}
    {below : List (List Char)} (hr : Text.lines rest = first :: below) (hb : Boundary first)
    (line column : Nat)
    : linesOf line column (s.chars ++ rest)
      = ⟨⟨line + 1, column + 1⟩, s.trimmed.chars⟩
        :: linesOf line (column + s.chars.length) rest := by
  rw [linesOf, Text.lines_append_of_not_mem hs, linesOf, hr, List.modifyHead_cons, ofLines,
    ofLines, LineByLine.ofLine_spelling s hb]
  rfl

namespace Page

/-- The logical line that a part is written in. -/
def line (place : Spelling × Location) : LogicalLine :=
  ⟨place.2, place.1.trimmed.chars⟩

/-- Each part of a page is one logical line, by induction on the parts. -/
theorem linesOf_body {written : List (Spelling × Gap)} {last : Option Spelling} (remark : Remark)
    (hi : ∀ s ∈ written.map Prod.fst ++ last.toList, '\n' ∉ s.chars) (row column : Nat)
    : linesOf row column (body written last ++ remark.chars)
      = (placesFrom ⟨row + 1, column + 1⟩ written last).map line := by
  induction written generalizing row column with
  | nil =>
      have hr := Text.lines_of_not_mem remark.not_mem_chars
      have hidle := LineByLine.ofLine_of_isIdleLine remark.isIdleLine_chars
      cases last with
      | none =>
          rw [body, List.flatMap_nil, List.nil_append, Option.map_none, Option.getD_none,
            List.nil_append, linesOf, hr, ofLines, hidle]
          rfl
      | some s =>
          have hs : '\n' ∉ s.chars := hi s (by simp)
          rw [body, List.flatMap_nil, List.nil_append, Option.map_some, Option.getD_some,
            linesOf_spelling hs hr remark.boundary, linesOf, hr, ofLines, hidle]
          rfl
  | cons part written ih =>
      obtain ⟨s, gap⟩ := part
      have hs : '\n' ∉ s.chars := hi s (by simp)
      have hbody : body ((s, gap) :: written) last ++ remark.chars
          = s.chars ++ (gap.chars ++ (body written last ++ remark.chars)) := by
        simp only [body, List.flatMap_cons, List.append_assoc]
      -- the gap ends the logical line of the part and moves the place to the next part
      obtain ⟨first, below, hl, hb⟩ := gap.boundary (body written last ++ remark.chars)
      obtain ⟨row', column', hp, hskip⟩ := gap.silent row (column + s.chars.length)
      have hplace : (⟨row + 1, column + 1⟩ : Location).past (s.chars ++ gap.chars)
          = ⟨row' + 1, column' + 1⟩ := by
        rw [Location.past_append, Location.past_of_not_mem hs, ← hp, Nat.add_right_comm]
      rw [hbody, linesOf_spelling hs hl hb, hskip, placesFrom, hplace, List.map_cons,
        ih fun t ht => hi t (List.mem_cons_of_mem _ ht)]
      rfl

/-- The logical lines of a page are the pieces that it places, in order. -/
theorem logicalLines_source (p : Page) : logicalLines p.source = p.places.map line := by
  obtain ⟨row, column, hp, hskip⟩ := p.margin.silent 0 0
  have hstart : Location.start.past p.margin.chars = ⟨row + 1, column + 1⟩ := hp
  rw [places, hstart, ← linesOf_body p.remark p.inline row column, ← hskip,
    LineByLine.logicalLines_eq, source, String.toList_ofList]
  rfl

end Page

end LoopCalc
