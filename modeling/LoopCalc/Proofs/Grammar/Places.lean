import LoopCalc.Proofs.Grammar.Nesting
import LoopCalc.Proofs.Grammar.Reading

/-! Where the keywords of a program stand in its source. A place is counted by walking over the text
before it, so nothing here depends on how a source is cut into lines.
-/

namespace LoopCalc

/-- The place behind some text that starts at the given place. -/
def Location.past (l : Location) : List Char → Location
  | [] => l
  | c :: rest => past (if c = '\n' then ⟨l.line + 1, 1⟩ else ⟨l.line, l.column + 1⟩) rest

/-- The first place of every source text. -/
def Location.start : Location :=
  ⟨1, 1⟩

/-- The place so many lines further down. -/
def Location.down (k : Nat) (l : Location) : Location :=
  { l with line := l.line + k }

/-- The keyword that starts a statement, and where it stands. -/
structure Mark where
  keyword : Keyword
  location : Location
deriving DecidableEq

/-- The keyword of the mark stands in the source at the place of the mark. -/
def Mark.StandsIn (m : Mark) (source : List Char) : Prop :=
  ∃ front rest,
    source = front ++ (m.keyword.chars ++ rest) ∧ m.location = Location.start.past front

mutual

/-- The marks of a statement and of the statements in it, in their order. -/
def Statement.marks : Statement → List Mark
  | .disp _ location => [⟨.disp, location⟩]
  | .loop header body => ⟨.loop, header.location⟩ :: Program.marks body

def Program.marks : List Statement → List Mark
  | [] => []
  | s :: rest => s.marks ++ Program.marks rest

end

/-- The mark of the statement that a piece starts. -/
def Piece.mark? : Piece → Option Mark
  | disp _ location => some ⟨.disp, location⟩
  | header h => some ⟨.loop, h.location⟩
  | close _ => none
  | finished => none

/-- The mark of the statement that a logical line starts. -/
def LineByLine.LogicalLine.mark? (l : LogicalLine) : Option Mark :=
  (piece? l).bind Piece.mark?

/-- The place behind two texts is found by passing one after the other. -/
theorem Location.past_append (l : Location) (front back : List Char)
    : l.past (front ++ back) = (l.past front).past back := by
  induction front generalizing l with
  | nil => rfl
  | cons c front ih => exact ih _

/-- Text without line ends only moves the column, by induction on the text. -/
theorem Location.past_of_not_mem {text : List Char} (h : '\n' ∉ text) (l : Location)
    : l.past text = ⟨l.line, l.column + text.length⟩ := by
  induction text generalizing l with
  | nil => rfl
  | cons c text ih =>
      simp only [List.mem_cons, not_or] at h
      rw [past, if_neg (Ne.symm h.1), ih h.2, List.length_cons]
      simp only [Nat.add_assoc, Nat.add_comm 1]

/-- A text leads as far from a place further down, by induction on the text. -/
theorem Location.past_down (k : Nat) (l : Location) (text : List Char)
    : (l.down k).past text = (l.past text).down k := by
  induction text generalizing l with
  | nil => rfl
  | cons c text ih =>
      rw [past, past, ← ih]
      congr 1
      split
      · simp only [down, Nat.add_right_comm]
      · rfl

/-- The fields of a text do not hold what they are separated by. By induction on the text. -/
theorem Text.not_mem_of_mem_splitOn {a : Char} {cs field : List Char} (h : field ∈ cs.splitOn a)
    : a ∉ field := by
  induction cs generalizing field with
  | nil =>
      rw [List.mem_singleton.1 h]
      exact List.not_mem_nil
  | cons c cs ih =>
      obtain ⟨first, more, hs⟩ := exists_splitOn_eq_cons a cs
      rw [List.splitOn_cons_eq_if_modifyHead, hs, List.modifyHead_cons] at h
      split at h
      · rcases List.mem_cons.1 h with rfl | h
        · exact List.not_mem_nil
        · exact ih (hs ▸ h)
      · next hc =>
        rcases List.mem_cons.1 h with rfl | h
        · refine List.not_mem_cons_of_ne_of_not_mem ?_ (ih (hs ▸ List.mem_cons_self))
          rintro rfl
          simp at hc
        · exact ih (hs ▸ List.mem_cons_of_mem _ h)

namespace LineByLine

/-- Each field stands behind as many characters as it is placed after, by induction on the
fields. -/
theorem exists_of_mem_placed {fields : List (List Char)} {column place : Nat} {field : List Char}
    (h : (place, field) ∈ placed column fields)
    : ∃ before after,
        [':'].intercalate fields = before ++ (field ++ after) ∧ place = column + before.length := by
  induction fields generalizing column with
  | nil => cases h
  | cons first more ih =>
      rcases List.mem_cons.1 h with he | h
      · obtain ⟨rfl, rfl⟩ := Prod.mk.inj he
        cases more with
        | nil => exact ⟨[], [], by simp, rfl⟩
        | cons second more =>
            exact ⟨[], [':'] ++ [':'].intercalate (second :: more),
              by rw [List.intercalate_cons_cons, List.append_assoc]; rfl, rfl⟩
      -- the first field and a separator stand before all later fields
      · obtain ⟨before, after, hi, hp⟩ := ih h
        have hne : more ≠ [] := by
          rintro rfl
          cases h
        refine ⟨first ++ [':'] ++ before, after, ?_, ?_⟩
        · rw [List.intercalate_cons_of_ne_nil hne, hi]
          simp only [List.append_assoc]
        · simp only [List.length_append, List.length_singleton]
          omega

/-- The part before a comment is a front of the line, by induction on the line. -/
theorem exists_uncommented_append (text : List Char) : ∃ rest, text = uncommented text ++ rest := by
  induction text with
  | nil => exact ⟨[], rfl⟩
  | cons c text ih =>
      rw [uncommented]
      split
      · exact ⟨c :: text, rfl⟩
      · obtain ⟨rest, hr⟩ := ih
        exact ⟨rest, by rw [List.cons_append, ← hr]⟩

/-- A logical line stands in the text that it is of, at the column that its location says. -/
theorem exists_of_mem_ofLine {line column : Nat} {text : List Char} {l : LogicalLine}
    (h : l ∈ ofLine line column text)
    : ∃ before after,
        text = before ++ (l.text ++ after)
        ∧ l.location = ⟨line + 1, column + before.length + 1⟩ := by
  obtain ⟨⟨place, field⟩, hm, hf⟩ := List.mem_filterMap.1 h
  obtain ⟨before, after, hi, hp⟩ := exists_of_mem_placed hm
  obtain ⟨rest, hr⟩ := exists_uncommented_append text
  rw [List.intercalate_splitOn] at hi
  rw [ofField] at hf
  split at hf
  · cases hf
  · obtain ⟨front, back, hfront, hfield⟩ := Text.exists_trim_between field
    obtain rfl := Option.some.inj hf
    refine ⟨before ++ front.chars, back.chars ++ (after ++ rest), ?_, ?_⟩
    · rw [hi, hfield] at hr
      simpa only [List.append_assoc] using hr
    · simp only [List.length_append, hfront, hp, Nat.add_assoc]

/-- A logical line stands in the text at its place, by induction on the lines. -/
theorem exists_of_mem_ofLines {lines : List (List Char)} {line column : Nat} {l : LogicalLine}
    (hlines : ∀ text ∈ lines, '\n' ∉ text) (h : l ∈ ofLines line column lines)
    : ∃ front rest,
        ['\n'].intercalate lines = front ++ (l.text ++ rest)
        ∧ l.location = (⟨line + 1, column + 1⟩ : Location).past front := by
  induction lines generalizing line column with
  | nil => cases h
  | cons text below ih =>
      have htext : '\n' ∉ text := hlines text List.mem_cons_self
      rcases List.mem_append.1 h with h | h
      · obtain ⟨before, after, he, hl⟩ := exists_of_mem_ofLine h
        have hb : '\n' ∉ before := fun hm => htext (he ▸ List.mem_append_left _ hm)
        have hplace : l.location = (⟨line + 1, column + 1⟩ : Location).past before := by
          rw [Location.past_of_not_mem hb, hl]
          simp only [Nat.add_right_comm]
        cases below with
        | nil => exact ⟨before, after, by rw [List.intercalate_singleton, he], hplace⟩
        | cons next below =>
            refine ⟨before, after ++ (['\n'] ++ ['\n'].intercalate (next :: below)), ?_, hplace⟩
            rw [List.intercalate_cons_cons, he]
            simp only [List.append_assoc]
      -- below the first line columns count from its line end
      · obtain ⟨front, rest, hi, hl⟩ := ih (fun t ht => hlines t (List.mem_cons_of_mem _ ht)) h
        have hne : below ≠ [] := by
          rintro rfl
          cases h
        refine ⟨text ++ ['\n'] ++ front, rest, ?_, ?_⟩
        · rw [List.intercalate_cons_of_ne_nil hne, hi]
          simp only [List.append_assoc]
        · rw [hl, Location.past_append, Location.past_append, Location.past_of_not_mem htext]
          rfl

/-- The keyword of a logical line opens it. -/
theorem mark?_eq_some {l : LogicalLine} {m : Mark} (h : l.mark? = some m)
    : m.location = l.location ∧ ∃ rest, l.text = m.keyword.chars ++ rest := by
  obtain ⟨piece, hp, hm⟩ := Option.bind_eq_some_iff.1 h
  obtain ⟨s, hs, rfl⟩ := exists_spelling_of_piece? hp
  cases s with
  | close after => cases hm
  | disp before word after =>
      cases hm
      exact ⟨rfl, _, hs.symm⟩
  | header s =>
      cases hm
      exact ⟨rfl, _, hs.symm⟩

/-- The keywords of logical lines stand in the source. -/
theorem standsIn_of_mem_logicalLines {source : String} {l : LogicalLine} {m : Mark}
    (h : l ∈ logicalLines source) (hm : l.mark? = some m)
    : m.StandsIn source.toList := by
  obtain ⟨front, rest, hi, hl⟩ := exists_of_mem_ofLines
    (fun text ht => Text.not_mem_of_mem_splitOn ht) h
  obtain ⟨hloc, more, ht⟩ := mark?_eq_some hm
  rw [List.intercalate_splitOn, ht, List.append_assoc] at hi
  exact ⟨front, more ++ rest, hi, hloc.trans hl⟩

end LineByLine

/-- The marks of a program stand in the order of its text. -/
theorem Program.marks_inTextOrder : InTextOrder Program.marks fun h => [⟨.loop, h.location⟩] :=
  .of_cons rfl (fun _ _ => rfl) fun _ _ => rfl

namespace LineByLine.Nest

/-- A piece adds its mark behind those before, as the marks stand in the order of the text. -/
theorem marks_of_add? {n more : Nest} {piece : Piece} (h : n.add? piece = some more)
    : Program.marks more.program = Program.marks n.program ++ piece.mark?.toList := by
  rw [view_of_add? Program.marks_inTextOrder h]
  cases piece <;> rfl

/-- The marks of a program are those of its logical lines, by induction on the lines. -/
theorem marks_of_foldlM {lines : List LogicalLine} {n whole : Nest}
    (h : lines.foldlM read? n = some whole)
    : Program.marks whole.program
      = Program.marks n.program ++ lines.filterMap LogicalLine.mark? := by
  induction lines generalizing n with
  | nil =>
      obtain rfl := Option.some.inj h
      exact (List.append_nil _).symm
  | cons l lines ih =>
      rw [List.foldlM_cons] at h
      obtain ⟨more, hl, h⟩ := Option.bind_eq_some_iff.1 h
      obtain ⟨piece, hp, hadd⟩ := Option.bind_eq_some_iff.1 hl
      have hm : l.mark? = piece.mark? := by rw [LogicalLine.mark?, hp, Option.bind_some]
      rw [ih h, marks_of_add? hadd, List.append_assoc, List.filterMap_cons, hm]
      cases piece.mark? <;> rfl

/-- What a view shows of a program is shown of its spelled pieces, by induction on the lines. -/
theorem forall_mem_of_foldlM {α : Type} {view : List Statement → List α}
    {own : Header → List α} (hview : InTextOrder view own) {P : α → Prop}
    (hspelled : ∀ (s : Spelling) (location : Location), ∀ a ∈ view (s.piece location).opening, P a)
    {lines : List LogicalLine} {n whole : Nest} (h : lines.foldlM read? n = some whole)
    (hn : ∀ a ∈ view n.program, P a)
    : ∀ a ∈ view whole.program, P a := by
  induction lines generalizing n with
  | nil =>
      obtain rfl := Option.some.inj h
      exact hn
  | cons l lines ih =>
      rw [List.foldlM_cons] at h
      obtain ⟨more, hl, h⟩ := Option.bind_eq_some_iff.1 h
      obtain ⟨piece, hp, hadd⟩ := Option.bind_eq_some_iff.1 hl
      obtain ⟨s, -, rfl⟩ := exists_spelling_of_piece? hp
      apply ih h
      intro a ha
      rw [view_of_add? hview hadd, List.mem_append] at ha
      exact ha.elim (hn a) (hspelled s l.location a)

end LineByLine.Nest

end LoopCalc
