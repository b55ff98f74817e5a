import LoopCalc.Proofs.Layout.Page
import LoopCalc.Proofs.Parsing.Skipping

/-! The text that a cursor walks over on its way to the next statement. It says nothing, and it is
passed as a whole. A walk that starts inside a logical line and ends where a statement may start has
passed what closes that line before anything else with ink.
-/

namespace LoopCalc

open Text (Blanks)
open LineByLine (Boundary)

namespace Text

/-- The first line of a text. -/
def firstLine (text : List Char) : List Char :=
  (lines text).headD []

/-- A text without a line end stands in front of the first line of what follows. -/
theorem firstLine_inline_append {front : List Char} (h : '\n' ∉ front) (rest : List Char)
    : firstLine (front ++ rest) = front ++ firstLine rest := by
  obtain ⟨first, below, hl⟩ := List.exists_cons_of_ne_nil (lines_ne_nil rest)
  rw [firstLine, firstLine, lines_append_of_not_mem h, hl]
  rfl

/-- The first line ends before the first line end. -/
theorem firstLine_append_lineEnd {front : List Char} (h : '\n' ∉ front) (rest : List Char)
    : firstLine (front ++ '\n' :: rest) = front := by
  rw [firstLine, lines_append_lineEnd, lines_of_not_mem h]
  rfl

/-- No line holds a line end. -/
theorem not_mem_of_mem_lines {text line : List Char} (h : line ∈ lines text) : '\n' ∉ line := by
  rw [lines_eq_splitOn] at h
  exact not_mem_of_mem_splitOn h

/-- What opens the first line opens the text, by induction on it. -/
theorem exists_of_lines_eq_append {text front first : List Char} {below : List (List Char)}
    (h : lines text = (front ++ first) :: below)
    : ∃ rest, text = front ++ rest ∧ lines rest = first :: below := by
  induction front generalizing text with
  | nil => exact ⟨text, rfl, h⟩
  | cons x front ih =>
      cases text with
      | nil => cases h
      | cons c text =>
          obtain ⟨line, more, hl⟩ := List.exists_cons_of_ne_nil (lines_ne_nil text)
          rw [lines, hl] at h
          split at h
          · cases h
          · obtain ⟨hline, rfl⟩ := List.cons.inj h
            obtain ⟨rfl, rfl⟩ := List.cons.inj hline
            obtain ⟨rest, rfl, hr⟩ := ih hl
            exact ⟨rest, rfl, hr⟩

/-- Above a second line stands the first, with its line end. -/
theorem exists_of_lines_eq_cons {text first : List Char} {below : List (List Char)}
    (h : lines text = first :: below) (hb : below ≠ [])
    : ∃ rest, text = first ++ '\n' :: rest ∧ lines rest = below := by
  have hfirst : lines text = (first ++ []) :: below := by rwa [List.append_nil]
  obtain ⟨rest, rfl, hr⟩ := exists_of_lines_eq_append hfirst
  cases rest with
  | nil => exact absurd (List.cons.inj hr).2.symm hb
  | cons c rest =>
      obtain ⟨line, more, hl⟩ := List.exists_cons_of_ne_nil (lines_ne_nil rest)
      rw [lines, hl] at hr
      split at hr
      · next hc =>
        subst hc
        exact ⟨rest, rfl, hl.trans (List.cons.inj hr).2⟩
      · cases hr

/-- Whatever follows it, the text closes the logical line before it: a boundary is its first ink. -/
def Breaks (text : List Char) : Prop :=
  ∀ more, Boundary (trimStart (firstLine (text ++ more)))

/-- A text that closes a logical line does so whatever is written behind it. -/
theorem Breaks.append {text : List Char} (h : Breaks text) (back : List Char)
    : Breaks (text ++ back) := by
  intro more
  rw [List.append_assoc]
  exact h (back ++ more)

/-- Blanks before it do not keep a text from closing a logical line. -/
theorem breaks_blanks_append {b : Blanks} (hb : '\n' ∉ b.chars) {text : List Char}
    (h : Breaks text)
    : Breaks (b.chars ++ text) := by
  intro more
  rw [List.append_assoc, firstLine_inline_append hb, trimStart_blanks_append]
  exact h more

/-- A separator closes a logical line. -/
theorem breaks_separator : Breaks [':'] := by
  intro more
  rw [firstLine_inline_append (by decide), List.singleton_append,
    trimStart_of_flush (flush_cons.2 (by decide))]
  exact .separator _

/-- The end of an idle line closes a logical line. -/
theorem breaks_line {line : List Char} (hi : isIdleLine line = true) (h : '\n' ∉ line)
    : Breaks (line ++ ['\n']) := by
  intro more
  rw [List.append_assoc, List.singleton_append, firstLine_append_lineEnd h]
  rw [isIdleLine, Bool.or_eq_true] at hi
  rcases hi with hb | hc
  · rw [isBlankLine_iff.1 hb]
    exact .lineEnd
  · obtain ⟨rest, hrest⟩ := List.isPrefixOf_iff_prefix.1 hc
    rw [← hrest]
    exact .comment rest

/-- A text that closes a logical line and opens with ink opens with a boundary. -/
theorem Breaks.boundary {text rest : List Char} (h : Breaks text)
    (hf : Flush (firstLine (text ++ rest))) (more : List Char)
    : Boundary (firstLine (text ++ more)) := by
  have hmore := h more
  cases text with
  | nil => exact absurd (h ['A']) (by rintro ⟨⟩)
  | cons x text =>
      by_cases hx : x = '\n'
      · rw [hx, List.cons_append, firstLine, lines, if_pos rfl]
        exact .lineEnd
      · have hinline : '\n' ∉ [x] := by simpa using Ne.symm hx
        have hopens (cs : List Char) : firstLine (x :: text ++ cs) = x :: firstLine (text ++ cs) :=
          firstLine_inline_append hinline (text ++ cs)
        rw [hopens] at hf hmore ⊢
        rwa [trimStart_of_flush (flush_cons.2 (flush_cons.1 hf))] at hmore

end Text

namespace Cursor

-----------------------------------------------------------------------------------------
-- Walks over text
-----------------------------------------------------------------------------------------

/-- The text leads from one place to the other and says nothing. It is blanks within a line, or it
closes the logical line before it. -/
structure Strolls (c : Cursor) (text : List Char) (next : Cursor) : Prop where
  silent : Silent text
  location_eq : next.location = c.location.past text
  closes : (∃ b : Blanks, text = b.chars ∧ '\n' ∉ b.chars ∧ next.lineStart = c.lineStart)
    ∨ Text.Breaks text ∧ next.lineStart = true

/-- A stroll can be followed by another. It closes a logical line if one of them does. -/
theorem Strolls.trans {c middle next : Cursor} {text more : List Char}
    (h : c.Strolls text middle) (hm : middle.Strolls more next)
    : c.Strolls (text ++ more) next where
  silent := h.silent.append hm.silent
  location_eq := by rw [Location.past_append, ← h.location_eq, hm.location_eq]
  closes := by
    rcases h.closes with ⟨b, rfl, hb, hl⟩ | ⟨hbreaks, hl⟩
    · rcases hm.closes with ⟨b', rfl, hb', hl'⟩ | ⟨hbreaks, hl'⟩
      · exact Or.inl ⟨b.append b', rfl, by simp [Blanks.append, hb, hb'], hl'.trans hl⟩
      · exact Or.inr ⟨Text.breaks_blanks_append hb hbreaks, hl'⟩
    · refine Or.inr ⟨hbreaks.append more, ?_⟩
      rcases hm.closes with ⟨b', -, -, hl'⟩ | ⟨-, hl'⟩
      · exact hl'.trans hl
      · exact hl'

/-- What follows the text says the same behind it. -/
theorem Strolls.linesOf_eq {c next : Cursor} {text : List Char} (h : c.Strolls text next)
    (more : List Char)
    : linesOf c.line c.column (text ++ more) = linesOf next.line next.column more := by
  obtain ⟨line, column, hp, hl⟩ := h.silent c.line c.column
  have hlocation : next.location = ⟨line + 1, column + 1⟩ := h.location_eq.trans hp
  simp only [location, Location.mk.injEq, Nat.add_right_cancel_iff] at hlocation
  rw [hl, hlocation.1, hlocation.2]

/-- Where a logical line is over behind the text, it is over before it. -/
theorem Strolls.boundary {c next : Cursor} {text rest more : List Char}
    (h : c.Strolls text next) (ha : c.ahead = Text.lines (text ++ rest))
    (hf : c.lineStart = true ∨ Text.Flush c.rest)
    (hm : next.lineStart = true ∨ Boundary (Text.firstLine more))
    : c.lineStart = true ∨ Boundary (Text.firstLine (text ++ more)) := by
  rcases hf with hl | hf
  · exact Or.inl hl
  have hflush : Text.Flush (Text.firstLine (text ++ rest)) := by
    rwa [Text.firstLine, ← ha]
  rcases h.closes with ⟨b, rfl, hb, hl⟩ | ⟨hbreaks, -⟩
  · rw [← hl]
    refine hm.imp_right fun hm => ?_
    -- the line opens with ink, so no blanks were passed
    rw [Text.firstLine_inline_append hb] at hflush ⊢
    cases hc : b.chars with
    | nil => exact hm
    | cons x blanks =>
        rw [hc] at hflush
        have hx := b.blank x (hc ▸ List.mem_cons_self)
        rw [Text.flush_cons.1 hflush] at hx
        cases hx
  · exact Or.inr (hbreaks.boundary hflush more)

/-- A walk that stops before the end of the source has passed a text. Unless it is noisy, the text
holds nothing but blanks. -/
structure Walks (noisy : Prop) (c next : Cursor) : Prop where
  ahead_nil : c.ahead = [] → next.ahead = []
  passes : next.ahead ≠ [] → ∀ source, c.ahead = Text.lines source
    → ∃ text rest,
        source = text ++ rest
        ∧ next.ahead = Text.lines rest
        ∧ c.Strolls text next
        ∧ (noisy ∨ ∀ x ∈ text, Text.isBlank x = true)

variable {noisy : Prop} {c middle next : Cursor}

/-- Going nowhere is a walk. -/
theorem Walks.refl (c : Cursor) : Walks noisy c c where
  ahead_nil h := h
  passes _ source hs :=
    ⟨[], source, rfl, hs, ⟨.nil, rfl, Or.inl ⟨.none, rfl, List.not_mem_nil, rfl⟩⟩,
      Or.inr (by simp)⟩

/-- A walk can be followed by another. It is noisy if one of them is. -/
theorem Walks.trans (h : Walks noisy c middle) (hm : Walks noisy middle next)
    : Walks noisy c next where
  ahead_nil ha := hm.ahead_nil (h.ahead_nil ha)
  passes := by
    intro hn source hs
    obtain ⟨text, rest, rfl, ht, hstroll, hblank⟩ := h.passes (fun ha => hn (hm.ahead_nil ha)) _ hs
    obtain ⟨more, rest', rfl, hr, hstroll', hblank'⟩ := hm.passes hn _ ht
    refine ⟨text ++ more, rest', (List.append_assoc _ _ _).symm, hr, hstroll.trans hstroll', ?_⟩
    rcases hblank with hq | hblank
    · exact Or.inl hq
    · refine hblank'.imp_right fun hblank' x hx => ?_
      exact (List.mem_append.1 hx).elim (hblank x) (hblank' x)

/-- A walk may be called noisy. -/
theorem Walks.mono {loud : Prop} (h : Walks noisy c next) (hq : noisy → loud)
    : Walks loud c next where
  ahead_nil := h.ahead_nil
  passes := by
    intro hn source hs
    obtain ⟨text, rest, he, hr, hstroll, hblank⟩ := h.passes hn source hs
    exact ⟨text, rest, he, hr, hstroll, hblank.imp_left hq⟩

/-- Skipping blanks is a walk that is not noisy. -/
theorem walks_skipBlanks (c : Cursor) : Walks noisy c c.skipBlanks where
  ahead_nil ha := by rw [ahead_skipBlanks, ha]; rfl
  passes := by
    intro _ source hs
    obtain ⟨first, below, hl⟩ := List.exists_cons_of_ne_nil (Text.lines_ne_nil source)
    have hfirst : Text.lines source
        = ((Text.leading first).chars ++ Text.trimStart first) :: below := by
      rw [Text.leading_append_trimStart, hl]
    obtain ⟨rest, rfl, hr⟩ := Text.exists_of_lines_eq_append hfirst
    have hinline : '\n' ∉ (Text.leading first).chars := by
      have hmem := Text.not_mem_of_mem_lines (hl ▸ List.mem_cons_self)
      rw [← Text.leading_append_trimStart first] at hmem
      exact fun hm => hmem (List.mem_append_left _ hm)
    have ha : c.ahead = first :: below := hs.trans hl
    refine ⟨_, rest, rfl, ?_, ⟨silent_blanks hinline, ?_, Or.inl ⟨_, rfl, hinline, ?_⟩⟩,
      Or.inr (Text.leading first).blank⟩
    · rw [ahead_skipBlanks, ha, hr]
      rfl
    · rw [Location.past_of_not_mem hinline]
      simp only [skipBlanks, ha, location, Text.leading, Nat.add_right_comm]
    · exact lineStart_skipBlanks c

/-- A line that says nothing is passed with its line end. -/
theorem walks_advanceLine {first : List Char} {below : List (List Char)}
    (ha : c.ahead = first :: below) (hi : Text.isIdleLine first = true)
    (hb : noisy ∨ Text.isBlankLine first = true)
    : Walks noisy c c.advanceLine where
  ahead_nil hn := by rw [ha] at hn; cases hn
  passes := by
    intro hn source hs
    have htail : c.advanceLine.ahead = below := by rw [advanceLine, ha]; rfl
    have hl : Text.lines source = first :: below := hs.symm.trans ha
    have hinline : '\n' ∉ first := Text.not_mem_of_mem_lines (hl ▸ List.mem_cons_self)
    obtain ⟨rest, rfl, hr⟩ := Text.exists_of_lines_eq_cons hl (htail ▸ hn)
    refine ⟨first ++ ['\n'], rest, by simp, htail.trans hr.symm,
      ⟨silent_line hi hinline, ?_, Or.inr ⟨Text.breaks_line hi hinline, rfl⟩⟩, ?_⟩
    · rw [Location.past_append, Location.past_of_not_mem hinline]
      rfl
    · refine hb.imp_right fun hb x hx => ?_
      rcases List.mem_append.1 hx with hx | hx
      · exact List.all_eq_true.1 hb x hx
      · rw [List.mem_singleton.1 hx]
        decide

/-- Lines are passed one by one. -/
theorem passLines_of_pos {p : List Char → Bool} {first : List Char} {below : List (List Char)}
    (ha : c.ahead = first :: below) (hp : p first = true)
    : c.passLines p = c.advanceLine.passLines p := by
  simp only [passLines, advanceLine, ha, List.tail_cons, List.takeWhile_cons, hp, if_true,
    List.dropWhile_cons]
  cases ht : below.takeWhile p with
  | nil =>
      have hd := List.takeWhile_append_dropWhile (p := p) (l := below)
      rw [ht, List.nil_append] at hd
      simp [hd]
  | cons line more => simp [Nat.add_assoc, Nat.add_comm 1]

/-- Lines that say nothing are passed one after the other, by induction on them. -/
theorem walks_passLines {p : List Char → Bool}
    (hp : ∀ text, p text = true → Text.isIdleLine text = true)
    (hb : ∀ text ∈ c.ahead.takeWhile p, noisy ∨ Text.isBlankLine text = true)
    : Walks noisy c (c.passLines p) := by
  generalize ha : c.ahead = lines at hb
  induction lines generalizing c with
  | nil =>
      rw [passLines_nil ha]
      exact .refl c
  | cons first below ih =>
      cases hf : p first with
      | false =>
          rw [passLines_of_not ha hf]
          exact .refl c
      | true =>
          rw [List.takeWhile_cons_of_pos hf] at hb
          have hbelow : c.advanceLine.ahead = below := by rw [advanceLine, ha]; rfl
          rw [passLines_of_pos ha hf]
          exact (walks_advanceLine ha (hp first hf) (hb first List.mem_cons_self)).trans
            (ih hbelow fun text ht => hb text (List.mem_cons_of_mem _ ht))

/-- Past a separator a logical line starts. -/
theorem walks_separator (hq : noisy) (h : c.startsWith [':'] = true)
    : Walks noisy c c.advance.startLine := by
  obtain ⟨line, below, ha⟩ := ahead_of_startsWith h
  constructor
  · intro hn
    rw [ha] at hn
    cases hn
  · intro _ source hs
    obtain ⟨rest, rfl, hr⟩ := Text.exists_of_lines_eq_append (hs.symm.trans ha)
    refine ⟨[':'], rest, rfl, ?_, ⟨silent_separator, rfl, Or.inr ⟨Text.breaks_separator, rfl⟩⟩,
      Or.inl hq⟩
    rw [hr, startLine, advance, ha]
    rfl

/-- It makes no difference whether a logical line starts before blanks or behind them. -/
theorem skipBlanks_startLine (c : Cursor) : c.skipBlanks.startLine = c.startLine.skipBlanks := by
  rcases c with ⟨_ | ⟨text, below⟩, line, column, start⟩ <;> rfl

/-- Skipping comments is a walk, noisy if it passes a comment. -/
theorem walks_skipComments (h : c.passesComment = true → noisy)
    : Walks noisy c c.skipComments := by
  refine (walks_passLines (fun _ hi => hi) fun text ht => ?_).trans (walks_skipBlanks _)
  have hi : Text.isIdleLine text = true := List.all_eq_true.1 List.all_takeWhile text ht
  rw [Text.isIdleLine, Bool.or_eq_true] at hi
  rcases hi with hb | hc
  · exact Or.inr hb
  · exact Or.inl (h (List.any_eq_true.2 ⟨text, ht, hc⟩))

/-- A round that passes neither a separator nor a comment passes blanks only. -/
theorem walks_skipRound (c : Cursor) : Walks (c.passesSeparator = true) c c.skipRound := by
  have hline : Walks (c.passesSeparator = true) c (c.passLines List.isEmpty).skipBlanks := by
    refine (walks_passLines (fun _ => isIdleLine_of_isEmpty) fun text ht => ?_).trans
      (walks_skipBlanks _)
    have he : text.isEmpty = true := List.all_eq_true.1 List.all_takeWhile text ht
    rw [List.isEmpty_iff.1 he]
    exact Or.inr rfl
  unfold skipRound
  dsimp only
  split
  · next hs =>
    have hq : c.passesSeparator = true := by simp [passesSeparator, hs]
    rw [skipBlanks_startLine]
    exact (hline.trans (walks_separator hq hs)).trans
      ((walks_skipBlanks _).trans (walks_skipComments fun _ => hq))
  · next hs =>
    refine hline.trans (walks_skipComments fun hc => ?_)
    simp [passesSeparator, hs, hc]

/-- The walk to the next statement, by induction on its rounds. -/
theorem walks_toStatement (c : Cursor) : Walks (c.passesSeparator = true) c c.toStatement := by
  fun_induction toStatement c with
  | case1 c hq ih => exact (walks_skipRound c).trans (ih.mono fun _ => hq)
  | case2 c _ => exact walks_skipRound c

end Cursor

end LoopCalc
