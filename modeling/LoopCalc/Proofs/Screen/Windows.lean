import LoopCalc.Screen.Pane
import Mathlib.Data.List.Forall2

/-! Windows of panes. A pane hands as many lines of its subject to the renderer as its frame has
rows, from its scroll position on, and drawing pulls the position back so that the window is full if
it can be. What the renderer makes of these lines is known from its documentation only: a framed
line of text takes one row, the lines stand one below the other, and the rows below them are empty.
-/

namespace LoopCalc.Screen

-----------------------------------------------------------------------------------------
-- Frames
-----------------------------------------------------------------------------------------

namespace Picture

/-- A rectangle of a picture. -/
def crop (top left width height : Nat) (picture : Picture) : Picture :=
  ((picture.drop top).take height).map fun row => (row.drop left).take width

/-- What a frame of the given size stands around. -/
def inside (width height : Nat) (picture : Picture) : Picture :=
  picture.crop 1 1 (width - 2) (height - 2)

/-- The picture is a rectangle of the given size. -/
structure Measures (width height : Nat) (picture : Picture) : Prop where
  length_eq : picture.length = height
  width_eq : ∀ row ∈ picture, row.length = width

/-- The inside of a frame is narrower by its two sides. -/
theorem Measures.length_of_mem_inside {width height : Nat} {picture : Picture}
    (h : picture.Measures width height)
    : ∀ row ∈ picture.inside width height, row.length = width - 2 := by
  intro row hr
  obtain ⟨whole, hw, rfl⟩ := List.mem_map.1 hr
  have hwidth := h.width_eq whole (List.mem_of_mem_drop (List.mem_of_mem_take hw))
  rw [List.length_take, List.length_drop]
  omega

end Picture

-----------------------------------------------------------------------------------------
-- What is known of a renderer
-----------------------------------------------------------------------------------------

/-- What the calculator relies on, given how the renderer draws a line of text over a fill in a row
of some width. -/
structure Renderer.Documented [Renderer] (line : Style → Nat → List Span → Row) : Prop where
  /-- A widget fills the rectangle that it is drawn in, and nothing else. -/
  measures : ∀ widget width height, (draw widget width height).Measures width height
  /-- Framed text is not wrapped. Each of its lines takes a row, and the rows below them are empty.
  -/
  inside_text : ∀ (box : Box) (lines : List (List Span)) (width height : Nat),
    lines.length ≤ height - 2
    → (draw (.text (some box) .plain .left lines) width height).inside width height
      = lines.map
          (fun spans =>
            Row.indented box.indent (width - 2) (line .plain (width - 2 - box.indent) spans))
        ++ List.replicate (height - 2 - lines.length) (Row.space .plain (width - 2))
  /-- An item of a list whose text is one line takes a row, and its style goes to the end of it. The
  rows below the items are empty. -/
  inside_list : ∀ (box : Box) (items : List Span) (width height : Nat),
    items.length ≤ height - 2 → (∀ item ∈ items, '\n' ∉ item.text)
    → (draw (.list box items) width height).inside width height
      = items.map
          (fun item =>
            Row.indented box.indent (width - 2)
              (line item.style (width - 2 - box.indent) [item]))
        ++ List.replicate (height - 2 - items.length) (Row.space .plain (width - 2))
  /-- A part is not longer than the whole. -/
  percent_le : ∀ share cells, share ≤ 100 → divide (.percent share) cells ≤ cells

/-- The row shows the text: it is drawn as a line, in some styles, behind some empty cells. -/
def Row.Shows (line : Style → Nat → List Span → Row) (indent width : Nat) (text : List Char)
    (row : Row)
    : Prop :=
  ∃ fill spans,
    spans.flatMap Span.text = text
    ∧ row = Row.indented indent width (line fill (width - indent) spans)

namespace Pane

-----------------------------------------------------------------------------------------
-- Windows
-----------------------------------------------------------------------------------------

/-- The inside of a pane shows the given texts, one a row and cut to its width, and is empty below
them. -/
def Lists (line : Style → Nat → List Span → Row) (indent : Nat) (texts : List (List Char))
    (width height : Nat) (picture : Picture)
    : Prop :=
  ∃ shown,
    picture.inside width height
      = shown ++ List.replicate (height - 2 - shown.length) (Row.space .plain (width - 2))
    ∧ List.Forall₂ (Row.Shows line indent (width - 2)) texts shown
    ∧ ∀ row ∈ shown, row.length = width - 2

/-- Where drawing puts the window of a pane with so many lines. -/
def position (height scroll total : Nat) : Nat :=
  if height - 2 < total then min scroll (total - (height - 2)) else 0

/-- Drawing puts the window at its position, and takes as many lines as the frame has rows. -/
theorem window_eq {α : Type} {height : Nat} (h : 3 ≤ height) (scroll : Nat) (lines : List α)
    : window height scroll lines
      = ((lines.drop (position height scroll lines.length)).take (height - 2),
          position height scroll lines.length) := by
  have hvisible : visibleLines height = height - 2 := by
    rw [visibleLines]
    omega
  rw [window, hvisible]
  rfl

/-- A window stays where drawing has put it. -/
theorem window_window {α : Type} (height scroll : Nat) (lines : List α)
    : window height (window height scroll lines).2 lines = window height scroll lines := by
  have hclamp : ∀ total visible scroll,
      clampScroll total visible (clampScroll total visible scroll)
        = clampScroll total visible scroll := by
    intro total visible scroll
    simp only [clampScroll]
    split <;> omega
  simp only [window, hclamp]

variable {line : Style → Nat → List Span → Row} {indent width height : Nat} {picture : Picture}
  {texts : List (List Char)}

/-- A frame with one row for each line of text shows these lines. -/
theorem lists_of_inside_eq {α : Type} {lines : List α} {row : α → Row} {text : α → List Char}
    (hm : picture.Measures width height)
    (hi : picture.inside width height
      = lines.map row
        ++ List.replicate (height - 2 - lines.length) (Row.space .plain (width - 2)))
    (hrow : ∀ a ∈ lines, (row a).Shows line indent (width - 2) (text a))
    : Lists line indent (lines.map text) width height picture := by
  refine ⟨lines.map row, by rw [hi, List.length_map], ?_, fun shown hs => ?_⟩
  · rw [List.forall₂_map_left_iff, List.forall₂_map_right_iff, List.forall₂_same]
    exact hrow
  · refine hm.length_of_mem_inside shown ?_
    rw [hi]
    exact List.mem_append_left _ hs

/-- A text that is in the window stands in its row. -/
theorem Lists.exists_row {start i : Nat} {text : List Char}
    (h : Lists line indent ((texts.drop start).take (height - 2)) width height picture)
    (hi : texts[i]? = some text) (hfrom : start ≤ i) (hto : i < start + (height - 2))
    : ∃ row,
        (picture.inside width height)[i - start]? = some row
        ∧ row.Shows line indent (width - 2) text := by
  obtain ⟨shown, hinside, hshows, -⟩ := h
  obtain ⟨hlt, rfl⟩ := List.getElem?_eq_some_iff.1 hi
  have htext : i - start < ((texts.drop start).take (height - 2)).length := by
    rw [List.length_take, List.length_drop]
    omega
  have hrow : i - start < shown.length := by rwa [← hshows.length_eq]
  refine ⟨shown.get ⟨i - start, hrow⟩, ?_, ?_⟩
  · rw [hinside, List.getElem?_append_left hrow]
    exact List.getElem?_eq_getElem hrow
  · simpa [Nat.add_sub_cancel' hfrom] using hshows.get htext hrow

/-- A window that is moved to a line has it inside. -/
theorem position_le {i total : Nat} (hheight : 3 ≤ height) (hi : i < total)
    : position height i total ≤ i ∧ i < position height i total + (height - 2) := by
  rw [position]
  split <;> omega

/-- A window that is moved far enough has the last lines inside. -/
theorem position_of_le {scroll total : Nat} (h : total ≤ scroll)
    : position height scroll total = total - min (height - 2) total := by
  rw [position]
  split <;> omega

end Pane

end LoopCalc.Screen
