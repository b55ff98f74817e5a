import LoopCalc.Screen.Plain
import LoopCalc.Proofs.Screen.Windows

/-! The plain renderer does what is documented of renderers: it fills the rectangle of a widget, its
frames stand around the rows that they are given, and a text without line ends is one row of a list.
-/

namespace LoopCalc

/-- A text without line ends is one line, by induction on the text. -/
theorem Text.closedLines_of_not_mem {text : List Char} (h : '\n' ∉ text) (hne : text ≠ [])
    : closedLines text = [text] := by
  fun_induction closedLines text with
  | case1 => contradiction
  | case2 rest ih => simp at h
  | case3 rest ih => simp at h
  | case4 c rest _ _ hrest ih =>
      cases rest with
      | nil => rfl
      | cons d rest =>
          rw [ih (fun hm => h (List.mem_cons_of_mem c hm)) (by simp)] at hrest
          cases hrest
  | case5 c rest _ _ first below hrest ih =>
      cases rest with
      | nil => cases hrest
      | cons d rest =>
          rw [ih (fun hm => h (List.mem_cons_of_mem c hm)) (by simp)] at hrest
          cases hrest
          rfl

/-- The empty text counts as one line, too. -/
theorem Text.messageLines_of_not_mem {text : List Char} (h : '\n' ∉ text)
    : messageLines text = [text] := by
  rw [messageLines]
  split
  · next he => rw [List.isEmpty_iff.1 he]
  · next he => exact closedLines_of_not_mem h (mt List.isEmpty_iff.2 he)

namespace Screen

/-- Nothing is shown but what was given, by induction on the blocks. -/
theorem exists_mem_of_mem_fit {α : Type} {length : Nat} {blocks : List (List α)} {a : α}
    (h : a ∈ fit length blocks)
    : ∃ block ∈ blocks, a ∈ block := by
  induction blocks generalizing length with
  | nil => cases h
  | cons block more ih =>
      unfold fit at h
      split at h
      · rcases List.mem_append.1 h with h | h
        · exact ⟨block, List.mem_cons_self, h⟩
        · obtain ⟨other, ho, ha⟩ := ih h
          exact ⟨other, List.mem_cons_of_mem block ho, ha⟩
      · cases h

/-- Rows that fit, one by one, by induction on them. -/
theorem fit_singletons {α : Type} {length : Nat} {rows : List α} (h : rows.length ≤ length)
    : fit length (rows.map fun row => [row]) = rows := by
  induction rows generalizing length with
  | nil => rfl
  | cons row rows ih =>
      rw [List.length_cons] at h
      rw [List.map_cons, fit, if_pos (by rw [List.length_singleton]; omega),
        ih (by rw [List.length_singleton]; omega), List.singleton_append]

-----------------------------------------------------------------------------------------
-- Frames
-----------------------------------------------------------------------------------------

namespace Picture

/-- An edge is as long as the frame is wide. -/
theorem length_edge (style : Style) (left right : Char) (title : List Char) (width : Nat)
    : (edge style left right title width).length = width := by
  simp only [edge, List.length_take, List.length_map, List.length_append, List.length_cons,
    List.length_replicate, List.length_nil]
  omega

/-- A row between the sides of a frame is as long as the frame is wide. -/
theorem length_between (style : Style) {width : Nat} {row : Row} (h : row.length = width - 2)
    : (between style width row).length = width := by
  simp only [between, List.length_take, List.length_append, List.length_cons, List.length_nil]
  omega

/-- Rows that are filled up are still of one width. -/
theorem width_fill {width : Nat} {blank : Row} {rows : Picture} (hblank : blank.length = width)
    (hrows : ∀ row ∈ rows, row.length = width) (count : Nat)
    : ∀ row ∈ fill blank count rows, row.length = width := by
  refine List.forall_mem_append.2 ⟨fun row hr => hrows row (List.mem_of_mem_take hr), ?_⟩
  intro row hr
  rwa [List.eq_of_mem_replicate hr]

/-- What stands between two ends, in a frame's height as in its width. -/
theorem between_ends {α : Type} (first last : α) {length : Nat} {middle : List α}
    (h : middle.length = length - 2)
    : (((first :: middle ++ [last]).take length).drop 1).take (length - 2) = middle := by
  rcases Nat.lt_or_ge length 2 with hl | hl
  · rw [Nat.sub_eq_zero_of_le (Nat.le_of_lt hl)] at h ⊢
    rw [List.take_zero, List.length_eq_zero_iff.1 h]
  · have hlength : (first :: middle ++ [last]).length ≤ length := by
      rw [List.length_append, List.length_cons, List.length_singleton]
      omega
    rw [List.take_of_length_le hlength, List.cons_append, List.drop_succ_cons, List.drop_zero,
      List.take_left' h]

section

variable (style : Style) (title : String) {width : Nat} (height : Nat) {blank : Row}
  {rows : Picture} (hblank : blank.length = width - 2)
  (hrows : ∀ row ∈ rows, row.length = width - 2)

include hblank hrows

/-- A frame has the size that it is given, whatever is inside of it. -/
theorem measures_framed
    : (framed style title width height blank rows).Measures width height where
  length_eq := by
    simp only [framed, List.length_take, List.length_append, List.length_cons, List.length_map,
      length_fill, List.length_nil]
    omega
  width_eq := by
    intro row hr
    rcases List.mem_append.1 (List.mem_of_mem_take hr) with hr | hr
    · rcases List.mem_cons.1 hr with rfl | hr
      · exact length_edge style _ _ _ width
      · obtain ⟨middle, hm, rfl⟩ := List.mem_map.1 hr
        exact length_between style (width_fill hblank hrows _ middle hm)
    · rw [List.mem_singleton.1 hr]
      exact length_edge style _ _ _ width

/-- A frame stands around the rows that it was given, with empty ones below them. -/
theorem inside_framed (hcount : rows.length ≤ height - 2)
    : (framed style title width height blank rows).inside width height
      = rows ++ List.replicate (height - 2 - rows.length) blank := by
  have hinside : (framed style title width height blank rows).inside width height
      = fill blank (height - 2) rows := by
    rw [inside, crop, framed, between_ends _ _ (by rw [List.length_map, length_fill]), List.map_map]
    refine (List.map_congr_left fun row hr => ?_).trans (List.map_id _)
    exact between_ends _ _ (width_fill hblank hrows _ row hr)
  rw [hinside, fill, List.take_of_length_le hcount]

end

end Picture

-----------------------------------------------------------------------------------------
-- Widgets
-----------------------------------------------------------------------------------------

namespace Plain

/-- A line in a frame is shorter by its two sides. -/
theorem length_lineIn (box : Box) (fill : Style) (side : Side) (width : Nat) (spans : List Span)
    : (lineIn box fill side width spans).length = width - 2 := by
  rw [lineIn, Row.indented, List.length_take, List.length_append, List.length_replicate,
    Row.length_ofSpans]
  omega

/-- An item without a line feed takes one row. -/
theorem itemIn_of_not_mem (box : Box) (width : Nat) {item : Span} (h : '\n' ∉ item.text)
    : itemIn box width item = [lineIn box item.style .left width [item]] := by
  rw [itemIn, Text.messageLines_of_not_mem h, List.map_singleton]

/-- Items of one row each that are not more than the rows of a list. -/
theorem fit_items (box : Box) (width : Nat) {height : Nat} {items : List Span}
    (hcount : items.length ≤ height) (h : ∀ item ∈ items, '\n' ∉ item.text)
    : fit height (items.map (itemIn box width))
      = items.map fun item => lineIn box item.style .left width [item] := by
  have hlength : (items.map fun item => lineIn box item.style .left width [item]).length
      ≤ height := by
    rwa [List.length_map]
  have hrows := fit_singletons hlength
  rw [List.map_map] at hrows
  rw [List.map_congr_left fun item hi => itemIn_of_not_mem box width (h item hi)]
  exact hrows

/-- A widget fills its rectangle. -/
theorem measures_draw (widget : Widget) (width height : Nat)
    : (draw width height widget).Measures width height := by
  have hspace (fill : Style) (width : Nat) : (Row.space fill width).length = width :=
    List.length_replicate
  rcases widget with ⟨_ | box, fill, side, lines⟩ | ⟨box, items⟩
  · refine ⟨Picture.length_fill .., Picture.width_fill (hspace fill width) ?_ height⟩
    intro row hr
    obtain ⟨spans, -, rfl⟩ := List.mem_map.1 hr
    exact Row.length_ofSpans ..
  · refine Picture.measures_framed _ _ _ (hspace fill _) fun row hr => ?_
    obtain ⟨spans, -, rfl⟩ := List.mem_map.1 hr
    exact length_lineIn ..
  · refine Picture.measures_framed _ _ _ (hspace .plain _) fun row hr => ?_
    obtain ⟨rows, hrows, hrow⟩ := exists_mem_of_mem_fit hr
    obtain ⟨item, -, rfl⟩ := List.mem_map.1 hrows
    obtain ⟨text, -, rfl⟩ := List.mem_map.1 hrow
    exact length_lineIn ..

/-- The plain renderer draws a line of text character by character. -/
theorem documented : plain.Documented fun fill => Row.ofSpans fill .left where
  measures := measures_draw
  inside_text := by
    intro box lines width height hcount
    refine (Picture.inside_framed _ _ _ List.length_replicate (fun row hr => ?_)
      (by rwa [List.length_map])).trans ?_
    · obtain ⟨spans, -, rfl⟩ := List.mem_map.1 hr
      exact length_lineIn ..
    · rw [List.length_map]
      rfl
  inside_list := by
    intro box items width height hcount hitems
    have hfit := fit_items box width hcount hitems
    have hrows : ∀ row ∈ items.map fun item => lineIn box item.style .left width [item],
        row.length = width - 2 := by
      intro row hr
      obtain ⟨item, -, rfl⟩ := List.mem_map.1 hr
      exact length_lineIn ..
    have hinside := Picture.inside_framed box.border box.title height
      (List.length_replicate : (Row.space .plain (width - 2)).length = _) hrows
      (by rwa [List.length_map])
    rw [← hfit] at hinside
    refine hinside.trans ?_
    rw [hfit, List.length_map]
    rfl
  percent_le := by
    intro share cells hshare
    have hmul : share * cells ≤ 100 * cells := Nat.mul_le_mul_right cells hshare
    change (2 * share * cells + 100) / 200 ≤ cells
    rw [Nat.mul_assoc]
    omega

end Plain

end Screen

end LoopCalc
