import LoopCalc.Proofs.CommandLine.Headless
import LoopCalc.Proofs.Highlight.Cuts
import LoopCalc.Proofs.Screen.Plain
import LoopCalc.Proofs.Session.SingleLines

/-! What frames of the workbench show. Each pane shows a window of its subject, the transcript is
the left lower part of a frame, and a run leaves the transcript scrolled to its last lines. Drawing
a frame again changes nothing, since the scroll positions stay where drawing has put them.
-/

namespace LoopCalc

namespace Screen

-----------------------------------------------------------------------------------------
-- Subjects of panes
-----------------------------------------------------------------------------------------

/-- What a pane shows. -/
inductive Subject where
  | source (text : String) (errorLine? : Option Nat)
  | transcript (t : Transcript)
  | panel (p : Panel)

namespace Subject

/-- The pane of the subject, and its scroll position after drawing. -/
def draw [Renderer] : Subject → Bool → Nat → Nat → Nat → Picture × Nat
  | source text errorLine? => Pane.source text errorLine?
  | transcript t => Pane.transcript t
  | panel p => Pane.panel p

/-- The lines of the subject. -/
def texts : Subject → List (List Char)
  | source text _ =>
      (Text.lines text.toList).zipIdx.map fun (line, index) =>
        Pane.padStart 4 (Nat.toDigits 10 (index + 1)) ++ ' ' :: line
  | transcript t => t.lines.toList.map fun line => line.text.toList
  | panel p =>
      Variable.all.map fun v =>
        ' ' :: Pane.padStart 5 v.chars ++ [' ', '=', ' '] ++ (p.store.get v).chars

/-- The lines of the subject in their styles. -/
def contents : Subject → List (List Span)
  | source text errorLine? =>
      (Text.lines text.toList).zipIdx.map fun (line, index) =>
        Pane.sourceLine errorLine? (index + 1) line
  | transcript t => t.lines.toList.map fun line => [Pane.transcriptItem line]
  | panel p => Variable.all.map (Pane.variableLine p)

/-- The empty cells before each line. -/
def indent : Subject → Nat
  | transcript _ => 1
  | source .. | panel _ => 0

/-- The widget that shows some lines of the subject. -/
def widget (focused : Bool) (lines : List (List Span)) : Subject → Widget
  | source .. => .text (some ⟨" Source Code ", Pane.border focused, 0⟩) .plain .left lines
  | transcript _ => .list ⟨Pane.transcriptTitle, Pane.border focused, 1⟩ lines.flatten
  | panel p =>
      .text (some ⟨s!" Variables ({p.writes} writes) ", Pane.border focused, 0⟩) .plain .left lines

/-- No line of the subject goes over a line end. Only a line of a transcript could. -/
def IsLined : Subject → Prop
  | transcript t => ∀ line ∈ t.lines.toList, '\n' ∉ line.text.toList
  | source .. | panel _ => True

/-- A line of the source pane is its number, a blank and the line. -/
theorem text_sourceLine (errorLine? : Option Nat) (number : Nat) (text : List Char)
    : (Pane.sourceLine errorLine? number text).flatMap Span.text
      = Pane.padStart 4 (Nat.toDigits 10 number) ++ ' ' :: text := by
  rw [Pane.sourceLine, List.flatMap_cons, List.flatMap_map, Highlight.flatMap_text_line,
    List.append_assoc, List.singleton_append]

/-- The styles of a subject do not change its lines. -/
theorem map_text_contents (s : Subject)
    : (s.contents.map fun spans => spans.flatMap Span.text) = s.texts := by
  cases s with
  | source text errorLine? =>
      simp only [contents, texts, List.map_map, Function.comp_def, text_sourceLine]
  | transcript t => simp [contents, texts, Pane.transcriptItem]
  | panel p =>
      simp only [contents, texts, List.map_map, Function.comp_def, Workbench.text_variableLine]

/-- A pane has as many lines as texts. -/
theorem length_contents (s : Subject) : s.contents.length = s.texts.length := by
  rw [← map_text_contents, List.length_map]

/-- The items of a transcript are its lines, each a content of its own. -/
theorem flatten_window_transcript (lines : List Transcript.Line) (start count : Nat)
    : (((lines.map fun line => [Pane.transcriptItem line]).drop start).take count).flatten
      = ((lines.drop start).take count).map Pane.transcriptItem := by
  rw [← List.map_drop, ← List.map_take, ← List.flatMap_def, List.map_eq_flatMap]

variable [Renderer] {line : Style → Nat → List Span → Row}

/-- A pane hands a window of the lines to the renderer. -/
theorem draw_eq {s : Subject} (hs : s ≠ .transcript .empty) (focused : Bool) (width : Nat)
    {height : Nat} (scroll : Nat) (hheight : 3 ≤ height)
    : let start := Pane.position height scroll s.texts.length
      s.draw focused width height scroll
        = (Renderer.draw (s.widget focused ((s.contents.drop start).take (height - 2))) width
              height,
            start) := by
  rw [← length_contents]
  cases s with
  | source text errorLine? =>
      simp only [draw, Pane.source, Pane.window_eq hheight, contents, List.length_map,
        List.map_take, List.map_drop]
      rfl
  | panel p =>
      simp only [draw, Pane.panel, Pane.window_eq hheight, contents, List.length_map,
        List.map_take, List.map_drop]
      rfl
  | transcript t =>
      have hlines : ¬t.lines.isEmpty = true := by
        intro he
        rw [Array.isEmpty_iff] at he
        exact hs (by rw [Transcript.empty, ← he])
      rw [draw, Pane.transcript, if_neg hlines]
      simp only [Pane.window_eq hheight, contents, List.length_map, widget,
        flatten_window_transcript]

/-- Lines that are handed to the renderer are shown one a row. -/
theorem IsLined.lists (hdoc : Renderer.Documented line) {s : Subject} (h : s.IsLined)
    (focused : Bool) (start width height : Nat)
    : Pane.Lists line s.indent ((s.texts.drop start).take (height - 2)) width height
        (Renderer.draw (s.widget focused ((s.contents.drop start).take (height - 2))) width
          height) := by
  have hcount : ((s.contents.drop start).take (height - 2)).length ≤ height - 2 :=
    List.length_take_le _ _
  cases s with
  | source text errorLine? =>
      rw [← map_text_contents, ← List.map_drop, ← List.map_take]
      exact Pane.lists_of_inside_eq (hdoc.measures _ width height)
        (hdoc.inside_text _ _ width height hcount) fun spans _ => ⟨.plain, spans, rfl, rfl⟩
  | panel p =>
      rw [← map_text_contents, ← List.map_drop, ← List.map_take]
      exact Pane.lists_of_inside_eq (hdoc.measures _ width height)
        (hdoc.inside_text _ _ width height hcount) fun spans _ => ⟨.plain, spans, rfl, rfl⟩
  | transcript t =>
      have hitems : ∀ item ∈ ((t.lines.toList.drop start).take (height - 2)).map
          Pane.transcriptItem, '\n' ∉ item.text := by
        intro item hi
        obtain ⟨line, hl, rfl⟩ := List.mem_map.1 hi
        exact h line (List.mem_of_mem_drop (List.mem_of_mem_take hl))
      have hinside := hdoc.inside_list ⟨Pane.transcriptTitle, Pane.border focused, 1⟩ _ width height
        ((List.length_map _).trans_le (List.length_take_le _ _)) hitems
      rw [List.map_map, List.length_map] at hinside
      rw [texts, contents, widget, flatten_window_transcript, ← List.map_drop, ← List.map_take]
      refine Pane.lists_of_inside_eq (hdoc.measures _ width height) hinside fun message _ => ?_
      exact ⟨_, [Pane.transcriptItem message], List.append_nil _, rfl⟩

/-- A pane that is scrolled far enough shows the last lines. -/
theorem IsLined.lists_last (hdoc : Renderer.Documented line) {s : Subject} (h : s.IsLined)
    (hs : s ≠ .transcript .empty) (focused : Bool) (width : Nat) {height scroll : Nat}
    (hheight : 3 ≤ height) (hscroll : s.texts.length ≤ scroll)
    : Pane.Lists line s.indent (s.texts.drop (s.texts.length - min (height - 2) s.texts.length))
        width height (s.draw focused width height scroll).1 := by
  rw [draw_eq hs focused width scroll hheight, Pane.position_of_le hscroll]
  have hlists :=
    h.lists hdoc focused (s.texts.length - min (height - 2) s.texts.length) width height
  rwa [List.take_of_length_le (by rw [List.length_drop]; omega)] at hlists

/-- A pane stays as it was drawn. -/
theorem draw_draw (s : Subject) (focused : Bool) (width height scroll : Nat)
    : s.draw focused width height (s.draw focused width height scroll).2
      = s.draw focused width height scroll := by
  cases s with
  | source text errorLine? => simp only [draw, Pane.source, Pane.window_window]
  | panel p => simp only [draw, Pane.panel, Pane.window_window]
  | transcript t =>
      simp only [draw, Pane.transcript]
      split
      · rfl
      · simp only [Pane.window_window]

/-- Every pane is a rectangle of the size that it is given. -/
theorem measures_draw (hdoc : Renderer.Documented line) (s : Subject) (focused : Bool)
    (width height scroll : Nat)
    : (s.draw focused width height scroll).1.Measures width height := by
  cases s with
  | source text errorLine? => exact hdoc.measures _ width height
  | panel p => exact hdoc.measures _ width height
  | transcript t =>
      rw [draw, Pane.transcript]
      split
      · exact hdoc.measures _ width height
      · exact hdoc.measures _ width height

end Subject

-----------------------------------------------------------------------------------------
-- The transcript in a frame
-----------------------------------------------------------------------------------------

namespace Picture

/-- Pictures of one width, one below the other. -/
theorem Measures.append {above below : Picture} {width upper lower : Nat}
    (ha : above.Measures width upper) (hb : below.Measures width lower)
    : (above ++ below).Measures width (upper + lower) where
  length_eq := by rw [List.length_append, ha.length_eq, hb.length_eq]
  width_eq := List.forall_mem_append.2 ⟨ha.width_eq, hb.width_eq⟩

/-- The left one of two pictures side by side, by induction on its rows. -/
theorem map_take_beside {left right : Picture} {width : Nat} (hlength : left.length = right.length)
    (hwidth : ∀ row ∈ left, row.length = width)
    : (beside left right).map (fun row => (row.drop 0).take width) = left := by
  induction left generalizing right with
  | nil => rfl
  | cons row left ih =>
      cases right with
      | nil => cases hlength
      | cons other right =>
          obtain ⟨hrow, hleft⟩ := List.forall_mem_cons.1 hwidth
          have hrest := ih (Nat.succ.inj hlength) hleft
          rw [beside] at hrest ⊢
          rw [List.zipWith_cons_cons, List.map_cons, hrest, List.drop_zero, List.take_left' hrow]

/-- A part of a frame that lies in its left panes. -/
theorem crop_beside {left right : Picture} {width total : Nat} (hleft : left.Measures width total)
    (hright : right.length = total) (below : Picture) {top height : Nat}
    (h : top + height ≤ total)
    : (beside left right ++ below).crop top 0 width height = (left.drop top).take height := by
  have hlength : (beside left right).length = total := by
    rw [beside, List.length_zipWith, hleft.length_eq, hright, Nat.min_self]
  have hpanes : ((beside left right ++ below).drop top).take height
      = beside ((left.drop top).take height) ((right.drop top).take height) := by
    rw [List.drop_append_of_le_length (by omega),
      List.take_append_of_le_length (by rw [List.length_drop]; omega), beside, List.drop_zipWith,
      List.take_zipWith]
    rfl
  rw [crop, hpanes]
  refine map_take_beside ?_ fun row hr => ?_
  · simp only [List.length_take, List.length_drop, hleft.length_eq, hright]
  · exact hleft.width_eq row (List.mem_of_mem_drop (List.mem_of_mem_take hr))

end Picture

end Screen

open Screen

namespace Workbench

/-- What a run leaves in the transcript are single lines. -/
theorem isLined_runProgram (w : Workbench) (pace : Pace)
    : (Subject.transcript (w.runProgram pace).host.transcript).IsLined := by
  intro line hl
  rw [lines_runProgram] at hl
  obtain ⟨event, he, hline⟩ := List.mem_filterMap.1 hl
  exact Session.isLine_of_run _ pace _ _ _ event he line hline

/-- After a run the transcript is scrolled as far as can be. -/
theorem scrolls_runProgram (w : Workbench) (pace : Pace)
    : (w.runProgram pace).scrolls.transcript = Scrolls.limit := by
  rw [runProgram]

section

variable [Renderer] {line : Style → Nat → List Span → Row}

/-- The columns of the left panes in a frame. -/
def leftWidth (width : Nat) : Nat :=
  Renderer.divide (.percent 60) width

/-- The rows of all panes in a frame. -/
def paneHeight (height : Nat) : Nat :=
  Renderer.divide .allButOne height

/-- The rows of the source pane in a frame. -/
def sourceHeight (height : Nat) : Nat :=
  Renderer.divide (.percent 65) (paneHeight height)

/-- The rows of the transcript pane in a frame. -/
def transcriptHeight (height : Nat) : Nat :=
  paneHeight height - sourceHeight height

/-- The part of a frame that the transcript pane takes. -/
def transcriptArea (width height : Nat) (frame : Picture) : Picture :=
  frame.crop (sourceHeight height) 0 (leftWidth width) (transcriptHeight height)

/-- The area of the transcript in a frame is what the transcript pane draws, since the panes above
and beside it have the sizes that they are given. -/
theorem transcriptArea_draw (hdoc : Renderer.Documented line) (w : Workbench) (width height : Nat)
    : transcriptArea width height (w.draw width height).1
      = ((Subject.transcript w.host.transcript).draw (w.focus = .transcript) (leftWidth width)
          (transcriptHeight height) w.scrolls.transcript).1 := by
  have hsource := (Subject.source w.source w.errorLine).measures_draw hdoc (w.focus = .source)
    (leftWidth width) (sourceHeight height) w.scrolls.source
  have htranscript := (Subject.transcript w.host.transcript).measures_draw hdoc
    (w.focus = .transcript) (leftWidth width) (transcriptHeight height) w.scrolls.transcript
  have hpanel := (Subject.panel w.host.panel).measures_draw hdoc (w.focus = .panel)
    (width - leftWidth width) (paneHeight height) w.scrolls.panel
  have hheight : sourceHeight height + transcriptHeight height = paneHeight height :=
    Nat.add_sub_cancel' (hdoc.percent_le 65 _ (by decide))
  rw [transcriptArea, draw]
  dsimp only
  refine (Picture.crop_beside (hsource.append htranscript)
    (hpanel.length_eq.trans hheight.symm) _ (Nat.le_refl _)).trans ?_
  rw [List.drop_left' hsource.length_eq, List.take_of_length_le htranscript.length_eq.le]

/-- A frame that is drawn again is the same, and so is the workbench. -/
theorem draw_draw (w : Workbench) (width height : Nat)
    : (w.draw width height).2.draw width height = w.draw width height := by
  have hsource := (Subject.source w.source w.errorLine).draw_draw (w.focus = .source)
    (leftWidth width) (sourceHeight height) w.scrolls.source
  have htranscript := (Subject.transcript w.host.transcript).draw_draw (w.focus = .transcript)
    (leftWidth width) (transcriptHeight height) w.scrolls.transcript
  have hpanel := (Subject.panel w.host.panel).draw_draw (w.focus = .panel)
    (width - leftWidth width) (paneHeight height) w.scrolls.panel
  dsimp only [Subject.draw, leftWidth, paneHeight, sourceHeight, transcriptHeight]
    at hsource htranscript hpanel
  dsimp only [draw]
  rw [hsource, htranscript, hpanel]
  rfl

-----------------------------------------------------------------------------------------
-- Frames after a run
-----------------------------------------------------------------------------------------

/-- A frame shows the end of a transcript of single lines that is scrolled as far as can be. -/
theorem lists_transcriptArea (hdoc : Renderer.Documented line) {w : Workbench}
    (hlined : (Subject.transcript w.host.transcript).IsLined)
    (hscroll : w.scrolls.transcript = Scrolls.limit) (width : Nat) {height : Nat}
    (hheight : 3 ≤ transcriptHeight height)
    (hne : (Subject.transcript w.host.transcript).texts ≠ [])
    (hlimit : (Subject.transcript w.host.transcript).texts.length ≤ Scrolls.limit)
    : let texts := (Subject.transcript w.host.transcript).texts
      Pane.Lists line 1 (texts.drop (texts.length - min (transcriptHeight height - 2) texts.length))
        (leftWidth width) (transcriptHeight height)
        (transcriptArea width height (w.draw width height).1) := by
  have hs : Subject.transcript w.host.transcript ≠ .transcript .empty := by
    intro he
    rw [he] at hne
    exact hne rfl
  rw [← hscroll] at hlimit
  rw [transcriptArea_draw hdoc]
  exact hlined.lists_last hdoc hs _ (leftWidth width) hheight hlimit

end

/-- A workbench with a start value that is refused. -/
def unseeded : Workbench :=
  .ofSource "Disp A" .standard "inf"

/-- A line of three rows, and one below it. -/
def tallTranscript : Transcript :=
  ⟨#[⟨.output, "a\nb\nc"⟩, ⟨.output, "z"⟩]⟩

end Workbench

end LoopCalc
