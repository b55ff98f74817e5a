import LoopCalc.Proofs.Session.Errors
import LoopCalc.Screen.Plain
import LoopCalc.Workbench

/-! What a workbench shows of a failure. Its flag, the marked line, the transcript and the panel
change in runs only, and a run sets all of them from one report. Whatever keys are pressed and
frames drawn, they stay in step.
-/

namespace LoopCalc.Workbench

-----------------------------------------------------------------------------------------
-- What can happen to a workbench
-----------------------------------------------------------------------------------------

/-- What can be done with a workbench. The pace of a run is the world's choice, so a key comes with
one. -/
inductive Act where
  | press (pace : Pace) (key : Key)
  | run (pace : Pace)
  | draw (width height : Nat)

/-- The workbench after an act. -/
def act [Screen.Renderer] (w : Workbench) : Act → Workbench
  | .press pace key => w.press pace key
  | .run pace => w.runProgram pace
  | .draw width height => (w.draw width height).2

/-- A run that the act starts can read the whole source. -/
def Act.LetsRead (limit : Timeout) (source : String) : Act → Prop
  | .press pace _ | .run pace => pace.LetsRead limit source
  | .draw .. => True

/-- The act starts a run. -/
def starts (w : Workbench) : Act → Bool
  | .press _ key => w.buffer.isNone && (key = .char 'r' || key = .char 'R')
  | .run _ => true
  | .draw .. => false

/-- The start value, as typed, that the last run of the acts took. -/
def lastInitial? [Screen.Renderer] (w : Workbench) : List Act → Option String
  | [] => none
  | a :: later =>
      ((w.act a).lastInitial? later).or (if w.starts a then some w.initial else none)

/-- All that a run decides on is left as it was. -/
structure Keeps (w next : Workbench) : Prop where
  host_eq : next.host = w.host
  source_eq : next.source = w.source
  parseTimeout_eq : next.options.parseTimeout = w.options.parseTimeout
  errorLine_eq : next.errorLine = w.errorLine
  failed_eq : next.failed = w.failed

/-- Drawing decides nothing about runs. -/
theorem keeps_draw [Screen.Renderer] (w : Workbench) (width height : Nat)
    : w.Keeps (w.draw width height).2 := by
  rw [draw]
  exact ⟨rfl, rfl, rfl, rfl, rfl⟩

/-- Confirming an edit changes neither source, options nor what the last run left. -/
theorem keeps_confirmEdit (w : Workbench) (text : String) : w.Keeps (w.confirmEdit text) := by
  rw [confirmEdit]
  exact ⟨rfl, rfl, rfl, rfl, rfl⟩

/-- No key of an edit touches what the last run left. -/
theorem keeps_editKey (w : Workbench) (text : String) (key : Key)
    : w.Keeps (w.editKey text key) := by
  unfold editKey
  split
  · exact w.keeps_confirmEdit text
  · exact ⟨rfl, rfl, rfl, rfl, rfl⟩
  · exact ⟨rfl, rfl, rfl, rfl, rfl⟩

/-- Nor does a key outside of edits, unless it starts a run. -/
theorem keeps_commandKey (w : Workbench) (pace : Pace) {key : Key} (hr : key ≠ .char 'r')
    (hR : key ≠ .char 'R')
    : w.Keeps (w.commandKey pace key) := by
  unfold commandKey
  split
  case h_3 => exact absurd rfl hr
  case h_4 => exact absurd rfl hR
  all_goals exact ⟨rfl, rfl, rfl, rfl, rfl⟩

/-- An act starts a run, or it keeps all that runs decide on. -/
theorem act_cases [Screen.Renderer] (w : Workbench) (a : Act)
    : (w.starts a = true
        ∧ ∃ pace,
            w.act a = w.runProgram pace
            ∧ ∀ limit source, a.LetsRead limit source → pace.LetsRead limit source)
      ∨ (w.starts a = false ∧ w.Keeps (w.act a)) := by
  cases a with
  | run pace => exact Or.inl ⟨rfl, pace, rfl, fun _ _ h => h⟩
  | draw width height => exact Or.inr ⟨rfl, w.keeps_draw width height⟩
  | press pace key =>
      rw [act, press, starts]
      cases w.buffer with
      | some text => exact Or.inr ⟨rfl, w.keeps_editKey text key⟩
      | none =>
          by_cases hr : key = .char 'r'
          · subst hr
            exact Or.inl ⟨rfl, pace, by rw [commandKey], fun _ _ h => h⟩
          by_cases hR : key = .char 'R'
          · subst hR
            exact Or.inl ⟨rfl, pace, by rw [commandKey], fun _ _ h => h⟩
          exact Or.inr ⟨by simp [hr, hR], w.keeps_commandKey pace hr hR⟩

-----------------------------------------------------------------------------------------
-- Runs account for what the workbench shows
-----------------------------------------------------------------------------------------

/-- What the workbench shows is what one run has left: the lines it told, with that of its error at
the end, and the place of the error. The start value of this run, as typed, is given. -/
structure Accounted (used? : Option String) (w : Workbench) : Prop where
  lines_eq : ∃ (lines : List Transcript.Line) (error? : Option String),
    w.host.transcript.lines.toList = lines ++ (error?.map (Transcript.Line.mk .error)).toList
    ∧ (∀ line ∈ lines, line.kind ≠ .error)
    ∧ w.failed = error?.isSome
  errorLine_eq_none : w.failed = false → w.errorLine = none
  errorLine_pos : ∀ l, w.errorLine = some l → 1 ≤ l
  not_finite : w.failed = true → w.errorLine = none
    → ∃ text, used? = some text ∧ (Entry.read text).isFinite = false
  mirrored : w.host.Mirrored

/-- A workbench before its first run shows nothing of one. -/
theorem accounted_ofSource (source : String) (options : Options) (initial : String)
    : (ofSource source options initial).Accounted none where
  lines_eq := ⟨[], none, rfl, by simp, rfl⟩
  errorLine_eq_none _ := rfl
  errorLine_pos _ h := by cases h
  not_finite h := by cases h
  mirrored := Host.mirrored_fresh

/-- What a run left is still accounted for where nothing of it was touched. -/
theorem Accounted.keeps {used? : Option String} {w next : Workbench} (h : w.Accounted used?)
    (hk : w.Keeps next)
    : next.Accounted used? where
  lines_eq := by
    rw [hk.host_eq, hk.failed_eq]
    exact h.lines_eq
  errorLine_eq_none := by
    rw [hk.failed_eq, hk.errorLine_eq]
    exact h.errorLine_eq_none
  errorLine_pos := by
    rw [hk.errorLine_eq]
    exact h.errorLine_pos
  not_finite := by
    rw [hk.failed_eq, hk.errorLine_eq]
    exact h.not_finite
  mirrored := by
    rw [hk.host_eq]
    exact h.mirrored

/-- The report of a run of the workbench. -/
def report (w : Workbench) (pace : Pace) : Session.Report :=
  w.host.clear.beginRun.session.run pace w.source (Entry.read w.initial) w.options

/-- After a run the host is what its report makes of a cleared one. -/
theorem host_runProgram (w : Workbench) (pace : Pace)
    : (w.runProgram pace).host = w.host.clear.beginRun.settle (w.report pace) := by
  rw [runProgram, Host.run, report]

/-- A run leaves the source alone. -/
theorem source_runProgram (w : Workbench) (pace : Pace)
    : (w.runProgram pace).source = w.source := by
  rw [runProgram]

/-- A run leaves the options alone. -/
theorem options_runProgram (w : Workbench) (pace : Pace)
    : (w.runProgram pace).options = w.options := by
  rw [runProgram]

/-- The workbench has failed exactly if its report has an error. -/
theorem failed_runProgram (w : Workbench) (pace : Pace)
    : (w.runProgram pace).failed = (w.report pace).ending.error?.isSome := by
  rw [runProgram, Host.run, report]

/-- The line that an error points at is that of its place. -/
theorem errorLineOf_settle (host : Host) (report : Session.Report)
    : errorLineOf report.ending (host.settle report) = report.place?.map Location.line := by
  unfold errorLineOf Session.Report.place?
  rw [Host.session_settle]
  cases report.ending <;> rfl

/-- After a run the marked line is that of the error's place, if there is one. -/
theorem errorLine_runProgram (w : Workbench) (pace : Pace)
    : (w.runProgram pace).errorLine = (w.report pace).place?.map Location.line := by
  rw [runProgram, Host.run, ← errorLineOf_settle w.host.clear.beginRun, report]

/-- A run drops the lines of the runs before it, and what it shows is its own. -/
theorem accounted_runProgram {w : Workbench} (hm : w.host.Mirrored) (pace : Pace)
    : (w.runProgram pace).Accounted (some w.initial) := by
  have hbefore : w.host.clear.beginRun.Mirrored := (hm.serve .clear).serve .beginRun
  have haccounts := w.host.clear.beginRun.session.accounts_run pace w.source
    (Entry.read w.initial) w.options
  obtain ⟨lines, hlines, hcalm⟩ := w.host.clear.beginRun.session.exists_lines_run pace w.source
    (Entry.read w.initial) w.options
  obtain ⟨hplaced, hnowhere⟩ := w.host.clear.beginRun.session.place_run pace w.source
    (Entry.read w.initial) w.options
  rw [← report] at haccounts hlines hplaced hnowhere
  constructor
  case lines_eq =>
    refine ⟨lines, (w.report pace).ending.error?, ?_, hcalm, w.failed_runProgram pace⟩
    rw [host_runProgram, Host.lines_settle, hlines]
    rfl
  case errorLine_eq_none =>
    intro hf
    rw [failed_runProgram, Option.isSome_eq_false_iff, Option.isNone_iff_eq_none] at hf
    rw [errorLine_runProgram, Session.Report.place?_eq_none hf]
    rfl
  case errorLine_pos =>
    intro l hl
    rw [errorLine_runProgram] at hl
    obtain ⟨place, hplace, rfl⟩ := Option.map_eq_some_iff.1 hl
    exact (hplaced place hplace).1
  case not_finite =>
    intro hf hl
    rw [failed_runProgram, Option.isSome_iff_ne_none] at hf
    rw [errorLine_runProgram, Option.map_eq_none_iff] at hl
    exact ⟨w.initial, rfl, hnowhere hf hl⟩
  case mirrored =>
    rw [host_runProgram]
    exact hbefore.settle haccounts

/-- Whatever is done, the last run is accounted for, by whether the act starts a run. -/
theorem Accounted.act [Screen.Renderer] {used? : Option String} {w : Workbench}
    (h : w.Accounted used?) (a : Act)
    : (w.act a).Accounted ((if w.starts a then some w.initial else none).or used?) := by
  rcases w.act_cases a with ⟨hs, pace, hrun, -⟩ | ⟨hs, hk⟩
  · rw [hs, hrun]
    exact accounted_runProgram h.mirrored pace
  · rw [hs]
    exact h.keeps hk

/-- By induction on the acts. -/
theorem Accounted.foldl_act [Screen.Renderer] {used? : Option String} {w : Workbench}
    (h : w.Accounted used?) (acts : List Act)
    : (acts.foldl Workbench.act w).Accounted ((w.lastInitial? acts).or used?) := by
  induction acts generalizing w used? with
  | nil => exact h
  | cons a later ih =>
      rw [lastInitial?, Option.or_assoc]
      exact ih (h.act a)

/-- Nothing that is done changes the source, by induction on the acts. -/
theorem source_foldl_act [Screen.Renderer] (w : Workbench) (acts : List Act)
    : (acts.foldl act w).source = w.source := by
  induction acts generalizing w with
  | nil => rfl
  | cons a later ih =>
      rw [List.foldl_cons, ih]
      rcases w.act_cases a with ⟨-, pace, hrun, -⟩ | ⟨-, hk⟩
      · rw [hrun, source_runProgram]
      · exact hk.source_eq

-----------------------------------------------------------------------------------------
-- The marked line is one of the source
-----------------------------------------------------------------------------------------

/-- The marked line is not below the last line of the source. -/
def MarksInside (w : Workbench) : Prop :=
  ∀ l, w.errorLine = some l → l ≤ (w.source.toList.splitOn '\n').length

/-- A run that can read the whole source marks a line of the source, if any. -/
theorem marksInside_runProgram {w : Workbench} {pace : Pace}
    (h : pace.LetsRead w.options.parseTimeout w.source)
    : (w.runProgram pace).MarksInside := by
  obtain ⟨hplaced, -⟩ := w.host.clear.beginRun.session.place_run pace w.source
    (Entry.read w.initial) w.options
  rw [← report] at hplaced
  intro l hl
  rw [errorLine_runProgram] at hl
  obtain ⟨place, hplace, rfl⟩ := Option.map_eq_some_iff.1 hl
  rw [source_runProgram]
  exact ((hplaced place hplace).2 h).line_le

/-- By induction on the acts, none of which starts a run that the parse watchdog stops. -/
theorem MarksInside.foldl_act [Screen.Renderer] {w : Workbench} (h : w.MarksInside)
    {acts : List Act} (hacts : ∀ a ∈ acts, a.LetsRead w.options.parseTimeout w.source)
    : (acts.foldl act w).MarksInside := by
  induction acts generalizing w with
  | nil => exact h
  | cons a later ih =>
      obtain ⟨ha, hlater⟩ := List.forall_mem_cons.1 hacts
      rcases w.act_cases a with ⟨-, pace, hrun, hpace⟩ | ⟨-, hk⟩
      · refine ih ?_ ?_
        · rw [hrun]
          exact marksInside_runProgram (hpace _ _ ha)
        · rw [hrun, source_runProgram, options_runProgram]
          exact hlater
      · refine ih ?_ ?_
        · intro l hl
          rw [hk.source_eq]
          exact h l (hk.errorLine_eq ▸ hl)
        · rw [hk.source_eq, hk.parseTimeout_eq]
          exact hlater

-----------------------------------------------------------------------------------------
-- What is seen of a failure
-----------------------------------------------------------------------------------------

namespace Accounted

variable {used? : Option String} {w : Workbench}

/-- The workbench has failed exactly if the transcript shows an error. -/
theorem failed_iff (h : w.Accounted used?)
    : w.failed = true ↔ ∃ line ∈ w.host.transcript.lines.toList, line.kind = .error := by
  obtain ⟨lines, error?, hlines, hcalm, hfailed⟩ := h.lines_eq
  rw [hlines, hfailed]
  cases error? with
  | none =>
      simp only [Option.isSome_none, Bool.false_eq_true, false_iff]
      rintro ⟨line, hline, he⟩
      exact hcalm line (by simpa using hline) he
  | some text => simp

/-- The transcript shows one error at most. -/
theorem countP_error_le (h : w.Accounted used?)
    : w.host.transcript.lines.toList.countP (fun line => line.kind = .error) ≤ 1 := by
  obtain ⟨lines, error?, hlines, hcalm, -⟩ := h.lines_eq
  have hnone : lines.countP (fun line => line.kind = .error) = 0 :=
    List.countP_eq_zero.2 (by simpa using hcalm)
  rw [hlines, List.countP_append, hnone, Nat.zero_add]
  exact List.countP_le_length.trans (Option.length_toList_le ..)

/-- The error is the last line of the transcript. -/
theorem error_last (h : w.Accounted used?) {front later : List Transcript.Line}
    {line : Transcript.Line} (hsplit : w.host.transcript.lines.toList = front ++ line :: later)
    (he : line.kind = .error)
    : later = [] := by
  obtain ⟨lines, error?, hlines, hcalm, -⟩ := h.lines_eq
  rw [hlines] at hsplit
  rcases List.eq_nil_or_concat later with rfl | ⟨inner, last, rfl⟩
  · rfl
  -- a line with another one behind it is none of an error
  have hmem : line ∈ lines := by
    cases error? with
    | none =>
        have hall : lines = front ++ line :: inner.concat last := by simpa using hsplit
        rw [hall]
        simp
    | some text =>
        have hall : lines ++ [⟨.error, text⟩] = (front ++ line :: inner) ++ [last] := by
          simpa using hsplit
        rw [(List.append_inj' hall rfl).1]
        simp
  exact absurd he (hcalm line hmem)

end Accounted

/-- The source pane has a line with the number of the marked line. -/
theorem MarksInside.errorLine_numbered {w : Workbench} (h : w.MarksInside) {l : Nat}
    (hl : w.errorLine = some l) (hpos : 1 ≤ l)
    : ∃ text, (text, l - 1) ∈ (Text.lines w.source.toList).zipIdx := by
  have hle := h l hl
  rw [← Text.lines_eq_splitOn] at hle
  refine ⟨(Text.lines w.source.toList)[l - 1], ?_⟩
  rw [List.mk_mem_zipIdx_iff_getElem?]
  exact List.getElem?_eq_getElem _

open Screen in
/-- The line of a variable shows its name and its value in the panel. -/
theorem text_variableLine (p : Panel) (v : Variable)
    : (Pane.variableLine p v).flatMap Span.text
      = ' ' :: Pane.padStart 5 v.chars ++ [' ', '=', ' '] ++ (p.store.get v).chars := by
  simp [Pane.variableLine]

open Screen in
/-- Whatever is done with a new workbench, and whatever draws it: it has failed exactly if the
transcript has an error, which is the only one and the last line. A line is marked only after a
failure, and it is one of the numbered lines of the source unless the parse watchdog has stopped a
run. A failure without a marked line is that of a start value that is not finite. The panel shows
the variables of the session. -/
theorem failures_in_step [Renderer] (source : String) (options : Options) (initial : String)
    (acts : List Act)
    : let new := ofSource source options initial
      let w := acts.foldl act new
      let lines := w.host.transcript.lines.toList
      (w.failed = true ↔ ∃ line ∈ lines, line.kind = .error)
      ∧ lines.countP (fun line => line.kind = .error) ≤ 1
      ∧ (∀ front line later, lines = front ++ line :: later → line.kind = .error → later = [])
      ∧ (w.failed = false → w.errorLine = none)
      ∧ (∀ l, w.errorLine = some l
          → 1 ≤ l
            ∧ ((∀ a ∈ acts, a.LetsRead options.parseTimeout source)
              → l ≤ (source.toList.splitOn '\n').length
                ∧ ∃ text, (text, l - 1) ∈ (Text.lines w.source.toList).zipIdx))
      ∧ (w.failed = true → w.errorLine = none
          → ∃ text, new.lastInitial? acts = some text ∧ (Entry.read text).isFinite = false)
      ∧ w.host.panel.store = w.host.session.store
      ∧ ∀ v, (Pane.variableLine w.host.panel v).flatMap Span.text
          = ' ' :: Pane.padStart 5 v.chars ++ [' ', '=', ' '] ++ (w.host.session.store.get v).chars
    := by
  intro new w lines
  have h := (accounted_ofSource source options initial).foldl_act acts
  rw [Option.or_none] at h
  refine ⟨h.failed_iff, h.countP_error_le, ?_, h.errorLine_eq_none, ?_, h.not_finite,
    h.mirrored.shown, ?_⟩
  · intro front line later hsplit he
    exact h.error_last hsplit he
  · intro l hl
    have hpos := h.errorLine_pos l hl
    refine ⟨hpos, fun hacts => ?_⟩
    have hnew : new.MarksInside := by rintro _ ⟨⟩
    have hinside : w.MarksInside := MarksInside.foldl_act hnew hacts
    have hle := hinside l hl
    rw [source_foldl_act] at hle
    exact ⟨hle, hinside.errorLine_numbered hl hpos⟩
  · intro v
    rw [text_variableLine, h.mirrored.shown]

/-- A display of nothing is marked, and an infinite start value is refused without a mark. -/
theorem failures_in_step_refused
    : let rejected := [Act.run .steady].foldl act (ofSource "Disp" .standard "0")
      let typed := [Act.press .steady (.char 'r'), .draw 80 24]
      let unseeded := typed.foldl act (ofSource "Disp" .standard "inf")
      rejected.failed = true
      ∧ rejected.errorLine = some 1
      ∧ (∃ line ∈ rejected.host.transcript.lines.toList, line.kind = .error)
      ∧ unseeded.failed = true
      ∧ unseeded.errorLine = none
      ∧ (∃ text,
          (ofSource "Disp" .standard "inf").lastInitial? typed = some text
          ∧ (Entry.read text).isFinite = false) := by
  intro rejected typed unseeded
  obtain ⟨fault, hread⟩ : ∃ fault, (Session.read .steady .standard "Disp").1 = .error fault :=
    Session.exists_read_error .steady .standard rfl
  have hzero : (Entry.read "0").isFinite = true := rfl
  have hinf : (Entry.read "inf").isFinite = false := rfl
  have hrejected : (ofSource "Disp" .standard "0").report .steady = _ :=
    Session.run_of_rejected .fresh .steady hzero hread
  have hunseeded : (ofSource "Disp" .standard "inf").report .steady = _ :=
    Session.run_of_not_finite .fresh .steady "Disp" .standard hinf
  have hfailed : rejected.failed = true := by
    refine (failed_runProgram _ .steady).trans ?_
    rw [hrejected]
    rfl
  have hline : rejected.errorLine = some fault.location.line := by
    refine (errorLine_runProgram _ .steady).trans ?_
    rw [hrejected]
    rfl
  have hkept := (ofSource "Disp" .standard "inf").runProgram .steady |>.keeps_draw 80 24
  have hfailed' : unseeded.failed = true := by
    refine hkept.failed_eq.trans ((failed_runProgram _ .steady).trans ?_)
    rw [hunseeded]
    rfl
  have hline' : unseeded.errorLine = none := by
    refine hkept.errorLine_eq.trans ((errorLine_runProgram _ .steady).trans ?_)
    rw [hunseeded]
    rfl
  obtain ⟨hiff, -, -, -, hmarked, -⟩ := failures_in_step "Disp" .standard "0" [.run .steady]
  obtain ⟨-, -, -, -, -, hnowhere, -⟩ := failures_in_step "Disp" .standard "inf" typed
  obtain ⟨hpos, hinside⟩ := hmarked _ hline
  have hsilent : ∀ a ∈ [Act.run .steady], a.LetsRead Options.standard.parseTimeout "Disp" :=
    List.forall_mem_singleton.2 (Pace.letsRead_of_silent rfl "Disp")
  obtain ⟨hle, -⟩ := hinside hsilent
  have hone : fault.location.line = 1 := Nat.le_antisymm hle hpos
  exact ⟨hfailed, hone ▸ hline, hiff.1 hfailed, hfailed', hline', hnowhere hfailed' hline'⟩

end LoopCalc.Workbench
