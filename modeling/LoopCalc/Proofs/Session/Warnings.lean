import LoopCalc.Proofs.Session.Listeners
import LoopCalc.Proofs.Session.Phases

/-! Warnings do not interfere. A run that asks for them does what the run without them does, and
tells the same but for one event between its seed and the execution: the remark on a source that
opens more loops than it closes.
-/

namespace LoopCalc

open LineByLine (Nest pieces?)

/-- The source opens more loops than it closes. -/
def LineByLine.LeavesOpen (source : String) : Prop :=
  ∃ pieces,
    pieces? source = some pieces
    ∧ pieces.countP Piece.isClose < pieces.countP Piece.isHeader

/-- The loops that nesting leaves open are those that the pieces of the source leave open. -/
theorem Parser.Nests.opened_ne_nil_iff {source : String} {whole : Nest} (h : Nests source whole)
    : whole.opened.length ≠ 0 ↔ LineByLine.LeavesOpen source := by
  have hfold := h.foldlM_eq
  rw [Nest.foldlM_read?] at hfold
  obtain ⟨pieces, hpieces, hfold⟩ := Option.bind_eq_some_iff.1 hfold
  have hlength : whole.opened.length + pieces.countP Piece.isClose
      = 0 + pieces.countP Piece.isHeader := Nest.length_opened_of_foldlM hfold
  constructor
  · intro hopen
    exact ⟨pieces, hpieces, by omega⟩
  · rintro ⟨others, hothers, hlt⟩
    obtain rfl := Option.some.inj (hpieces.symm.trans hothers)
    omega

/-- A source without a fault gives a notice exactly if it opens more loops than it closes. -/
theorem Parser.notices_ne_nil_iff {source : String} {program : Program}
    (h : (undisturbed source).1 = .ok program)
    : (undisturbed source).2.notices ≠ [] ↔ LineByLine.LeavesOpen source := by
  obtain ⟨whole, hnests, -⟩ := exists_nests_of_parse h
  have hnotices : (undisturbed source).2.notices = noticesOn _ _ := hnests.parse.2
  rw [← hnests.opened_ne_nil_iff, hnotices, noticesOn]
  split
  · next hzero => simp [hzero]
  · next hopen => simp [hopen]

namespace Session

variable {pace : Pace} {options : Options} {source : String} {found whole : Nat}

/-- Where warnings are asked for, reading tells of loops left open, and only of them, as soon as it
has found the end of the source. -/
theorem read_warnings_ne_nil_iff (pace : Pace) (ht : Parser.Takes source found whole)
    (hw : options.warnings = true)
    : (read pace options source).2 ≠ []
      ↔ (∃ program, (Parser.undisturbed source).1 = .ok program)
        ∧ LineByLine.LeavesOpen source
        ∧ (pace.watchdog options.parseTimeout).Allows found := by
  have hremarks : remarks options source ≠ []
      ↔ (∃ program, (Parser.undisturbed source).1 = .ok program)
        ∧ LineByLine.LeavesOpen source := by
    cases hp : (Parser.undisturbed source).1 with
    | error fault => simp [remarks_of_error options hp]
    | ok program =>
        rw [remarks, if_pos hw, ne_eq, List.map_eq_nil_iff, ← ne_eq, Parser.notices_ne_nil_iff hp]
        simp
  by_cases hf : (pace.watchdog options.parseTimeout).Allows found
  · have hread : (read pace options source).2 = remarks options source := by
      by_cases hall : (pace.watchdog options.parseTimeout).Allows whole
      · rw [read_of_allows ht hall]
      · obtain ⟨-, stop, hstopped⟩ := read_of_stopped_behind ht hf hall
        rw [hstopped]
    rw [hread, hremarks]
    simp [hf]
  · obtain ⟨stop, hstopped⟩ := read_of_not_allows ht hf
    simp [hstopped, hf]

/-- The program of a source is read exactly if there is one and the watchdog lets all reads pass. -/
theorem exists_read_iff (ht : Parser.Takes source found whole)
    : (∃ program, (read pace options source).1 = .ok program)
      ↔ (∃ program, (Parser.undisturbed source).1 = .ok program)
        ∧ (pace.watchdog options.parseTimeout).Allows whole := by
  by_cases hall : (pace.watchdog options.parseTimeout).Allows whole
  · rw [read_of_allows ht hall]
    simp [hall]
  · have herror : ∃ fault, (read pace options source).1 = .error fault := by
      by_cases hf : (pace.watchdog options.parseTimeout).Allows found
      · obtain ⟨-, stop, hstopped⟩ := read_of_stopped_behind ht hf hall
        exact ⟨_, congrArg Prod.fst hstopped⟩
      · obtain ⟨stop, hstopped⟩ := read_of_not_allows ht hf
        exact ⟨_, congrArg Prod.fst hstopped⟩
    obtain ⟨fault, herror⟩ := herror
    simp [herror, hall]

/-- What reading tells are warnings, and at most one. -/
theorem exists_read_warnings (pace : Pace) (options : Options) (source : String)
    : ∃ texts : List String,
        (read pace options source).2 = texts.map Event.warned ∧ texts.length ≤ 1 := by
  obtain hnone | ⟨text, program, hone, -⟩ := warnings_of_read pace options source
  · exact ⟨[], hnone, Nat.zero_le 1⟩
  · exact ⟨[text], hone, Nat.le_refl 1⟩

/-- A run that asks for warnings ends as the run without them and leaves the same. It tells one
event more at most, a warning, and no line before it. -/
theorem exists_warnings_run (ht : Parser.Takes source found whole) (s : Session) (pace : Pace)
    (ans : Number) (options : Options)
    : let quiet := s.run pace source ans { options with warnings := false }
      let loud := s.run pace source ans { options with warnings := true }
      loud.ending = quiet.ending
      ∧ loud.session.store = quiet.session.store
      ∧ loud.session.location = quiet.session.location
      ∧ ∃ (front : List Event) (texts : List String) (later : List Event),
          quiet.events = front ++ later
          ∧ loud.events = front ++ (texts.map Event.warned ++ later)
          ∧ front.filterMap Event.line? = []
          ∧ texts.length ≤ 1
          ∧ (texts ≠ []
            ↔ ans.isFinite = true
              ∧ (∃ program, (Parser.undisturbed source).1 = .ok program)
              ∧ LineByLine.LeavesOpen source
              ∧ (pace.watchdog options.parseTimeout).Allows found) := by
  dsimp only
  cases hans : ans.isFinite with
  | false =>
      rw [run_of_not_finite s pace source _ hans, run_of_not_finite s pace source _ hans]
      exact ⟨rfl, rfl, rfl, Event.reset, [], _, rfl, rfl, Event.filterMap_line?_reset,
        Nat.zero_le 1, by simp⟩
  | true =>
      have hseed : (Event.reset ++ [Event.assigned .ans ans]).filterMap Event.line? = [] := by
        rw [List.filterMap_append, Event.filterMap_line?_reset]
        rfl
      -- whether warnings are asked for makes no difference to what is read
      have hsame (warnings : Bool)
          : (read pace { options with warnings } source).1 = (read pace options source).1 := rfl
      have hquiet : (read pace { options with warnings := false } source).2 = [] := rfl
      obtain ⟨texts, htexts, hone⟩ :=
        exists_read_warnings pace { options with warnings := true } source
      have hiff := read_warnings_ne_nil_iff pace ht
        (show { options with warnings := true }.warnings = true from rfl)
      rw [htexts, ne_eq, List.map_eq_nil_iff] at hiff
      cases hread : (read pace options source).1 with
      | error fault =>
          rw [run_of_rejected s pace hans ((hsame false).trans hread),
            run_of_rejected s pace hans ((hsame true).trans hread), hquiet, htexts]
          refine ⟨rfl, rfl, rfl, Event.reset ++ [Event.assigned .ans ans], texts,
            parting (.rejected fault), ?_, ?_, hseed, hone, by simpa using hiff⟩
          · rw [List.append_assoc]
            rfl
          · rw [List.append_assoc]
            rfl
      | ok program =>
          rw [run_of_read s pace hans ((hsame false).trans hread),
            run_of_read s pace hans ((hsame true).trans hread), hquiet, htexts]
          let execution := (seeded ans options).execute pace program
          refine ⟨rfl, rfl, rfl, Event.reset ++ [Event.assigned .ans ans], texts,
            execution.events ++ parting execution.ending, ?_, ?_, hseed, hone, by simpa using hiff⟩
          · rw [List.append_assoc]
            rfl
          · rw [List.append_assoc]
            rfl

end Session

namespace Host

/-- Asking for warnings changes nothing about a run but for one line at most, put before all others
that the run adds to the transcript. It is there exactly if the start value is finite, the source is
without a fault and opens more loops than it closes, and the parse watchdog lets so many reads pass
that the end of the source is found. That may be less than it takes to read the program. -/
theorem warnings_only_add_a_line (source : String)
    : ∃ found whole : Nat,
        found ≤ whole
        ∧ (LineByLine.LeavesOpen source
          → (∃ program, ((Parser.ofSource source .silent).parse).1 = .ok program)
          → found < whole)
        ∧ ∀ (h : Host) (pace : Pace) (ans : Number) (options : Options),
            let accepted := ∃ program, ((Parser.ofSource source .silent).parse).1 = .ok program
            let dog := pace.watchdog options.parseTimeout
            let quiet := h.run pace source ans { options with warnings := false }
            let loud := h.run pace source ans { options with warnings := true }
            loud.1 = quiet.1
            ∧ loud.2.1.session.store = quiet.2.1.session.store
            ∧ loud.2.1.session.location = quiet.2.1.session.location
            ∧ loud.2.1.panel = quiet.2.1.panel
            ∧ ((∃ program, (Session.read pace options source).1 = .ok program)
              ↔ accepted ∧ dog.Allows whole)
            ∧ ∃ warning lines : List Transcript.Line,
                quiet.2.1.transcript.lines.toList = h.transcript.lines.toList ++ lines
                ∧ loud.2.1.transcript.lines.toList
                  = h.transcript.lines.toList ++ (warning ++ lines)
                ∧ warning.length ≤ 1
                ∧ (∀ line ∈ warning, line.kind = .warning)
                ∧ (warning ≠ []
                  ↔ ans.isFinite = true
                    ∧ accepted
                    ∧ LineByLine.LeavesOpen source
                    ∧ dog.Allows found) := by
  obtain ⟨found, whole, ht⟩ := Parser.exists_takes source
  refine ⟨found, whole, ht.found_le, ?_, ?_⟩
  · rintro hopen ⟨program, hprogram⟩
    exact ht.found_lt ((Parser.notices_ne_nil_iff hprogram).2 hopen)
  intro h pace ans options
  obtain ⟨hending, hstore, hlocation, front, texts, later, hquiet, hloud, hfront, hone, hiff⟩ :=
    Session.exists_warnings_run ht h.session pace ans options
  have hmessages : ∀ event ∈ texts.map Event.warned, event.isMessage = true := by
    intro event he
    obtain ⟨text, -, rfl⟩ := List.mem_map.1 he
    rfl
  have hlines : (texts.map Event.warned).filterMap Event.line?
      = texts.map fun text => ⟨.warning, text⟩ := by
    simp [List.filterMap_map, Function.comp_def, Event.line?]
  dsimp only [run]
  rw [session_settle, session_settle, panel_settle, panel_settle, lines_settle, lines_settle,
    hquiet, hloud]
  refine ⟨hending, hstore, hlocation, ?_, Session.exists_read_iff ht,
    texts.map fun text => ⟨.warning, text⟩, later.filterMap Event.line?, ?_, ?_, ?_, ?_, ?_⟩
  · simp only [List.foldl_append, Panel.foldl_observe_messages hmessages]
  · rw [List.filterMap_append, hfront, List.nil_append]
  · rw [List.filterMap_append, List.filterMap_append, hfront, hlines, List.nil_append]
  · rwa [List.length_map]
  · intro line hline
    obtain ⟨text, -, rfl⟩ := List.mem_map.1 hline
    rfl
  · rw [ne_eq, List.map_eq_nil_iff]
    exact hiff

/-- The loop left open is remarked on in the first line of the transcript. -/
theorem warnings_only_add_a_line_loopFromAns
    : let loud := fresh.run .steady Session.loopFromAnsSource .zero Session.loud
      let quiet := fresh.run .steady Session.loopFromAnsSource .zero .standard
      ∃ line : Transcript.Line,
        line.kind = .warning
        ∧ loud.2.1.transcript.lines.toList = line :: quiet.2.1.transcript.lines.toList := by
  obtain ⟨found, whole, -, -, hlines⟩ := warnings_only_add_a_line Session.loopFromAnsSource
  obtain ⟨-, -, -, -, -, warning, lines, hquiet, hloud, hone, hkind, hiff⟩ :=
    hlines fresh .steady .zero .standard
  have hnests := Session.nests_loopFromAns
  have hnot := hiff.2
    ⟨rfl, ⟨_, hnests.parse.1⟩, hnests.opened_ne_nil_iff.1 (by simp), trivial⟩
  obtain ⟨line, rfl⟩ : ∃ line, warning = [line] :=
    List.length_eq_one_iff.1 (Nat.le_antisymm hone (List.length_pos_iff.2 hnot))
  exact ⟨line, hkind line List.mem_cons_self, hloud.trans (congrArg (line :: ·) hquiet.symm)⟩

/-- Whether the source can be read does not decide on the warning. With no time to read it, the loop
left open in a source without a fault is not remarked on. Where the watchdog fires behind the end of
the source it is, although the source could not be read. -/
theorem warning_not_iff_read
    : (∃ program, ((Parser.ofSource Session.loopFromAnsSource .silent).parse).1 = .ok program)
      ∧ LineByLine.LeavesOpen Session.loopFromAnsSource
      ∧ (Number.ofInt 1).isFinite = true
      ∧ (fresh.run .steady Session.loopFromAnsSource (.ofInt 1)
          { Session.loud with parseTimeout := .after 0 }).2.1.transcript.lines.toList
        = [⟨.error,
            "SyntaxError while parsing at 1:1: Parsing took too long. Please report this."⟩]
      ∧ (∀ program,
          (Session.read Session.hasty Session.loud Session.loopFromAnsSource).1 ≠ .ok program)
      ∧ (fresh.run Session.hasty Session.loopFromAnsSource (.ofInt 1)
          Session.loud).2.1.transcript.lines.toList
        = [⟨.warning,
              "Warning during parsing at 3:1: Not enough End statements: 1 unclosed block(s)."⟩,
            ⟨.error,
              "SyntaxError while parsing at 3:1: Parsing took too long. Please report this."⟩] := by
  have hnests := Session.nests_loopFromAns
  have hstopped : (Session.read Session.hasty Session.loud Session.loopFromAnsSource).1.map
      (fun _ => ()) = .error ⟨.timeout, ⟨3, 1⟩⟩ := by
    decide +kernel
  refine ⟨⟨_, hnests.parse.1⟩, hnests.opened_ne_nil_iff.1 (by simp), by decide +kernel,
    by decide +kernel, fun program hread => ?_, by decide +kernel⟩
  rw [hread] at hstopped
  cases hstopped

end Host

end LoopCalc
