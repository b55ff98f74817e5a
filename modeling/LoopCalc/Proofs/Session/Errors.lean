import LoopCalc.Proofs.Execution.Aborts
import LoopCalc.Proofs.Parsing.ViablePrefixes
import LoopCalc.Proofs.Session.Listeners
import LoopCalc.Proofs.Session.Phases

/-! The errors of runs. A run tells of its error in one line, the last of all. The error points at a
place inside of the source, whether it is a fault of the text or an abort of the execution. Only a
start value that is not finite has no place there.
-/

namespace LoopCalc

open LineByLine (Nest)

mutual

/-- A loop in a statement has its mark among those of the statement. By recursion on it together
with programs. -/
theorem Statement.mark_mem_of_header {h : Header} (statement : Statement)
    (hh : h ∈ statement.headers)
    : ⟨.loop, h.location⟩ ∈ statement.marks := by
  cases statement with
  | disp value location => cases hh
  | loop header body =>
      rw [Statement.headers] at hh
      rw [Statement.marks]
      rcases List.mem_cons.1 hh with rfl | hh
      · exact List.mem_cons_self
      · exact List.mem_cons_of_mem _ (Program.mark_mem_of_header body hh)
termination_by structural statement

/-- The headers of a program are at places that it marks. -/
theorem Program.mark_mem_of_header {h : Header} (program : List Statement)
    (hh : h ∈ Program.headers program)
    : ⟨.loop, h.location⟩ ∈ Program.marks program := by
  cases program with
  | nil => cases hh
  | cons statement rest =>
      rw [Program.headers] at hh
      rw [Program.marks]
      rcases List.mem_append.1 hh with hh | hh
      · exact List.mem_append_left _ (statement.mark_mem_of_header hh)
      · exact List.mem_append_right _ (Program.mark_mem_of_header rest hh)
termination_by structural program

end

/-- A mark that stands in the source is at a place within it. -/
theorem Mark.StandsIn.within {m : Mark} {source : List Char} (h : m.StandsIn source)
    : m.location.Within source := by
  obtain ⟨front, rest, rfl, hl⟩ := h
  rw [hl]
  exact (Location.divides_past front _).within

/-- The marks of a program that is read stand in its source. -/
theorem Parser.Nests.standsIn {source : String} {whole : Nest} (h : Nests source whole) {m : Mark}
    (hm : m ∈ Program.marks whole.program)
    : m.StandsIn source.toList := by
  rw [Nest.marks_of_foldlM h.foldlM_eq] at hm
  obtain ⟨l, hl, hlm⟩ := List.mem_filterMap.1 hm
  exact LineByLine.standsIn_of_mem_logicalLines hl hlm

namespace Session

variable {pace : Pace} {options : Options} {source : String} {program : Program} {fault : Fault}
  {abort : Abort}

-----------------------------------------------------------------------------------------
-- The place of an error
-----------------------------------------------------------------------------------------

/-- The place that the error of a report points at: where the source is at fault, or where execution
stopped. -/
def Report.place? (report : Report) : Option Location :=
  match report.ending with
  | .rejected fault => some fault.location
  | .aborted _ => report.session.location
  | .completed | .unfinished => none

/-- Without an error there is no place of one. -/
theorem Report.place?_eq_none {report : Report} (h : report.ending.error? = none)
    : report.place? = none := by
  rcases report with ⟨ending, session, events⟩
  cases ending with
  | completed => rfl
  | unfinished => rfl
  | rejected fault => cases h
  | aborted abort => cases h

/-- A fault of a source is inside of it. -/
theorem within_of_parse_error (h : ((Parser.ofSource source .silent).parse).1 = .error fault)
    : fault.location.Within source.toList := by
  obtain ⟨front, rest, he, hl, -, -⟩ := Parser.points_of_parse_error h
  rw [he, hl]
  exact (Location.divides_past front rest).within

/-- Every fault has a line, also that of a reading which is stopped. -/
theorem line_pos_of_read_error (h : (read pace options source).1 = .error fault)
    : 1 ≤ fault.location.line := by
  obtain hparse | ⟨stop, rfl⟩ := fault_of_read h
  · exact (within_of_parse_error hparse).line_pos
  · exact Nat.le_add_left 1 _

/-- A program that was read aborts at a header of a loop, and so inside of its source. -/
theorem place_execute (s : Session) (pace : Pace)
    (hread : (read pace options source).1 = .ok program)
    : let report := s.execute pace program
      (∀ l, report.place? = some l → l.Within source.toList)
      ∧ (report.ending.error? ≠ none → report.place? ≠ none) := by
  obtain ⟨whole, hnests, rfl⟩ := Parser.exists_nests_of_parse (parse_of_read hread)
  dsimp only [execute, executeOn]
  cases hx : Program.exec ⟨pace, s.options.loopTimeout⟩ whole.program
      (.start s.store s.location) with
  | ok _ m => simp [Report.place?, Ending.error?]
  | error stop m =>
      cases stop with
      | unfinished => simp [Report.place?, Ending.error?, Ending.ofStop]
      | aborted abort =>
          obtain ⟨header, hattempts, -⟩ := Program.attempts_of_exec _ hx
          have hstands := hnests.standsIn (Program.mark_mem_of_header _ hattempts.mem_headers)
          simp only [Report.place?, Ending.ofStop, hattempts.writes.location_eq]
          refine ⟨?_, by simp⟩
          rintro l ⟨⟩
          exact hstands.within

/-- The error of a run points at a line, and inside of the source unless the parse watchdog has
stopped the run. One that points nowhere is about the start value. -/
theorem place_run (s : Session) (pace : Pace) (source : String) (ans : Number) (options : Options)
    : let report := s.run pace source ans options
      (∀ l, report.place? = some l
        → 1 ≤ l.line ∧ (pace.LetsRead options.parseTimeout source → l.Within source.toList))
      ∧ (report.ending.error? ≠ none → report.place? = none → ans.isFinite = false) := by
  dsimp only
  cases hans : ans.isFinite with
  | false =>
      rw [run_of_not_finite s pace source options hans]
      exact ⟨by simp [Report.place?], fun _ _ => rfl⟩
  | true =>
      cases hread : (read pace options source).1 with
      | error fault =>
          rw [run_of_rejected s pace hans hread]
          refine ⟨?_, by simp [Report.place?]⟩
          rintro l ⟨⟩
          exact ⟨line_pos_of_read_error hread,
            fun hpace => within_of_parse_error (hpace.symm.trans hread)⟩
      | ok program =>
          rw [run_of_read s pace hans hread]
          obtain ⟨hwithin, hplace⟩ := place_execute (seeded ans options) pace hread
          refine ⟨fun l hl => ⟨(hwithin l hl).line_pos, fun _ => hwithin l hl⟩, ?_⟩
          exact fun he hn => absurd hn (hplace he)

-----------------------------------------------------------------------------------------
-- The line of an error
-----------------------------------------------------------------------------------------

/-- The line about the error of a run, if it has one. -/
def errorLines (ending : Ending) : List Transcript.Line :=
  (ending.error?.map (Transcript.Line.mk .error)).toList

/-- What a run tells last is the line of its error, if it has one. -/
theorem filterMap_line?_parting (ending : Ending)
    : (parting ending).filterMap Event.line? = errorLines ending := by
  rw [parting, errorLines]
  cases ending.error? <;> rfl

/-- Between its reset and its error a run adds no line of an error. -/
theorem kind_ne_error {events : List Event} (h : ∀ event ∈ events, event.Ordinary)
    : ∀ line ∈ events.filterMap Event.line?, line.kind ≠ .error := by
  intro line hline
  obtain ⟨event, he, hl⟩ := List.mem_filterMap.1 hline
  cases h event he with
  | assigned v x => cases hl
  | printed text =>
      obtain rfl := Option.some.inj hl
      simp
  | warned text =>
      obtain rfl := Option.some.inj hl
      simp

/-- A run adds lines that are no errors, and then the line of its error if it has one. -/
theorem exists_lines_run (s : Session) (pace : Pace) (source : String) (ans : Number)
    (options : Options)
    : let report := s.run pace source ans options
      ∃ lines : List Transcript.Line,
        report.events.filterMap Event.line? = lines ++ errorLines report.ending
        ∧ ∀ line ∈ lines, line.kind ≠ .error := by
  obtain ⟨told, hevents, hordinary⟩ := s.exists_told_run pace source ans options
  refine ⟨told.filterMap Event.line?, ?_, kind_ne_error hordinary⟩
  rw [hevents, List.filterMap_append, Event.filterMap_line?_reset, List.nil_append,
    List.filterMap_append, filterMap_line?_parting]

end Session

end LoopCalc
