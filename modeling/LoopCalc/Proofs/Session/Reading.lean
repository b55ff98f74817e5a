import LoopCalc.Session
import LoopCalc.Proofs.Parsing.Agreement
import LoopCalc.Proofs.Watch.Deadlines

/-! What a session makes of a source that it reads. It comes to what it comes to without a watchdog,
or the watchdog stops it. A reading that is stopped behind the end of its source has told of the
loops left open there all the same.
-/

namespace LoopCalc

/-- The parse watchdog lets the whole source be read. -/
def Pace.LetsRead (pace : Pace) (limit : Timeout) (source : String) : Prop :=
  ((Parser.ofSource source (pace.watchdog limit)).parse).1 = (Parser.undisturbed source).1

/-- A silent watchdog lets every source be read. -/
theorem Pace.letsRead_of_silent {pace : Pace} {limit : Timeout} (h : pace.watchdog limit = .silent)
    (source : String)
    : pace.LetsRead limit source := by
  rw [LetsRead, h]
  rfl

namespace Session

/-- What the host is told of a source whose end is found. -/
def remarks (options : Options) (source : String) : List Event :=
  if options.warnings then (Parser.undisturbed source).2.notices.map fun n => .warned n.message
  else []

/-- What reading a source can come to, with what the host is told. The watchdog can stop it before
the end of the source is found, and behind the end of one that is without a fault. -/
inductive ReadsTo (options : Options) (source : String)
    : Except Fault Program × List Event → Prop
  | undisturbed : ReadsTo options source ((Parser.undisturbed source).1, remarks options source)
  | early (stop : Cursor) : ReadsTo options source (.error ⟨.timeout, stop.location⟩, [])
  | behind (stop : Cursor) {program : Program}
      (accepted : (Parser.undisturbed source).1 = .ok program)
      : ReadsTo options source (.error ⟨.timeout, stop.location⟩, remarks options source)

variable {pace : Pace} {options : Options} {source : String} {program : Program} {fault : Fault}
  {result : Except Fault Program × List Event} {found whole : Nat}

-----------------------------------------------------------------------------------------
-- What reading comes to
-----------------------------------------------------------------------------------------

/-- What the host is told hangs on the notices of the reading only. -/
theorem read_eq (pace : Pace) (options : Options) {outcome : Except Fault Program}
    {notices : List Notice}
    (h : ((Parser.ofSource source (pace.watchdog options.parseTimeout)).parse).1 = outcome)
    (hn : ((Parser.ofSource source (pace.watchdog options.parseTimeout)).parse).2.notices = notices)
    : read pace options source
      = (outcome, if options.warnings then notices.map fun n => .warned n.message else []) := by
  rw [← h, ← hn, read]

/-- With all the reads that it takes, a reading is not disturbed. -/
theorem read_of_allows (ht : Parser.Takes source found whole)
    (h : (pace.watchdog options.parseTimeout).Allows whole)
    : read pace options source = ((Parser.undisturbed source).1, remarks options source) := by
  obtain ⟨hresult, hnotices⟩ := ht.in_time _ h
  exact read_eq pace options hresult hnotices

/-- Without the reads that it takes to find the end of the source, nothing is told of it. -/
theorem read_of_not_allows (ht : Parser.Takes source found whole)
    (h : ¬(pace.watchdog options.parseTimeout).Allows found)
    : ∃ stop : Cursor, read pace options source = (.error ⟨.timeout, stop.location⟩, []) := by
  obtain ⟨⟨stop, hresult⟩, hnotices⟩ := ht.early _ h
  refine ⟨stop, (read_eq pace options hresult hnotices).trans ?_⟩
  rw [List.map_nil, ite_self]

/-- Stopped behind the end of the source, all has been told of it. -/
theorem read_of_stopped_behind (ht : Parser.Takes source found whole)
    (hf : (pace.watchdog options.parseTimeout).Allows found)
    (hw : ¬(pace.watchdog options.parseTimeout).Allows whole)
    : (∃ program, (Parser.undisturbed source).1 = .ok program)
      ∧ ∃ stop : Cursor,
          read pace options source
            = (.error ⟨.timeout, stop.location⟩, remarks options source) := by
  obtain ⟨haccepted, ⟨stop, hresult⟩, hnotices⟩ := ht.behind _ hf hw
  exact ⟨haccepted, stop, read_eq pace options hresult hnotices⟩

/-- Reading comes to one of these, by how many reads the watchdog lets pass. -/
theorem readsTo_read (pace : Pace) (options : Options) (source : String)
    : ReadsTo options source (read pace options source) := by
  obtain ⟨found, whole, ht⟩ := Parser.exists_takes source
  by_cases hf : (pace.watchdog options.parseTimeout).Allows found
  · by_cases hw : (pace.watchdog options.parseTimeout).Allows whole
    · rw [read_of_allows ht hw]
      exact .undisturbed
    · obtain ⟨⟨program, haccepted⟩, stop, hread⟩ := read_of_stopped_behind ht hf hw
      rw [hread]
      exact .behind stop haccepted
  · obtain ⟨stop, hread⟩ := read_of_not_allows ht hf
    rw [hread]
    exact .early stop

-----------------------------------------------------------------------------------------
-- Programs and faults
-----------------------------------------------------------------------------------------

/-- A program that was read is the one that is read without a watchdog. -/
theorem ReadsTo.parse_eq (h : ReadsTo options source result) (hr : result.1 = .ok program)
    : ((Parser.ofSource source .silent).parse).1 = .ok program := by
  cases h with
  | undisturbed => exact hr
  | early stop => cases hr
  | behind stop accepted => cases hr

/-- A program that is read is that of the source, whatever the watchdog. -/
theorem parse_of_read (h : (read pace options source).1 = .ok program)
    : ((Parser.ofSource source .silent).parse).1 = .ok program :=
  (readsTo_read pace options source).parse_eq h

/-- A source that spells no program is refused. -/
theorem exists_read_error (pace : Pace) (options : Options)
    (h : LineByLine.program? source = none)
    : ∃ fault, (read pace options source).1 = .error fault := by
  cases hread : (read pace options source).1 with
  | error fault => exact ⟨fault, rfl⟩
  | ok program =>
      rw [(Parser.parse_eq_ok_iff.1 (parse_of_read hread)).1] at h
      cases h

/-- A fault that is found is one of the source, or the watchdog was there first. -/
theorem fault_of_read (h : (read pace options source).1 = .error fault)
    : ((Parser.ofSource source .silent).parse).1 = .error fault
      ∨ ∃ stop : Cursor, fault = ⟨.timeout, stop.location⟩ := by
  have hto := readsTo_read pace options source
  generalize read pace options source = result at h hto
  cases hto with
  | undisturbed => exact Or.inl h
  | early stop => exact Or.inr ⟨stop, (Except.error.inj h).symm⟩
  | behind stop accepted => exact Or.inr ⟨stop, (Except.error.inj h).symm⟩

-----------------------------------------------------------------------------------------
-- Warnings
-----------------------------------------------------------------------------------------

/-- Nothing is remarked on a source with a fault. -/
theorem remarks_of_error (options : Options) (h : (Parser.undisturbed source).1 = .error fault)
    : remarks options source = [] := by
  have hnotices : (Parser.undisturbed source).2.notices = [] := Parser.notices_of_readBlock_error h
  rw [remarks, hnotices, List.map_nil, ite_self]

/-- There is at most one remark, a warning, and only where warnings are asked for and the source is
without a fault. -/
theorem warnings_of_remarks (options : Options) (source : String)
    : remarks options source = []
      ∨ ∃ text program,
          remarks options source = [.warned text]
          ∧ options.warnings = true
          ∧ (Parser.undisturbed source).1 = .ok program := by
  cases hp : (Parser.undisturbed source).1 with
  | error fault => exact Or.inl (remarks_of_error options hp)
  | ok program =>
      obtain ⟨nest, hnests, -⟩ := Parser.exists_nests_of_parse hp
      have hnotices : (Parser.undisturbed source).2.notices = Parser.noticesOn _ _ := hnests.parse.2
      rw [remarks, hnotices, Parser.noticesOn]
      by_cases hw : options.warnings = true
      · rw [if_pos hw]
        split
        · exact Or.inl rfl
        · exact Or.inr ⟨_, program, rfl, hw, rfl⟩
      · exact Or.inl (if_neg hw)

/-- Reading gives at most one warning, and only where warnings are asked for and the source is
without a fault. Then its program is read, unless the watchdog fires behind the end of the source.
-/
theorem warnings_of_read (pace : Pace) (options : Options) (source : String)
    : (read pace options source).2 = []
      ∨ ∃ text program,
          (read pace options source).2 = [.warned text]
          ∧ options.warnings = true
          ∧ ((Parser.ofSource source .silent).parse).1 = .ok program
          ∧ ((read pace options source).1 = .ok program
            ∨ ∃ place, (read pace options source).1 = .error ⟨.timeout, place⟩) := by
  have hremarks := warnings_of_remarks options source
  have hto := readsTo_read pace options source
  generalize read pace options source = result at hto ⊢
  cases hto with
  | early stop => exact Or.inl rfl
  | behind stop accepted =>
      refine hremarks.imp id ?_
      rintro ⟨text, program, htext, hwarnings, hprogram⟩
      exact ⟨text, program, htext, hwarnings, hprogram, Or.inr ⟨_, rfl⟩⟩
  | undisturbed =>
      refine hremarks.imp id ?_
      rintro ⟨text, program, htext, hwarnings, hprogram⟩
      exact ⟨text, program, htext, hwarnings, hprogram, Or.inl hprogram⟩

end Session

end LoopCalc
