import LoopCalc.Proofs.Execution.Traces
import LoopCalc.Proofs.Session.Mirror
import LoopCalc.Proofs.Session.Reading

/-! A run goes through phases: it resets the variables, seeds `Ans`, reads the source, executes the
program, and tells its error if it has one. It can end after each of them. What it tells is what its
phases tell, one after the other, and the last phase that it reaches decides how it ends.
-/

namespace LoopCalc

/-- The reset of a new machine is all that it has told, and its variables are zero. -/
theorem Machine.reset_start (s : Store) (location : Option Location)
    : (start s location).reset = (start .blank location).precededBy Event.reset.toArray := by
  rw [reset, foldl_tell, start, start, precededBy]
  simp

/-- What a run can tell of between its reset and its error. -/
inductive Event.Ordinary : Event → Prop
  | assigned (v : Variable) (x : Number) : Ordinary (.assigned v x)
  | printed (text : String) : Ordinary (.printed text)
  | warned (text : String) : Ordinary (.warned text)

namespace Session

-----------------------------------------------------------------------------------------
-- The phases of a run
-----------------------------------------------------------------------------------------

/-- A session in which nothing has happened but that `Ans` has taken a value. -/
def seeded (ans : Number) (options : Options) : Session :=
  ⟨Store.blank.set .ans ans, none, options⟩

/-- What a run tells last: the text of its error, if it has one. -/
def parting (ending : Ending) : List Event :=
  (ending.error?.map .failed).toList

/-- At the end of a run the text of its error is told. -/
theorem conclude_eq (ending : Ending) (m : Machine)
    : conclude ending m = { m with trace := m.trace ++ parting ending } := by
  rw [conclude, parting]
  cases ending.error? with
  | none => simp
  | some text => simp [Machine.tell]

/-- An execution does the same behind any events. -/
theorem executeOn_precededBy (options : Options) (pace : Pace) (program : Program) (m : Machine)
    (told : Array Event)
    : executeOn options pace program (m.precededBy told)
      = ((executeOn options pace program m).1,
          (executeOn options pace program m).2.precededBy told) := by
  rw [executeOn, executeOn, Program.unmindful_exec]
  cases Program.exec ⟨pace, options.loopTimeout⟩ program m <;> rfl

variable (s : Session) (pace : Pace) {source : String} {ans : Number} {options : Options}

/-- A start value that is not finite ends the run before the source is read. -/
theorem run_of_not_finite (source : String) (options : Options) (h : ans.isFinite = false)
    : s.run pace source ans options
      = ⟨.aborted ⟨.ans, ans⟩, ⟨.blank, none, options⟩,
          Event.reset ++ parting (.aborted ⟨.ans, ans⟩)⟩ := by
  rw [run, runOn, Exec.assign_of_not_finite h, Machine.reset_start]
  dsimp only [Ending.ofStop]
  rw [conclude_eq]
  simp [Machine.precededBy, Machine.start]

/-- The machine of a run when its source has been read. -/
theorem foldl_tell_seeded (ans : Number) (warnings : List Event)
    : warnings.foldl Machine.tell
        (((Machine.start .blank none).precededBy Event.reset.toArray).write .ans ans)
      = (Machine.start (Store.blank.set .ans ans) none).precededBy
          (Event.reset ++ .assigned .ans ans :: warnings).toArray := by
  rw [Machine.foldl_tell]
  simp [Machine.precededBy, Machine.start, Machine.write, Machine.tell]

/-- A source that cannot be read ends the run before anything is executed. -/
theorem run_of_rejected {fault : Fault} (h : ans.isFinite = true)
    (hr : (read pace options source).1 = .error fault)
    : s.run pace source ans options
      = ⟨.rejected fault, seeded ans options,
          Event.reset ++ .assigned .ans ans
            :: ((read pace options source).2 ++ parting (.rejected fault))⟩ := by
  have hread : read pace options source = (.error fault, (read pace options source).2) :=
    Prod.ext hr rfl
  generalize (read pace options source).2 = warnings at hread
  rw [run, runOn, Exec.assign_of_finite h, Machine.reset_start, hread]
  dsimp only
  rw [foldl_tell_seeded, conclude_eq]
  simp [Machine.precededBy, Machine.start, seeded]

/-- A run that gets to execute its program ends as that execution does, and tells what the execution
tells. -/
theorem run_of_read {program : Program} (h : ans.isFinite = true)
    (hr : (read pace options source).1 = .ok program)
    : let execution := (seeded ans options).execute pace program
      s.run pace source ans options
        = ⟨execution.ending, execution.session,
            Event.reset ++ .assigned .ans ans
              :: ((read pace options source).2
                ++ (execution.events ++ parting execution.ending))⟩ := by
  have hread : read pace options source = (.ok program, (read pace options source).2) :=
    Prod.ext hr rfl
  generalize (read pace options source).2 = warnings at hread
  dsimp only
  rw [run, runOn, Exec.assign_of_finite h, Machine.reset_start, hread]
  dsimp only
  rw [foldl_tell_seeded, executeOn_precededBy, conclude_eq, execute, seeded]
  simp [Machine.precededBy]

-----------------------------------------------------------------------------------------
-- The order of events
-----------------------------------------------------------------------------------------

/-- An execution tells of displays and of finite numbers written to its iterators. -/
theorem told_of_execute (program : Program)
    : ∀ event ∈ (s.execute pace program).events, event.Told (Program.iterators program) := by
  have hsteps := Program.stepwise_exec ⟨pace, s.options.loopTimeout⟩ program
    (.start s.store s.location)
  have htold := hsteps.onlyTold (fun event he => absurd he (List.not_mem_nil))
  rw [← snd_executeOn] at htold
  exact htold

/-- What is told between the reset and the error of a run that gets to read its source. -/
theorem ordinary_of_read (pace : Pace) (options : Options) (source : String)
    : ∀ event ∈ (read pace options source).2, event.Ordinary := by
  intro event he
  obtain hnone | ⟨text, program, hone, -⟩ := warnings_of_read pace options source
  · rw [hnone] at he
    cases he
  · rw [hone] at he
    obtain rfl := List.mem_singleton.1 he
    exact .warned text

/-- A run tells of its reset first and of its error last, and of neither between them. -/
theorem exists_told_run (source : String) (ans : Number) (options : Options)
    : let report := s.run pace source ans options
      ∃ told,
        report.events = Event.reset ++ (told ++ parting report.ending)
        ∧ ∀ event ∈ told, event.Ordinary := by
  dsimp only
  have hwarnings := ordinary_of_read pace options source
  cases hans : ans.isFinite with
  | false =>
      rw [run_of_not_finite s pace source options hans]
      exact ⟨[], rfl, by simp⟩
  | true =>
      cases hread : (read pace options source).1 with
      | error fault =>
          rw [run_of_rejected s pace hans hread]
          exact ⟨.assigned .ans ans :: (read pace options source).2, rfl,
            List.forall_mem_cons.2 ⟨.assigned .ans ans, hwarnings⟩⟩
      | ok program =>
          rw [run_of_read s pace hans hread]
          let execution := (seeded ans options).execute pace program
          refine ⟨.assigned .ans ans :: ((read pace options source).2 ++ execution.events), ?_,
            List.forall_mem_cons.2 ⟨.assigned .ans ans, ?_⟩⟩
          · rw [List.cons_append, List.append_assoc]
          · refine List.forall_mem_append.2 ⟨hwarnings, fun event he => ?_⟩
            cases told_of_execute _ pace program _ he with
            | printed text => exact .printed text
            | assigned counts finite => exact .assigned _ _

/-- The standard options with warnings. -/
def loud : Options :=
  { Options.standard with warnings := true }

/-- A loop with the start value for its bounds and step, left open. -/
def loopFromAnsSource : String :=
  "For(A,Ans,Ans,Ans\nDisp A"

/-- What it says, given the variable that it counts in. -/
def loopFromAns (v : Variable) : Program :=
  [.loop ⟨v, .reference .ans, .reference .ans, .reference .ans, ⟨1, 1⟩⟩
    [.disp (.reference v) ⟨2, 1⟩]]

/-- The pieces of the source, with the loop left open. -/
theorem nests_loopFromAns
    : Parser.Nests loopFromAnsSource
        ⟨[(⟨.letter 0, .reference .ans, .reference .ans, .reference .ans, ⟨1, 1⟩⟩, [])],
          [.disp (.reference (.letter 0)) ⟨2, 1⟩]⟩ :=
  ⟨by decide, rfl⟩

/-- A host on which the parse watchdog fires between the notice on that loop and the end of the
reading. -/
def hasty : Pace :=
  ⟨Clock.steady, 9, fun _ => .after 220⟩

end Session

end LoopCalc
