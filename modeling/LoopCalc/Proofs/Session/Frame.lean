import LoopCalc.Proofs.Session.Phases

/-! What executions and runs leave alone. An execution writes to the iterators of its program and to
nothing else. No loop of a program that was read counts in `Ans`, so a run keeps its start value to
the end, whichever end that is.
-/

namespace LoopCalc

-----------------------------------------------------------------------------------------
-- No loop of a program that was read counts in `Ans`
-----------------------------------------------------------------------------------------

/-- The iterators of a program stand in the order of its text. -/
theorem Program.iterators_inTextOrder : InTextOrder Program.iterators fun h => [h.iterator] :=
  .of_cons rfl (fun _ _ => rfl) fun _ _ => rfl

/-- No loop of a program that was read counts in `Ans`, as the pieces that it is made of do not. -/
theorem Parser.ans_not_mem_of_parse {source : String} {program : Program}
    (h : ((ofSource source .silent).parse).1 = .ok program)
    : .ans ∉ Program.iterators program := by
  obtain ⟨whole, hn, rfl⟩ := exists_nests_of_parse h
  have hother : ∀ v ∈ Program.iterators whole.program, v ≠ .ans := by
    refine LineByLine.Nest.forall_mem_of_foldlM Program.iterators_inTextOrder ?_ hn.foldlM_eq ?_
    · intro s location v hv
      cases s with
      | close after => cases hv
      | disp before word after => cases hv
      | header s =>
          obtain rfl := List.mem_singleton.1 hv
          exact s.counts
    · intro v hv
      cases hv
  exact fun hmem => hother .ans hmem rfl

-----------------------------------------------------------------------------------------
-- What is left alone
-----------------------------------------------------------------------------------------

namespace Session

variable (s : Session) (pace : Pace)

/-- An execution keeps the value of every variable that no loop of its program counts in. -/
theorem get_execute {program : Program} {v : Variable} (hv : v ∉ Program.iterators program)
    : (s.execute pace program).session.store.get v = s.store.get v := by
  have hsteps := Program.stepwise_exec ⟨pace, s.options.loopTimeout⟩ program
    (.start s.store s.location)
  rw [← snd_executeOn] at hsteps
  exact hsteps.get_eq hv

/-- It does not tell of such a variable either. -/
theorem not_mem_events_execute {program : Program} {v : Variable}
    (hv : v ∉ Program.iterators program) (x : Number)
    : .assigned v x ∉ (s.execute pace program).events := by
  intro hmem
  cases s.told_of_execute pace program _ hmem with
  | assigned counts finite => exact hv counts

/-- In a seeded session `Ans` has the start value, and all else is zero. -/
theorem get_seeded (ans : Number) (options : Options) (v : Variable)
    : (seeded ans options).store.get v = if v = .ans then ans else .zero := by
  rw [seeded, Table.get_set, Store.get_blank]
  exact if_congr eq_comm rfl rfl

/-- A run leaves a variable as it was seeded unless a loop of the program that it read counts in
it. -/
theorem get_run {source : String} {ans : Number} {options : Options} {v : Variable}
    (h : ans.isFinite = true)
    (hv : ∀ program, (read pace options source).1 = .ok program → v ∉ Program.iterators program)
    : (s.run pace source ans options).session.store.get v = if v = .ans then ans else .zero := by
  rw [← get_seeded ans options v]
  cases hread : (read pace options source).1 with
  | error fault => rw [run_of_rejected s pace h hread]
  | ok program =>
      rw [run_of_read s pace h hread]
      exact get_execute _ pace (hv program hread)

/-- Executing a program leaves every variable alone that no loop of it counts in, and tells nothing
of it. After a run, however it ends, `Ans` holds the start value, and every other variable that no
loop of the program counts in, or every other one if no program was read, is zero. -/
theorem only_iterators_written
    : (∀ (program : Program) (v : Variable), v ∉ Program.iterators program
        → (s.execute pace program).session.store.get v = s.store.get v
          ∧ ∀ x, .assigned v x ∉ (s.execute pace program).events)
      ∧ ∀ (source : String) (ans : Number) (options : Options), ans.isFinite = true
        → (s.run pace source ans options).session.store.get .ans = ans
          ∧ ∀ v, v ≠ .ans
            → (∀ program, (read pace options source).1 = .ok program
                → v ∉ Program.iterators program)
            → (s.run pace source ans options).session.store.get v = .zero := by
  constructor
  · intro program v hv
    exact ⟨s.get_execute pace hv, s.not_mem_events_execute pace hv⟩
  · intro source ans options hans
    constructor
    · refine (s.get_run pace hans ?_).trans (if_pos rfl)
      intro program hread
      exact Parser.ans_not_mem_of_parse (parse_of_read hread)
    · intro v hne hv
      exact (s.get_run pace hans hv).trans (if_neg hne)

/-- A loop whose bounds and step are all the start value. From a zero only its deadline stops it. -/
def ansLoopSource : String :=
  "For(theta,Ans,Ans,Ans)\nDisp theta"

/-- What it says. -/
def ansLoop : Program :=
  [.loop ⟨.theta, .reference .ans, .reference .ans, .reference .ans, ⟨1, 1⟩⟩
    [.disp (.reference .theta) ⟨2, 1⟩]]

/-- A loop that takes its bounds from `Ans` writes neither to `Ans` nor to a letter of no loop. -/
theorem only_iterators_written_ansLoop
    : (read .steady .standard ansLoopSource).1 = .ok ansLoop
      ∧ Variable.letter 0 ∉ Program.iterators ansLoop
      ∧ (Number.zeroOf .minus).isFinite = true
      ∧ (fresh.execute .steady ansLoop).session.store.get (.letter 0) = .zero
      ∧ (∀ x, .assigned (.letter 0) x ∉ (fresh.execute .steady ansLoop).events)
      ∧ (fresh.run .steady ansLoopSource (.zeroOf .minus) .standard).session.store.get .ans
        = .zeroOf .minus
      ∧ (fresh.run .steady ansLoopSource (.zeroOf .minus) .standard).session.store.get (.letter 0)
        = .zero := by
  have hread : (read .steady .standard ansLoopSource).1 = .ok ansLoop := by
    have hnests : Parser.Nests ansLoopSource
        ⟨[(⟨.theta, .reference .ans, .reference .ans, .reference .ans, ⟨1, 1⟩⟩, [])],
          [.disp (.reference .theta) ⟨2, 1⟩]⟩ :=
      ⟨by decide, rfl⟩
    exact hnests.parse.1
  have hletter : Variable.letter 0 ∉ Program.iterators ansLoop := by decide
  obtain ⟨hexecute, hrun⟩ := only_iterators_written fresh .steady
  obtain ⟨hkept, huntold⟩ := hexecute ansLoop (.letter 0) hletter
  obtain ⟨hans, hothers⟩ := hrun ansLoopSource (.zeroOf .minus) .standard rfl
  refine ⟨hread, hletter, rfl, hkept.trans (Store.get_blank _), huntold, hans, ?_⟩
  refine hothers (.letter 0) (by decide) ?_
  intro program hprogram
  rw [hread] at hprogram
  exact Except.ok.inj hprogram ▸ hletter

end Session

end LoopCalc
