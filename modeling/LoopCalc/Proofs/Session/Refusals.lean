import LoopCalc.Proofs.Execution.Aborts
import LoopCalc.Proofs.Session.Phases

/-! Aborts to the point. When an execution aborts, its store, its place and its events are those of
the moment at which a loop was to write a number that is not finite. In a run such a number is
infinite: finite numbers cannot add up to anything else, and no literal is without a value.
-/

namespace LoopCalc

-----------------------------------------------------------------------------------------
-- Numbers that are no `nan`
-----------------------------------------------------------------------------------------

namespace Number

/-- Finite numbers have a sum, which may be infinite. -/
theorem addFinite_ne_nan (s : Sign) (j : Fin magnitudeCount) (t : Sign) (k : Fin magnitudeCount)
    : addFinite s j t k ≠ nan := by
  rw [addFinite]
  split
  · split <;> simp [zero, zeroOf]
  · exact ofMagnitude_ne_nan _ _

/-- Only opposite infinities have no sum. -/
theorem add_ne_nan {x y : Number} (hx : x.isFinite = true) (hy : y ≠ nan) : x + y ≠ nan := by
  cases x with
  | nan => cases hx
  | infinite s => cases hx
  | finite s j =>
      cases y with
      | nan => exact absurd rfl hy
      | infinite t => exact Number.noConfusion
      | finite t k => exact addFinite_ne_nan s j t k

/-- A number that is not finite is infinite, or is none. -/
theorem eq_nan_or_infinite {x : Number} (h : x.isFinite = false)
    : x = nan ∨ ∃ sign, x = infinite sign := by
  cases x with
  | nan => exact Or.inl rfl
  | infinite sign => exact Or.inr ⟨sign, rfl⟩
  | finite sign k => cases h

end Number

/-- As long as all variables are finite, an operand without `nan` has a value other than `nan`. -/
theorem Machine.value_ne_nan {m : Machine} (hm : m.store.AllFinite) {operand : Operand}
    (h : operand.IsNumeric)
    : m.value operand ≠ .nan := by
  cases operand with
  | literal x => exact fun hx => h (congrArg Operand.literal hx)
  | reference v =>
      intro hx
      have hfinite := hm v
      rw [show m.store.get v = .nan from hx] at hfinite
      cases hfinite

/-- What a header writes where all variables are finite is no `nan`. -/
theorem Header.Writes.ne_nan {h : Header} {x : Number} {m : Machine} (hw : h.Writes x m)
    (hm : m.store.AllFinite) (hstart : h.start.IsNumeric) (hstep : h.step.IsNumeric)
    : x ≠ .nan := by
  rcases hw.value_eq with rfl | rfl
  · exact Machine.value_ne_nan hm hstart
  · exact Number.add_ne_nan (hm h.iterator) (Machine.value_ne_nan hm hstep)

-----------------------------------------------------------------------------------------
-- The headers of a program that was read
-----------------------------------------------------------------------------------------

/-- The headers of a program stand in the order of its text. -/
theorem Program.headers_inTextOrder : InTextOrder Program.headers fun h => [h] :=
  .of_cons rfl (fun _ _ => rfl) fun _ _ => rfl

/-- No header that can be written holds `nan`, as no word stands for it. -/
theorem HeaderSpelling.isNumeric (s : HeaderSpelling) (location : Location)
    : (s.header location).start.IsNumeric ∧ (s.header location).step.IsNumeric := by
  refine ⟨s.start.word.isNumeric, ?_⟩
  rw [HeaderSpelling.header]
  cases s.step with
  | none => exact fun h => Number.ofMagnitude_ne_nan _ _ (Operand.literal.inj h)
  | some argument => exact argument.word.isNumeric

/-- No header of a program that was read holds `nan`. -/
theorem Parser.isNumeric_of_parse {source : String} {program : Program}
    (h : ((ofSource source .silent).parse).1 = .ok program)
    : ∀ header ∈ Program.headers program, header.start.IsNumeric ∧ header.step.IsNumeric := by
  obtain ⟨whole, hn, rfl⟩ := exists_nests_of_parse h
  refine LineByLine.Nest.forall_mem_of_foldlM Program.headers_inTextOrder ?_ hn.foldlM_eq ?_
  · intro s location header hh
    cases s with
    | close after => cases hh
    | disp before word after => cases hh
    | header s =>
        obtain rfl := List.mem_singleton.1 hh
        exact s.isNumeric location
  · intro header hh
    cases hh

-----------------------------------------------------------------------------------------
-- Aborts of executions and runs
-----------------------------------------------------------------------------------------

namespace Session

/-- An execution that aborts leaves the machine of a write that it came to. -/
theorem exists_attempt_of_execute {s : Session} {pace : Pace} {program : Program} {abort : Abort}
    (h : (s.execute pace program).ending = .aborted abort)
    : ∃ (header : Header) (last : Machine),
        Program.Attempts ⟨pace, s.options.loopTimeout⟩ program (.start s.store s.location) header
          abort.value last
        ∧ abort.name = header.iterator
        ∧ abort.value.isFinite = false
        ∧ (s.execute pace program).session = ⟨last.store, last.location, s.options⟩
        ∧ (s.execute pace program).events = last.trace.toList := by
  rw [execute, executeOn] at h ⊢
  cases hx : Program.exec ⟨pace, s.options.loopTimeout⟩ program
      (.start s.store s.location) with
  | ok _ next =>
      rw [hx] at h
      cases h
  | error stop last =>
      rw [hx] at h
      cases stop with
      | unfinished => cases h
      | aborted refused =>
          cases h
          obtain ⟨header, hattempts, hname, hvalue⟩ := Program.attempts_of_exec program hx
          exact ⟨header, last, hattempts, hname, hvalue, rfl, rfl⟩

/-- The number that a program of a source text cannot store is infinite. -/
theorem infinite_of_execute {s : Session} (hs : s.store.AllFinite) {options : Options}
    {source : String} {program : Program} (hread : (read pace options source).1 = .ok program)
    {pace : Pace} {abort : Abort} (h : (s.execute pace program).ending = .aborted abort)
    : ∃ sign, abort.value = .infinite sign := by
  obtain ⟨header, last, hattempts, -, hvalue, hsession, -⟩ := exists_attempt_of_execute h
  have hlast : last.store.AllFinite := by
    have hfinite := (accounts_execute hs pace program).finite
    rw [hsession] at hfinite
    exact hfinite
  obtain ⟨hstart, hstep⟩ :=
    Parser.isNumeric_of_parse (parse_of_read hread) header hattempts.mem_headers
  exact (Number.eq_nan_or_infinite hvalue).resolve_left
    (hattempts.writes.ne_nan hlast hstart hstep)

/-- An execution that aborts from finite variables leaves everything as it was when a header of the
program came to write a number that is not finite, as its start or after a step. In a run from a
finite start value this number is infinite. -/
theorem abort_is_precise (s : Session) (pace : Pace)
    : (∀ (program : Program) (abort : Abort), s.store.AllFinite
        → (s.execute pace program).ending = .aborted abort
        → let report := s.execute pace program
          (abort.value = .nan ∨ ∃ sign, abort.value = .infinite sign)
          ∧ (∃ h ∈ Program.headers program, ∃ last : Machine,
            abort.name = h.iterator
            ∧ Program.Attempts ⟨pace, s.options.loopTimeout⟩ program
              (.start s.store s.location) h abort.value last
            ∧ (abort.value = last.value h.start
              ∨ abort.value = last.store.get h.iterator + last.value h.step)
            ∧ report.session.location = some h.location
            ∧ report.session.store = last.store
            ∧ report.events = last.trace.toList)
          ∧ report.events.foldl Store.follow s.store = report.session.store
          ∧ (report.session.store.get abort.name).isFinite = true)
      ∧ ∀ (source : String) (ans : Number) (options : Options) (abort : Abort),
          ans.isFinite = true
          → (s.run pace source ans options).ending = .aborted abort
          → ∃ sign, abort.value = .infinite sign := by
  constructor
  · intro program abort hs hending
    have haccounts := accounts_execute hs pace program
    obtain ⟨header, last, hattempts, hname, hvalue, hsession, hevents⟩ :=
      exists_attempt_of_execute hending
    refine ⟨Number.eq_nan_or_infinite hvalue, ?_, haccounts.follows, haccounts.finite _⟩
    refine ⟨header, hattempts.mem_headers, last, hname, hattempts, hattempts.writes.value_eq, ?_,
      congrArg Session.store hsession, hevents⟩
    rw [hsession]
    exact hattempts.writes.location_eq
  · intro source ans options abort hans hending
    cases hread : (read pace options source).1 with
    | error fault =>
        rw [run_of_rejected s pace hans hread] at hending
        cases hending
    | ok program =>
        rw [run_of_read s pace hans hread] at hending
        have hseeded : (seeded ans options).store.AllFinite :=
          Store.allFinite_blank.set .ans hans
        exact infinite_of_execute hseeded hread hending

/-- The largest number. -/
def largest : Number :=
  .ofMagnitude .plus (Number.magnitudeCount - 1)

/-- A loop that makes one pass at the largest number, inside of another loop. -/
def nestedOverflow : Program :=
  [.loop ⟨.theta, .literal .zero, .literal .zero, .literal (.ofInt 1), ⟨1, 1⟩⟩
    [.loop ⟨.ans, .literal largest, .literal largest, .literal largest, ⟨2, 1⟩⟩
      [.disp (.reference .theta) ⟨3, 1⟩]]]

/-- A loop in the start value. -/
def overflowSource : String :=
  "For(A,Ans,Ans,Ans"

/-- The step past the largest number stops the inner loop, whose iterator keeps its finite value. -/
theorem abort_is_precise_overflow
    : (fresh.execute (.prompt id 3) nestedOverflow).ending = .aborted ⟨.ans, .infinite .plus⟩
      ∧ (fresh.execute (.prompt id 3) nestedOverflow).session.location = some ⟨2, 1⟩
      ∧ ((fresh.execute (.prompt id 3) nestedOverflow).session.store.get .ans).isFinite = true
      ∧ largest.isFinite = true
      ∧ ∃ abort, (fresh.run (.prompt id 3) overflowSource largest .standard).ending = .aborted abort
        ∧ ∃ sign, abort.value = .infinite sign := by
  have hending : (fresh.execute (.prompt id 3) nestedOverflow).ending
      = .aborted ⟨.ans, .infinite .plus⟩ := by
    decide +kernel
  have hread : (read (.prompt id 3) .standard overflowSource).1
      = .ok [.loop ⟨.letter 0, .reference .ans, .reference .ans, .reference .ans, ⟨1, 1⟩⟩ []] := by
    have hnests : Parser.Nests overflowSource
        ⟨[(⟨.letter 0, .reference .ans, .reference .ans, .reference .ans, ⟨1, 1⟩⟩, [])], []⟩ :=
      ⟨by decide, rfl⟩
    exact hnests.parse.1
  have hrun : (fresh.run (.prompt id 3) overflowSource largest .standard).ending
      = .aborted ⟨.letter 0, .infinite .plus⟩ := by
    rw [run_of_read fresh _ rfl hread]
    decide +kernel
  obtain ⟨hexecute, hruns⟩ := abort_is_precise fresh (.prompt id 3)
  obtain ⟨-, -, -, hfinite⟩ := hexecute nestedOverflow _ Store.allFinite_blank hending
  exact ⟨hending, by decide +kernel, hfinite, rfl, _, hrun, hruns _ _ _ _ rfl hrun⟩

end Session

end LoopCalc
