import LoopCalc.Proofs.Number.Texts
import LoopCalc.Proofs.Parsing.Failing
import LoopCalc.Proofs.Session.Errors

/-! Every message of a run is one line. Messages are put together from fixed words, numbers and
names of variables, and the one cause of a fault that quotes the language quotes the comma of a
header. So what a transcript counts as a line has no line end inside.
-/

namespace LoopCalc

-----------------------------------------------------------------------------------------
-- Texts without line ends
-----------------------------------------------------------------------------------------

/-- The text has no line end. -/
def Text.IsLine (text : String) : Prop :=
  '\n' ∉ text.toList

namespace Text

instance (text : String) : Decidable (IsLine text) :=
  inferInstanceAs (Decidable ('\n' ∉ text.toList))

/-- Two texts without a line end have none together. -/
theorem IsLine.append {front back : String} (hfront : IsLine front) (hback : IsLine back)
    : IsLine (front ++ back) := by
  rw [IsLine, String.toList_append, List.mem_append, not_or]
  exact ⟨hfront, hback⟩

/-- A text is one line if no character of it is a line end. -/
theorem isLine_ofList {cs : List Char} (h : '\n' ∉ cs) : IsLine (String.ofList cs) := by
  rwa [IsLine, String.toList_ofList]

/-- Characters of a kind that line ends are not of. -/
theorem not_mem_of_forall {p : Char → Bool} {cs : List Char} (hp : p '\n' = false)
    (h : ∀ c ∈ cs, p c = true)
    : '\n' ∉ cs := by
  intro hm
  rw [h _ hm] at hp
  cases hp

/-- Digits are no line ends. -/
theorem not_mem_toDigits (n : Nat) : '\n' ∉ Nat.toDigits 10 n :=
  not_mem_of_forall (by decide) fun _ => Nat.isDigit_of_mem_toDigits (by decide) (by decide)

/-- A natural number is written on one line. -/
theorem isLine_repr (n : Nat) : IsLine n.repr := by
  rw [Nat.repr_eq_ofList_toDigits]
  exact isLine_ofList (not_mem_toDigits n)

end Text

open Text (IsLine)

/-- A location is written on one line. -/
theorem Location.isLine_text (l : Location) : IsLine l.text :=
  ((Text.isLine_repr l.line).append (by decide)).append (Text.isLine_repr l.column)

/-- Names hold no line end. -/
theorem Variable.not_mem_chars (v : Variable) : '\n' ∉ v.chars :=
  (Word.name v).not_mem_chars (by decide)

/-- A signed number holds no line end if it holds none without its sign. -/
theorem Sign.not_mem_write (sign : Sign) {body : List Char}
    (h : ∀ c ∈ body, Text.isNumberChar c = true)
    : '\n' ∉ sign.write body := by
  have hbody : '\n' ∉ body := Text.not_mem_of_forall (by decide) h
  cases sign with
  | plus => exact hbody
  | minus => simpa [write] using hbody

/-- Numbers are written without a line end, by cases on the number. -/
theorem Number.not_mem_chars (x : Number) : '\n' ∉ x.chars := by
  cases x with
  | nan => decide
  | infinite sign => cases sign <;> decide
  | finite sign k =>
      rw [chars]
      split
      · decide
      split
      · exact sign.not_mem_write fun c => Decimal.isNumberChar_of_mem_positional
      · exact sign.not_mem_write fun c => Decimal.isNumberChar_of_mem_scientific

/-- The message of an abort is one line, since it names just a variable. -/
theorem Abort.isLine_message (a : Abort) : IsLine a.message :=
  (IsLine.append (by decide) (Text.isLine_ofList a.name.not_mem_chars)).append (by decide)

/-- The message of a notice is one line. -/
theorem Notice.isLine_message (n : Notice) : IsLine n.message := by
  have hdetail : IsLine n.detail :=
    (IsLine.append (by decide) (Text.isLine_repr n.unclosed)).append (by decide)
  exact ((IsLine.append (by decide) n.location.isLine_text).append (by decide)).append hdetail

-----------------------------------------------------------------------------------------
-- Faults
-----------------------------------------------------------------------------------------

/-- If the fault quotes a text that it misses, this is a comma. -/
def Fault.MissesComma (fault : Fault) : Prop :=
  ∀ text, fault.cause = .expected text → text = ","

/-- The message of a fault is one line if what it quotes is a comma, by cases on the cause. -/
theorem Fault.MissesComma.isLine_message {fault : Fault} (h : fault.MissesComma)
    : IsLine fault.message := by
  have hdetail : IsLine fault.cause.detail := by
    rw [MissesComma] at h
    generalize fault.cause = cause at h
    cases cause with
    | expected text =>
        rw [h text rfl]
        decide
    | misplaced keyword => cases keyword <;> decide
    | _ => decide
  exact ((IsLine.append (by decide) fault.location.isLine_text).append (by decide)).append hdetail

namespace Scan

variable {c stop : Cursor} {fault : Fault}

/-- Reading an operand misses no text at all. -/
theorem missesComma_of_operand (h : operand c = .error fault stop) : fault.MissesComma := by
  rw [operand_eq_error h]
  rintro _ ⟨⟩

/-- Reading an operand behind a comma misses the comma, or nothing. -/
theorem missesComma_of_nextOperand (h : nextOperand c = .error fault stop)
    : fault.MissesComma := by
  rcases bind_eq_error.1 h with h | ⟨_, _, -, h⟩
  · rw [expect_eq_error h]
    rintro _ ⟨⟩
    rfl
  · exact missesComma_of_operand h

/-- Behind its keyword, a header misses a comma or nothing. -/
theorem missesComma_of_header {location : Location}
    (hk : c.startsWith Keyword.loop.chars = true) (h : header location c = .error fault stop)
    : fault.MissesComma := by
  rcases bind_eq_error.1 h with h | ⟨_, _, -, h⟩
  · exact absurd h (expect_ne_error hk)
  rcases bind_eq_error.1 h with h | ⟨_, _, -, h⟩
  · rcases iterator_eq_error h with rfl | ⟨_, _, -, -, rfl⟩ <;> rintro _ ⟨⟩
  rcases bind_eq_error.1 h with h | ⟨_, _, -, h⟩
  · exact missesComma_of_nextOperand h
  rcases bind_eq_error.1 h with h | ⟨_, _, -, h⟩
  · exact missesComma_of_nextOperand h
  rcases bind_eq_error.1 h with h | ⟨_, middle, -, h⟩
  · rw [step, get_bind_apply] at h
    split at h
    · exact missesComma_of_nextOperand h
    · cases h
  rcases bind_eq_error.1 h with h | ⟨_, _, -, h⟩
  · exact absurd h closing_ne_error
  · cases h

end Scan

/-- A piece misses a comma or nothing, as it is read only where its keyword stands. -/
theorem Piece.missesComma_of_here {c stop : Cursor} {fault : Fault}
    (h : here c = .error fault stop)
    : fault.MissesComma := by
  rw [here, Scan.get_bind_apply] at h
  split at h
  · cases h
  split at h
  · next hk =>
    rcases checkLineStart_bind_eq_error h with rfl | ⟨-, h⟩
    · rintro _ ⟨⟩
    rcases Scan.bind_eq_error.1 h with h | ⟨_, _, -, h⟩
    · exact Scan.missesComma_of_header hk h
    · cases h
  split at h
  · next hk =>
    rcases checkLineStart_bind_eq_error h with rfl | ⟨-, h⟩
    · rintro _ ⟨⟩
    rcases Scan.bind_eq_error.1 h with h | ⟨_, _, -, h⟩
    · exact absurd h (Scan.expect_ne_error hk)
    rcases Scan.bind_eq_error.1 h with h | ⟨_, _, -, h⟩
    · exact Scan.missesComma_of_operand h
    · cases h
  split at h
  · next hk =>
    rcases checkLineStart_bind_eq_error h with rfl | ⟨-, h⟩
    · rintro _ ⟨⟩
    rcases Scan.bind_eq_error.1 h with h | ⟨_, _, -, h⟩
    · exact absurd h (Scan.expect_ne_error hk)
    · cases h
  · cases h
    rintro _ ⟨⟩

/-- A fault of a reading is that of a piece, or an `End` too many, by induction on the reading. -/
theorem Parser.missesComma_of_readBlock {stack : List OpenLoop} {block : List Statement}
    {p : Parser} {fault : Fault} (h : (readBlock stack block p).1 = .error fault)
    : fault.MissesComma := by
  fun_induction readBlock stack block p with
  | case1 stack block p found cursor hnext =>
      obtain rfl := Except.error.inj h
      exact Piece.missesComma_of_here hnext
  | case2 => cases h
  | case3 _ _ _ _ _ _ _ ih => exact ih h
  | case4 _ _ _ _ _ _ ih => exact ih h
  | case5 =>
      obtain rfl := Except.error.inj h
      rintro _ ⟨⟩
  | case6 => cases h
  | case7 _ _ _ _ _ _ _ _ ih => exact ih h

/-- A source that cannot be read misses a comma or nothing, also where the watchdog stops it. -/
theorem Session.missesComma_of_read_error {pace : Pace} {options : Options} {source : String}
    {fault : Fault} (h : (read pace options source).1 = .error fault)
    : fault.MissesComma := by
  obtain hparse | ⟨stop, rfl⟩ := fault_of_read h
  · exact Parser.missesComma_of_readBlock hparse
  · rintro _ ⟨⟩

-----------------------------------------------------------------------------------------
-- Runs
-----------------------------------------------------------------------------------------

/-- A message is one line. -/
def Event.IsLine (event : Event) : Prop :=
  ∀ line, event.line? = some line → Text.IsLine line.text

/-- A step tells single lines only, by cases on the step. -/
theorem Machine.Step.tellsLines {iterators : List Variable} {m next : Machine}
    (hs : Step iterators m next) (h : ∀ event ∈ m.trace.toList, event.IsLine)
    : ∀ event ∈ next.trace.toList, event.IsLine := by
  have htell : ∀ (m : Machine) (event : Event), (∀ told ∈ m.trace.toList, told.IsLine)
      → event.IsLine → ∀ told ∈ (m.tell event).trace.toList, told.IsLine := by
    intro m event htrace hevent told ht
    rw [Machine.tell, Array.toList_push, List.mem_append, List.mem_singleton] at ht
    rcases ht with ht | rfl
    · exact htrace told ht
    · exact hevent
  cases hs with
  | move location => exact h
  | display operand =>
      refine htell m _ h ?_
      rintro line ⟨⟩
      exact Text.isLine_ofList (m.value operand).not_mem_chars
  | @write v x counts finite =>
      refine htell { m with store := m.store.set v x } (.assigned v x) h ?_
      rintro line ⟨⟩
  | look => exact h

namespace Session

variable (s : Session) (pace : Pace)

/-- An execution tells single lines only, as an invariant of its steps. -/
theorem isLine_of_execute (program : Program)
    : ∀ event ∈ (s.execute pace program).events, event.IsLine := by
  have hsteps := Program.stepwise_exec ⟨pace, s.options.loopTimeout⟩ program
    (.start s.store s.location)
  have hlines := hsteps.keeps (fun step h => step.tellsLines h)
    (fun event he => absurd he List.not_mem_nil)
  rw [← snd_executeOn] at hlines
  exact hlines

/-- Reading tells single lines only. -/
theorem isLine_of_read (options : Options) (source : String)
    : ∀ event ∈ (read pace options source).2, event.IsLine := by
  intro event he
  dsimp only [read] at he
  split at he
  · obtain ⟨notice, -, rfl⟩ := List.mem_map.1 he
    rintro line ⟨⟩
    exact notice.isLine_message
  · cases he

/-- The last event of a run is a single line. -/
theorem isLine_of_parting {ending : Ending}
    (h : ∀ fault, ending = .rejected fault → fault.MissesComma)
    : ∀ event ∈ parting ending, event.IsLine := by
  intro event he
  obtain ⟨text, ht, rfl⟩ := Option.map_eq_some_iff.1 (Option.mem_toList.1 he)
  rintro line ⟨⟩
  cases ending with
  | completed => cases ht
  | unfinished => cases ht
  | rejected fault =>
      cases ht
      exact (h fault rfl).isLine_message
  | aborted abort =>
      cases ht
      exact abort.isLine_message

/-- An execution that fails has aborted: nothing is left to refuse. -/
theorem ending_execute_ne_rejected (program : Program) (fault : Fault)
    : (s.execute pace program).ending ≠ .rejected fault := by
  dsimp only [execute, executeOn]
  cases Program.exec ⟨pace, s.options.loopTimeout⟩ program (.start s.store s.location) with
  | ok _ m => simp
  | error stop m => cases stop <;> simp [Ending.ofStop]

/-- Whatever the source and however the run ends, each of its messages is one line. -/
theorem isLine_of_run (source : String) (ans : Number) (options : Options)
    : ∀ event ∈ (s.run pace source ans options).events, event.IsLine := by
  have hreset : ∀ event ∈ Event.reset, event.IsLine := by
    intro event he line hl
    rw [List.filterMap_eq_nil_iff.1 Event.filterMap_line?_reset event he] at hl
    cases hl
  have hassigned : (Event.assigned .ans ans).IsLine := by rintro line ⟨⟩
  cases hans : ans.isFinite with
  | false =>
      rw [run_of_not_finite s pace source options hans]
      exact List.forall_mem_append.2 ⟨hreset, isLine_of_parting (by simp)⟩
  | true =>
      cases hread : (read pace options source).1 with
      | error fault =>
          have hfault := missesComma_of_read_error hread
          rw [run_of_rejected s pace hans hread]
          refine List.forall_mem_append.2 ⟨hreset, List.forall_mem_cons.2 ⟨hassigned, ?_⟩⟩
          refine List.forall_mem_append.2 ⟨isLine_of_read pace options source, ?_⟩
          exact isLine_of_parting (by rintro _ ⟨⟩; exact hfault)
      | ok program =>
          rw [run_of_read s pace hans hread]
          refine List.forall_mem_append.2 ⟨hreset, List.forall_mem_cons.2 ⟨hassigned, ?_⟩⟩
          refine List.forall_mem_append.2 ⟨isLine_of_read pace options source, ?_⟩
          refine List.forall_mem_append.2 ⟨isLine_of_execute _ pace program, ?_⟩
          exact isLine_of_parting fun fault h =>
            absurd h (ending_execute_ne_rejected _ pace program fault)

end Session

end LoopCalc
