import LoopCalc.Proofs.Session.Mirror

/-! What the listeners of a session make of its events. A transcript grows by the lines that the
events are, a panel counts the writes on top of those before, and after a reset nothing but that
count is left of what a panel knew.
-/

namespace LoopCalc

/-- The line that an event adds to a transcript. -/
def Event.line? : Event → Option Transcript.Line
  | printed text => some ⟨.output, text⟩
  | warned text => some ⟨.warning, text⟩
  | failed text => some ⟨.error, text⟩
  | assigned .. | cleared => none

/-- A reset is no matter for a transcript. -/
theorem Event.filterMap_line?_reset : Event.reset.filterMap Event.line? = [] := by
  refine List.filterMap_eq_nil_iff.2 fun event he => ?_
  rcases List.mem_append.1 he with he | he
  · obtain ⟨v, -, rfl⟩ := List.mem_map.1 he
    rfl
  · obtain rfl := List.mem_singleton.1 he
    rfl

/-- A transcript grows by the lines of the events, by induction on the events. -/
theorem Transcript.lines_foldl_observe (events : List Event) (t : Transcript)
    : (events.foldl observe t).lines.toList = t.lines.toList ++ events.filterMap Event.line? := by
  induction events generalizing t with
  | nil => exact (List.append_nil _).symm
  | cons event events ih =>
      rw [List.foldl_cons, ih, List.filterMap_cons]
      cases event <;> simp [observe, push, Event.line?]

namespace Panel

/-- The panel, had so many writes come before all that it counted. -/
def precededBy (writes : Nat) (p : Panel) : Panel :=
  { p with writes := writes + p.writes }

/-- What a panel makes of events does not depend on how many writes it had counted before. -/
theorem foldl_observe_precededBy (writes : Nat) (events : List Event) (p : Panel)
    : events.foldl observe (p.precededBy writes) = (events.foldl observe p).precededBy writes := by
  induction events generalizing p with
  | nil => rfl
  | cons event events ih =>
      have hstep : (p.precededBy writes).observe event = (p.observe event).precededBy writes := by
        cases event <;> rfl
      rw [List.foldl_cons, hstep, ih, List.foldl_cons]

/-- Each variable that becomes zero counts as a write. By induction on the variables. -/
theorem writes_foldl_observe_zero (vs : List Variable) (p : Panel)
    : ((vs.map fun v => Event.assigned v .zero).foldl observe p).writes = p.writes + vs.length := by
  induction vs generalizing p with
  | nil => rfl
  | cons v vs ih =>
      rw [List.map_cons, List.foldl_cons, ih, List.length_cons]
      simp only [observe, write, Nat.add_assoc, Nat.add_comm 1]

/-- Whatever a panel knew, after a reset all is zero and unmarked. -/
theorem foldl_observe_reset (p : Panel)
    : Event.reset.foldl observe p = ⟨.blank, noMarks, p.writes + Variable.all.length⟩ := by
  have hstore := store_foldl_observe Event.reset p
  rw [Store.foldl_follow_reset] at hstore
  rw [Event.reset, List.foldl_append] at hstore ⊢
  have hwrites := writes_foldl_observe_zero Variable.all p
  generalize (Variable.all.map fun v => Event.assigned v .zero).foldl observe p = q at *
  have hstore : q.store = .blank := hstore
  simp only [List.foldl_cons, List.foldl_nil, observe, clearMarks, hstore, hwrites]

/-- From a reset on, a panel shows the same as any other, and its count differs by what it had
counted before. -/
theorem foldl_observe_of_reset (events : List Event) (p : Panel)
    : (Event.reset ++ events).foldl observe p
      = ((Event.reset ++ events).foldl observe fresh).precededBy p.writes := by
  have hreset : Event.reset.foldl observe p
      = (Event.reset.foldl observe fresh).precededBy p.writes := by
    rw [foldl_observe_reset, foldl_observe_reset]
    simp [precededBy, fresh]
  rw [List.foldl_append, hreset, foldl_observe_precededBy, List.foldl_append]

/-- Messages are not for a panel. -/
theorem foldl_observe_messages {events : List Event} (h : ∀ event ∈ events, event.isMessage = true)
    (p : Panel)
    : events.foldl observe p = p := by
  induction events with
  | nil => rfl
  | cons event events ih =>
      have hstep : p.observe event = p := by
        cases event with
        | assigned v x => cases h _ List.mem_cons_self
        | cleared => cases h _ List.mem_cons_self
        | _ => rfl
      rw [List.foldl_cons, hstep]
      exact ih fun later hl => h later (List.mem_cons_of_mem _ hl)

end Panel

namespace Host

variable (h : Host) (report : Session.Report)

/-- After an execution the host has the session that was left. -/
theorem session_settle : (h.settle report).session = report.session := by
  rw [settle, foldl_observe]

/-- After an execution the panel has heard of the events. -/
theorem panel_settle : (h.settle report).panel = report.events.foldl Panel.observe h.panel := by
  rw [settle, foldl_observe]

/-- After an execution the transcript has the lines of the events at its end. -/
theorem lines_settle
    : (h.settle report).transcript.lines.toList
      = h.transcript.lines.toList ++ report.events.filterMap Event.line? := by
  rw [settle, foldl_observe]
  exact Transcript.lines_foldl_observe report.events h.transcript

end Host

end LoopCalc
