import LoopCalc.Host
import LoopCalc.Proofs.Execution.Steps

/-! In every state of a host, all variables are finite and the panel shows what the store holds. The
panel hears of writes only through events, so the events of an operation have to account for all
that it does to the store, also when it is refused, aborted, stopped by the clock or given up.
-/

namespace LoopCalc

-----------------------------------------------------------------------------------------
-- What a listener knows of the store
-----------------------------------------------------------------------------------------

/-- The event is a line for the reader and says nothing about variables. -/
def Event.isMessage : Event → Bool
  | printed _ | warned _ | failed _ => true
  | assigned .. | cleared => false

namespace Store

/-- Every variable holds a finite number. -/
def AllFinite (s : Store) : Prop :=
  ∀ v, (s.get v).isFinite = true

/-- The store as a listener knows it after it has been told something. -/
def follow (s : Store) : Event → Store
  | .assigned v x => s.set v x
  | .cleared | .printed _ | .warned _ | .failed _ => s

/-- All variables of a blank store are finite. -/
theorem allFinite_blank : AllFinite blank := by
  intro v
  rw [get_blank]
  rfl

/-- A message says nothing about variables. -/
theorem follow_message {event : Event} (h : event.isMessage = true) (s : Store)
    : s.follow event = s := by
  cases event with
  | assigned v x => cases h
  | cleared => cases h
  | printed text => rfl
  | warned text => rfl
  | failed text => rfl

/-- Messages say nothing about variables, by induction on them. -/
theorem foldl_follow_messages {events : List Event} (h : ∀ event ∈ events, event.isMessage = true)
    (s : Store)
    : events.foldl follow s = s := by
  induction events with
  | nil => rfl
  | cons event events ih =>
      rw [List.foldl_cons, follow_message (h event List.mem_cons_self)]
      exact ih fun later hl => h later (List.mem_cons_of_mem _ hl)

/-- Setting a variable to a finite number keeps all finite. -/
theorem AllFinite.set {s : Store} (h : AllFinite s) (v : Variable) {x : Number}
    (hx : x.isFinite = true)
    : AllFinite (s.set v x) := by
  intro w
  rw [Table.get_set]
  split
  · exact hx
  · exact h w

/-- Writes of zero, by induction on the variables written to. -/
theorem get_foldl_follow_zero (vs : List Variable) (s : Store) (w : Variable)
    : ((vs.map fun v => Event.assigned v .zero).foldl follow s).get w
      = if w ∈ vs then .zero else s.get w := by
  induction vs generalizing s with
  | nil => simp
  | cons v vs ih =>
      rw [List.map_cons, List.foldl_cons, ih, follow, Table.get_set]
      by_cases hw : w ∈ vs
      · simp [hw]
      · simp [hw, eq_comm]

/-- Whatever a listener knew, after a reset it knows that every variable is zero. -/
theorem foldl_follow_reset (s : Store) : Event.reset.foldl follow s = blank := by
  rw [Event.reset, List.foldl_append, List.foldl_cons, List.foldl_nil, follow]
  refine Table.ext_get fun v => ?_
  rw [get_foldl_follow_zero, if_pos (Variable.mem_all v), get_blank]

end Store

/-- A panel keeps the store as a listener knows it. -/
theorem Panel.store_observe (p : Panel) (event : Event)
    : (p.observe event).store = p.store.follow event := by
  cases event <;> rfl

/-- A panel knows of the store what any listener does, by induction on the events. -/
theorem Panel.store_foldl_observe (events : List Event) (p : Panel)
    : (events.foldl observe p).store = events.foldl Store.follow p.store := by
  induction events generalizing p with
  | nil => rfl
  | cons event events ih => rw [List.foldl_cons, ih, List.foldl_cons, store_observe]

-----------------------------------------------------------------------------------------
-- Machines that account for their store
-----------------------------------------------------------------------------------------

namespace Machine

/-- The machine holds finite numbers, and its trace leads from the given store to its own. -/
structure Accounts (before : Store) (m : Machine) : Prop where
  finite : m.store.AllFinite
  follows : m.trace.toList.foldl Store.follow before = m.store

variable {before : Store} {m : Machine}

/-- At the start nothing has been told, and nothing has changed. -/
theorem accounts_start {s : Store} (h : s.AllFinite) (location : Option Location)
    : (start s location).Accounts s :=
  ⟨h, rfl⟩

/-- Telling of events adds them to the trace and changes nothing else, by induction on them. -/
theorem foldl_tell (events : List Event) (m : Machine)
    : events.foldl Machine.tell m = { m with trace := m.trace ++ events } := by
  induction events generalizing m with
  | nil => simp
  | cons event events ih =>
      rw [List.foldl_cons, ih, tell]
      simp

/-- Messages can be told at any time. -/
theorem Accounts.tellAll {events : List Event} (h : m.Accounts before)
    (he : ∀ event ∈ events, event.isMessage = true)
    : (events.foldl Machine.tell m).Accounts before := by
  rw [foldl_tell]
  refine ⟨h.finite, ?_⟩
  rw [Array.toList_appendList, List.foldl_append, h.follows]
  exact Store.foldl_follow_messages he m.store

/-- A message needs no account, as it says nothing about variables. -/
theorem Accounts.tell {event : Event} (h : m.Accounts before) (he : event.isMessage = true)
    : (m.tell event).Accounts before :=
  tellAll h (List.forall_mem_singleton.2 he)

/-- A finite write is accounted for by its event. -/
theorem Accounts.write (h : m.Accounts before) (v : Variable) {x : Number}
    (hx : x.isFinite = true)
    : (m.write v x).Accounts before := by
  refine ⟨h.finite.set v hx, ?_⟩
  rw [Machine.write, Machine.tell, Array.toList_push, List.foldl_append, h.follows]
  rfl

/-- Every step is accounted for, by cases on the step. -/
theorem Accounts.step {iterators : List Variable} {next : Machine}
    (h : m.Accounts before) (hs : Step iterators m next)
    : next.Accounts before := by
  cases hs with
  | move location => exact ⟨h.finite, h.follows⟩
  | display operand => exact h.tell rfl
  | write counts finite => exact h.write _ finite
  | look => exact ⟨h.finite, h.follows⟩

/-- Steps are accounted for, as an invariant. -/
theorem Accounts.steps {iterators : List Variable} {next : Machine}
    (h : m.Accounts before) (hs : Steps iterators m next)
    : next.Accounts before :=
  hs.keeps (fun step accounts => accounts.step step) h

/-- A reset accounts for itself, whatever the variables were before. -/
theorem accounts_reset (before s : Store) (location : Option Location)
    : (start s location).reset.Accounts before := by
  rw [reset, foldl_tell]
  refine ⟨Store.allFinite_blank, ?_⟩
  rw [Array.toList_appendList]
  exact Store.foldl_follow_reset before

end Machine

-----------------------------------------------------------------------------------------
-- Sessions
-----------------------------------------------------------------------------------------

namespace Session

variable {before : Store} {m : Machine}

/-- Reading a source tells of no write. -/
theorem isMessage_read (pace : Pace) (options : Options) (source : String)
    : ∀ event ∈ (read pace options source).2, event.isMessage = true := by
  intro event h
  dsimp only [read] at h
  split at h
  · obtain ⟨notice, -, rfl⟩ := List.mem_map.1 h
    rfl
  · cases h

/-- An execution leaves the machine that the program leaves, however it ends. -/
theorem snd_executeOn (options : Options) (pace : Pace) (program : Program) (m : Machine)
    : (executeOn options pace program m).2
      = (Program.exec ⟨pace, options.loopTimeout⟩ program).leaves m := by
  rw [executeOn, Exec.leaves]
  cases Program.exec ⟨pace, options.loopTimeout⟩ program m <;> rfl

/-- An execution is accounted for, since it goes by steps. -/
theorem accounts_executeOn (options : Options) (pace : Pace) (program : Program)
    (h : m.Accounts before)
    : (executeOn options pace program m).2.Accounts before := by
  rw [snd_executeOn]
  exact h.steps (Program.stepwise_exec ⟨pace, options.loopTimeout⟩ program m)

/-- Each way that a run can end leaves a machine that accounts for its store. -/
theorem accounts_runOn (options : Options) (pace : Pace) (source : String) (ans : Number)
    (h : m.Accounts before)
    : (runOn options pace source ans m).2.Accounts before := by
  rw [runOn]
  cases hx : ans.isFinite with
  | false =>
      rw [Exec.assign_of_not_finite hx]
      exact h
  | true =>
      rw [Exec.assign_of_finite hx]
      have hread := (h.write .ans hx).tellAll (isMessage_read pace options source)
      dsimp only
      split
      · exact hread
      · exact accounts_executeOn options pace _ hread

/-- The text of an error needs no account. -/
theorem accounts_conclude (ending : Ending) (h : m.Accounts before)
    : (conclude ending m).Accounts before := by
  rw [conclude]
  split
  · exact h.tell rfl
  · exact h

/-- The report leaves finite numbers, and its events lead from the given store to the new one. -/
structure Report.Accounts (before : Store) (report : Report) : Prop where
  finite : report.session.store.AllFinite
  follows : report.events.foldl Store.follow before = report.session.store

/-- Every run is accounted for, whatever was in the session before: it starts with a reset. -/
theorem accounts_run (s : Session) (pace : Pace) (source : String) (ans : Number)
    (options : Options)
    : (s.run pace source ans options).Accounts s.store := by
  have hreset := Machine.accounts_reset s.store s.store none
  have h := accounts_conclude (runOn options pace source ans (Machine.start s.store none).reset).1
    (accounts_runOn options pace source ans hreset)
  exact ⟨h.finite, h.follows⟩

/-- Every execution is accounted for in a session with finite variables. -/
theorem accounts_execute {s : Session} (h : s.store.AllFinite) (pace : Pace) (program : Program)
    : (s.execute pace program).Accounts s.store := by
  have he := accounts_executeOn s.options pace program (Machine.accounts_start h s.location)
  exact ⟨he.finite, he.follows⟩

end Session

-----------------------------------------------------------------------------------------
-- Hosts
-----------------------------------------------------------------------------------------

namespace Host

/-- What can be asked of a host. When the watchdogs fire, and when a run is given up, are the
world's choice, so the pace is part of the request. -/
inductive Request where
  | run (pace : Pace) (source : String) (ans : Number) (options : Options)
  | parse (pace : Pace) (source : String)
  | execute (pace : Pace) (program : Program)
  | lookup (name : String)
  | beginRun
  | clear

/-- The host after a request. A lookup only answers. -/
def serve (h : Host) : Request → Host
  | .run pace source ans options => (h.run pace source ans options).2.1
  | .parse pace source => (h.parse source pace).2.1
  | .execute pace program => (h.execute pace program).2.1
  | .lookup _ => h
  | .beginRun => h.beginRun
  | .clear => h.clear

/-- All variables are finite, and the panel shows the store. -/
structure Mirrored (h : Host) : Prop where
  finite : h.session.store.AllFinite
  shown : h.panel.store = h.session.store

/-- The listeners of a host are told everything, each on its own, by induction on the events. -/
theorem foldl_observe (events : List Event) (h : Host)
    : events.foldl observe h
      = ⟨h.session, events.foldl Panel.observe h.panel,
          events.foldl Transcript.observe h.transcript⟩ := by
  induction events generalizing h with
  | nil => rfl
  | cons event events ih => exact ih _

/-- An execution that is accounted for keeps the panel in step with the store. -/
theorem Mirrored.settle {h : Host} (hm : h.Mirrored) {report : Session.Report}
    (ha : report.Accounts h.session.store)
    : (h.settle report).Mirrored := by
  rw [Host.settle, foldl_observe]
  refine ⟨ha.finite, ?_⟩
  rw [Panel.store_foldl_observe, hm.shown]
  exact ha.follows

/-- Messages keep the panel in step with the store. -/
theorem Mirrored.hear {h : Host} (hm : h.Mirrored) {events : List Event}
    (he : ∀ event ∈ events, event.isMessage = true)
    : (events.foldl observe h).Mirrored := by
  rw [foldl_observe]
  refine ⟨hm.finite, ?_⟩
  rw [Panel.store_foldl_observe, Store.foldl_follow_messages he]
  exact hm.shown

/-- One request keeps the panel in step with the store. -/
theorem Mirrored.serve {h : Host} (hm : h.Mirrored) (request : Request)
    : (h.serve request).Mirrored := by
  cases request with
  | run pace source ans options =>
      exact hm.settle (h.session.accounts_run pace source ans options)
  | parse pace source =>
      exact hm.hear (Session.isMessage_read pace h.session.options source)
  | execute pace program => exact hm.settle (Session.accounts_execute hm.finite pace program)
  | lookup name => exact hm
  | beginRun => exact ⟨hm.finite, hm.shown⟩
  | clear => exact ⟨hm.finite, hm.shown⟩

/-- In a fresh host the panel shows the store. -/
theorem mirrored_fresh : fresh.Mirrored :=
  ⟨Store.allFinite_blank, rfl⟩

/-- Whatever is asked of a host, the panel stays in step with the store. By induction on the
requests. -/
theorem Mirrored.foldl_serve {h : Host} (hm : h.Mirrored) (requests : List Request)
    : (requests.foldl Host.serve h).Mirrored := by
  induction requests generalizing h with
  | nil => exact hm
  | cons request requests ih => exact ih (hm.serve request)

/-- After any requests, every variable is finite and stands in the panel with the same encoding. -/
theorem finite_and_shown_after (requests : List Request) (v : Variable)
    : let h := requests.foldl serve fresh
      (h.session.store.get v).isFinite = true
      ∧ (h.panel.store.get v).toBits = (h.session.store.get v).toBits := by
  have hm := mirrored_fresh.foldl_serve requests
  refine ⟨hm.finite v, ?_⟩
  rw [hm.shown]

end Host

end LoopCalc
