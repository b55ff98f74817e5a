import LoopCalc.Proofs.Session.History

/-! What the marks of a panel mean. A panel marks a variable when it hears of a number that differs
from the one it has, and the zeros of a reset are not to count. A run starts from its reset, so by
its end the marks tell which variables it has set to a number other than zero, if only for a
moment. Nothing that a panel knew before the run has a part in that.
-/

namespace LoopCalc

/-- The two zeros differ from the same numbers. -/
theorem Number.sameValue_of_isZero {x : Number} (hx : x.isZero = true) (y : Number)
    : x.sameValue y = y.isZero := by
  have hrank : x.rank? = some 0 := by
    rw [isZero, sameValue] at hx
    split at hx
    · next i j hi hj =>
      obtain rfl : 0 = j := Option.some.inj hj
      rw [hi, eq_of_beq hx]
    · cases hx
  rw [isZero, sameValue, sameValue, hrank, show zero.rank? = some 0 from rfl]
  cases y.rank? with
  | none => rfl
  | some j => exact Bool.beq_comm

/-- The event gives the variable a number other than zero. -/
def Event.isChangeOf (v : Variable) : Event → Bool
  | assigned w x => decide (w = v) && !x.isZero
  | cleared | printed _ | warned _ | failed _ => false

/-- Some event gives the variable a number other than zero exactly if one is a write of such a
number. -/
theorem Event.any_isChangeOf {v : Variable} {events : List Event}
    : events.any (isChangeOf v) = true ↔ ∃ x, .assigned v x ∈ events ∧ x.isZero = false := by
  rw [List.any_eq_true]
  constructor
  · rintro ⟨event, he, hchange⟩
    cases event with
    | assigned w x =>
        simp only [isChangeOf, Bool.and_eq_true, decide_eq_true_eq, Bool.not_eq_true'] at hchange
        obtain ⟨rfl, hx⟩ := hchange
        exact ⟨x, he, hx⟩
    | _ => cases hchange
  · rintro ⟨x, he, hx⟩
    exact ⟨.assigned v x, he, by simp [isChangeOf, hx]⟩

-----------------------------------------------------------------------------------------
-- A panel after a reset
-----------------------------------------------------------------------------------------

namespace Panel

/-- Every variable is marked or zero. -/
def MarkedOrZero (p : Panel) : Prop :=
  ∀ v, p.changed v = true ∨ (p.store.get v).isZero = true

variable {p : Panel}

/-- A write marks a variable exactly if it writes to it and not zero, provided that all variables
without a mark are zero. -/
theorem changed_write (hp : p.MarkedOrZero) (w : Variable) (x : Number) (v : Variable)
    : (p.write w x).changed v = (p.changed v || (decide (w = v) && !x.isZero)) := by
  rw [changed, write, Table.get_set]
  by_cases hw : w = v
  · subst hw
    rcases hp w with hmarked | hzero
    · simp [hmarked]
    · simp [Number.sameValue_of_isZero hzero]
  · simp [hw, changed]

/-- A variable that is not marked even by the write is zero after it. -/
theorem MarkedOrZero.write (hp : p.MarkedOrZero) (w : Variable) (x : Number)
    : (p.write w x).MarkedOrZero := by
  intro v
  rw [changed_write hp, Panel.write, Table.get_set]
  by_cases hw : w = v
  · cases hx : x.isZero <;> simp [hw, hx]
  · simpa [hw] using hp v

/-- One event, if it is no reset, marks what it changes and nothing else. -/
theorem changed_observe (hp : p.MarkedOrZero) {event : Event} (he : event ≠ .cleared)
    : (p.observe event).MarkedOrZero
      ∧ ∀ v, (p.observe event).changed v = (p.changed v || event.isChangeOf v) := by
  cases event with
  | assigned w x => exact ⟨hp.write w x, changed_write hp w x⟩
  | cleared => exact absurd rfl he
  | _ => exact ⟨hp, fun v => (Bool.or_false _).symm⟩

/-- By induction on the events. -/
theorem changed_foldl_observe {events : List Event} (hp : p.MarkedOrZero)
    (he : .cleared ∉ events)
    : (events.foldl observe p).MarkedOrZero
      ∧ ∀ v, (events.foldl observe p).changed v
          = (p.changed v || events.any (Event.isChangeOf v)) := by
  induction events generalizing p with
  | nil => exact ⟨hp, fun v => (Bool.or_false _).symm⟩
  | cons event events ih =>
      rw [List.mem_cons, not_or] at he
      obtain ⟨hnext, hmarks⟩ := changed_observe hp (Ne.symm he.1)
      obtain ⟨hlast, hall⟩ := ih hnext he.2
      refine ⟨hlast, fun v => ?_⟩
      rw [List.foldl_cons, hall, hmarks, List.any_cons, Bool.or_assoc]

/-- From a reset on, the marks of a panel are what the later events change. -/
theorem changed_foldl_observe_of_reset {events : List Event} (he : .cleared ∉ events) (p : Panel)
    : ((Event.reset ++ events).foldl observe p).MarkedOrZero
      ∧ ∀ v, ((Event.reset ++ events).foldl observe p).changed v
          = events.any (Event.isChangeOf v) := by
  have hunmarked (v : Variable) : (Event.reset.foldl observe p).changed v = false := by
    rw [foldl_observe_reset, changed, noMarks, Table.get_const]
  have hreset : (Event.reset.foldl observe p).MarkedOrZero := by
    intro v
    rw [foldl_observe_reset, Store.get_blank]
    exact Or.inr rfl
  obtain ⟨hmarked, hchanged⟩ := changed_foldl_observe hreset he
  rw [List.foldl_append]
  refine ⟨hmarked, fun v => ?_⟩
  rw [hchanged, hunmarked, Bool.false_or]

end Panel

-----------------------------------------------------------------------------------------
-- Runs
-----------------------------------------------------------------------------------------

namespace Session

/-- A run tells of one reset, and that first. -/
theorem exists_told_after_reset (s : Session) (pace : Pace) (source : String) (ans : Number)
    (options : Options)
    : ∃ told, (s.run pace source ans options).events = Event.reset ++ told ∧ .cleared ∉ told := by
  obtain ⟨told, hevents, hordinary⟩ := s.exists_told_run pace source ans options
  refine ⟨_, hevents, ?_⟩
  intro hmem
  rcases List.mem_append.1 hmem with hmem | hmem
  · cases hordinary _ hmem
  · rw [parting, Option.mem_toList, Option.map_eq_some_iff] at hmem
    obtain ⟨text, -, htext⟩ := hmem
    cases htext

end Session

namespace Host

/-- However a run ends, its host then marks the variables that the run has set to a number other
than zero, at any time after its reset, and no others. A variable that is not marked is zero, for
the panel and in the session. The marks do not depend on what the host was told before the run. -/
theorem marked_iff_set_nonzero (h : Host) (pace : Pace) (source : String) (ans : Number)
    (options : Options)
    : let after := (h.run pace source ans options).2.1
      ∃ told,
        (h.run pace source ans options).2.2 = Event.reset ++ told
        ∧ ∀ v,
          (after.panel.changed v = true ↔ ∃ x, .assigned v x ∈ told ∧ x.isZero = false)
          ∧ (after.panel.changed v = true
            ∨ (after.panel.store.get v).isZero = true
              ∧ (after.session.store.get v).isZero = true)
          ∧ ∀ other : Host,
              (other.run pace source ans options).2.1.panel.changed v = after.panel.changed v := by
  have hsame (other : Host) : other.session.run pace source ans options
      = h.session.run pace source ans options :=
    Session.run_eq _ _ pace source ans options
  have haccounts := (h.session.accounts_run pace source ans options).follows
  obtain ⟨told, hevents, honce⟩ := h.session.exists_told_after_reset pace source ans options
  dsimp only [run]
  simp only [hsame]
  generalize h.session.run pace source ans options = report at hevents haccounts
  have hmarks (p : Panel) := Panel.changed_foldl_observe_of_reset honce p
  -- the reset makes the panel and the session follow the later events from the same zeros
  have hshown : (h.settle report).panel.store = report.session.store := by
    rw [panel_settle, Panel.store_foldl_observe, ← haccounts, hevents, List.foldl_append,
      List.foldl_append, Store.foldl_follow_reset, Store.foldl_follow_reset]
  refine ⟨told, hevents, fun v => ?_⟩
  rw [session_settle, ← hshown, and_self, panel_settle, hevents]
  refine ⟨?_, (hmarks h.panel).1 v, ?_⟩
  · rw [(hmarks h.panel).2, Event.any_isChangeOf]
  · intro other
    rw [panel_settle, hevents, (hmarks other.panel).2, (hmarks h.panel).2]

end Host

end LoopCalc
