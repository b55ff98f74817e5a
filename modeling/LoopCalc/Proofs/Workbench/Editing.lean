import Mathlib.Tactic.IntervalCases
import LoopCalc.Workbench

/-! Edits of the start value. While it is being typed, the keys that would run, quit or scroll are
letters like any other: a key changes the typed text or nothing at all. So an edit that is cancelled
leaves nothing behind but a message, and one that is confirmed leaves the start value that was
typed.
-/

namespace LoopCalc.Workbench

/-- The workbench after keys one after the other. -/
def pressAll (w : Workbench) (pace : Pace) (keys : List Key) : Workbench :=
  keys.foldl (fun w key => w.press pace key) w

-----------------------------------------------------------------------------------------
-- What is typed
-----------------------------------------------------------------------------------------

/-- The characters that can be typed. -/
def entryChars : List Char :=
  ['0', '1', '2', '3', '4', '5', '6', '7', '8', '9', '.', '-', '~', 'e', 'E']

/-- What a key makes of a text: it takes the last character away, or adds one that can be typed. -/
def retyped (text : List Char) : Key → List Char
  | .backspace => text.dropLast
  | .char c => if c ∈ entryChars then text ++ [c] else text
  | .enter | .esc | .tab | .backTab | .up | .down | .other => text

/-- Every digit can be typed. -/
theorem mem_entryChars_of_isDigit {c : Char} (h : c.isDigit = true) : c ∈ entryChars := by
  obtain ⟨hle, hge⟩ := Char.isDigit_iff_toNat.1 h
  have hc : c = Char.ofNat c.toNat := (Char.ofNat_toNat c).symm
  change 48 ≤ c.toNat at hle
  change c.toNat ≤ 57 at hge
  generalize c.toNat = n at hle hge hc
  subst hc
  interval_cases n <;> decide

/-- A character is taken exactly if it can be typed. -/
theorem isEntryChar_iff (c : Char) : isEntryChar c = true ↔ c ∈ entryChars := by
  constructor
  · intro h
    simp only [isEntryChar, Bool.or_eq_true, decide_eq_true_eq] at h
    rcases h with ((((hdigit | rfl) | rfl) | rfl) | rfl) | rfl
    · exact mem_entryChars_of_isDigit hdigit
    all_goals decide
  · exact List.all_eq_true.1 (show entryChars.all isEntryChar = true by decide) c

/-- A key makes of the text what it makes of its characters, by cases on the key. -/
theorem toList_typed (text : String) (key : Key)
    : (typed text key).toList = retyped text.toList key := by
  cases key with
  | backspace => rw [typed, String.toList_ofList, retyped]
  | char c =>
      simp only [typed, retyped, isEntryChar_iff]
      split
      · exact String.toList_push c
      · rfl
  | _ => rfl

/-- By induction on the keys. -/
theorem toList_foldl_typed (keys : List Key) (text : String)
    : (keys.foldl typed text).toList = keys.foldl retyped text.toList := by
  induction keys generalizing text with
  | nil => rfl
  | cons key later ih => rw [List.foldl_cons, ih, toList_typed, List.foldl_cons]

-----------------------------------------------------------------------------------------
-- What keys do during an edit
-----------------------------------------------------------------------------------------

/-- In an edit, a key that does not end it changes the text only. -/
theorem press_of_typing (w : Workbench) (pace : Pace) (text : String) {key : Key}
    (henter : key ≠ .enter) (hesc : key ≠ .esc)
    : { w with buffer := some text }.press pace key
      = { w with buffer := some (typed text key) } := by
  cases key with
  | enter => exact absurd rfl henter
  | esc => exact absurd rfl hesc
  | _ => rfl

/-- Keys that do not end the edit change the typed text only, by induction on them. -/
theorem pressAll_of_typing (w : Workbench) (pace : Pace) (text : String) {keys : List Key}
    (h : ∀ key ∈ keys, key ≠ .enter ∧ key ≠ .esc)
    : { w with buffer := some text }.pressAll pace keys
      = { w with buffer := some (keys.foldl typed text) } := by
  induction keys generalizing text with
  | nil => rfl
  | cons key later ih =>
      obtain ⟨henter, hesc⟩ := h key List.mem_cons_self
      have hfirst := w.press_of_typing pace text henter hesc
      rw [pressAll, List.foldl_cons, hfirst, List.foldl_cons]
      exact ih (typed text key) fun key hkey => h key (List.mem_cons_of_mem _ hkey)

variable {w : Workbench} {first : Key} {keys : List Key}

/-- Outside of an edit, either letter begins one. -/
theorem press_of_begin (hw : w.buffer = none) (hfirst : first = .char 'i' ∨ first = .char 'I')
    (pace : Pace)
    : w.press pace first = w.beginEdit := by
  rw [press, hw]
  rcases hfirst with rfl | rfl
  · rfl
  · rfl

/-- An edit is under way: the typed text and the message are all that has changed. -/
theorem pressAll_begin (hw : w.buffer = none) (hfirst : first = .char 'i' ∨ first = .char 'I')
    (hkeys : ∀ key ∈ keys, key ≠ .enter ∧ key ≠ .esc) (pace : Pace)
    : w.pressAll pace (first :: keys)
      = { w with
          buffer := some (keys.foldl typed w.initial)
          status := "Enter initial value for Ans" } := by
  rw [pressAll, List.foldl_cons, press_of_begin hw hfirst]
  exact pressAll_of_typing { w with status := "Enter initial value for Ans" } pace w.initial hkeys

/-- The last of some keys is pressed after the others. -/
theorem pressAll_concat (w : Workbench) (pace : Pace) (keys : List Key) (last : Key)
    : w.pressAll pace (keys ++ [last]) = (w.pressAll pace keys).press pace last := by
  rw [pressAll, List.foldl_append]
  rfl

/-- From any workbench that is not in an edit, keys that begin one, do not end it, and then cancel
it leave everything as it was but the message, whatever they would do outside of an edit. If the
edit is confirmed at last, then the start value too is a new one, and it is what has been typed,
from the old one on, without the blanks around it. -/
theorem edits_change_initial_only (hw : w.buffer = none)
    (hfirst : first = .char 'i' ∨ first = .char 'I')
    (hkeys : ∀ key ∈ keys, key ≠ .enter ∧ key ≠ .esc) (pace : Pace)
    : w.pressAll pace (first :: keys ++ [.esc]) = { w with status := "Edit cancelled" }
      ∧ ∃ initial status,
          w.pressAll pace (first :: keys ++ [.enter]) = { w with initial, status }
          ∧ initial.toList = Text.trim (keys.foldl retyped w.initial.toList)
          ∧ status = "Ans will start at " ++ (Entry.read initial).plainText := by
  rw [pressAll_concat, pressAll_concat, pressAll_begin hw hfirst hkeys]
  obtain ⟨host, source, options, initial, _, focus, scrolls, errorLine, failed, quit, status⟩ := w
  subst hw
  refine ⟨rfl, _, _, rfl, ?_, rfl⟩
  rw [String.toList_ofList, toList_foldl_typed]

/-- Letters that run and quit outside of an edit, in an edit that types nothing, so that the blanks
around the old text are trimmed, and in one with more deletions than there are characters. -/
theorem edits_change_initial_only_retyped
    : let w := ofSource "Disp Ans" .standard "\t 57  "
      let letters : List Key := [.char 'q', .tab, .char 'R']
      let keys : List Key := letters ++ List.replicate 7 .backspace
        ++ [.char '~', .char '1', .char 'w', .char '2', .backspace, .char '5']
      w.buffer = none
      ∧ (∀ key ∈ keys, key ≠ .enter ∧ key ≠ .esc)
      ∧ w.pressAll .steady (.char 'i' :: keys ++ [.esc]) = { w with status := "Edit cancelled" }
      ∧ (∃ initial status,
          w.pressAll .steady (.char 'i' :: letters ++ [.enter]) = { w with initial, status }
          ∧ initial.toList = ['5', '7'])
      ∧ ∃ initial status,
          w.pressAll .steady (.char 'i' :: keys ++ [.enter]) = { w with initial, status }
          ∧ initial.toList = ['~', '1', '5'] := by
  intro w letters keys
  have hletters : ∀ key ∈ letters, key ≠ .enter ∧ key ≠ .esc := by decide
  have hkeys : ∀ key ∈ keys, key ≠ .enter ∧ key ≠ .esc := by decide
  obtain ⟨-, trimmed, told, htrimmed, hkept, -⟩ :=
    edits_change_initial_only (w := w) rfl (Or.inl rfl) hletters .steady
  obtain ⟨hcancelled, initial, status, hconfirmed, hinitial, -⟩ :=
    edits_change_initial_only (w := w) rfl (Or.inl rfl) hkeys .steady
  refine ⟨rfl, hkeys, hcancelled, ⟨trimmed, told, htrimmed, hkept.trans ?_⟩, initial, status,
    hconfirmed, hinitial.trans ?_⟩
  · decide
  · decide

end LoopCalc.Workbench
