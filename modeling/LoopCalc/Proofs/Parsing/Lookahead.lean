import LoopCalc.Proofs.Parsing.Values
import LoopCalc.Source.Probe

/-! Looking ahead and taking agree. A text is taken character by character, as far as the line has
the same characters, so the cursor stops behind the longest front that the two share. That front is
the whole text exactly where lookahead finds the text, and only there are the blanks behind it taken
too.
-/

namespace LoopCalc

open Text (LongestFront)

-----------------------------------------------------------------------------------------
-- The longest front that two texts share
-----------------------------------------------------------------------------------------

namespace Text

variable {text line common : List Char} {x : Char}

/-- Texts that do not start alike share nothing. -/
theorem longestFront_of_head?_ne (h : line.head? ≠ some x)
    : LongestFront (· <+: x :: text) line [] := by
  refine ⟨List.nil_prefix, List.nil_prefix, fun other hline htext => ?_⟩
  cases other with
  | nil => exact Nat.le_refl _
  | cons y others =>
      obtain ⟨rfl, -⟩ := List.cons_prefix_cons.1 htext
      obtain ⟨back, rfl⟩ := hline
      exact absurd rfl h

/-- Texts that start alike share that character and what they share behind it. -/
theorem LongestFront.cons (h : LongestFront (· <+: text) line common)
    : LongestFront (· <+: x :: text) (x :: line) (x :: common) := by
  refine ⟨(List.prefix_cons_inj x).2 h.opens, (List.prefix_cons_inj x).2 h.holds, ?_⟩
  intro other hline htext
  cases other with
  | nil => exact Nat.zero_le _
  | cons y others =>
      have hline := (List.cons_prefix_cons.1 hline).2
      have htext := (List.cons_prefix_cons.1 htext).2
      exact Nat.succ_le_succ (h.longest others hline htext)

/-- A text that opens the line is all that they share. -/
theorem LongestFront.eq_of_opens (h : LongestFront (· <+: text) line common) (ht : text <+: line)
    : common = text :=
  h.holds.eq_of_length_le (h.longest text ht (List.prefix_refl text))

end Text

-----------------------------------------------------------------------------------------
-- Along the line
-----------------------------------------------------------------------------------------

namespace Cursor

/-- So many characters further on the same line. -/
def along (c : Cursor) (count : Nat) (lineStart : Bool) : Cursor :=
  ⟨c.ahead.modifyHead (List.drop count), c.line, c.column + count, lineStart⟩

/-- No characters further is where the cursor was. -/
@[simp]
theorem along_zero (c : Cursor) : c.along 0 c.lineStart = c := by
  rcases c with ⟨_ | ⟨first, below⟩, line, column, start⟩ <;> rfl

/-- Going along twice is going along at once. -/
theorem along_along (c : Cursor) (count more : Nat) (start lineStart : Bool)
    : (c.along count start).along more lineStart = c.along (count + more) lineStart := by
  rcases c with ⟨_ | ⟨first, below⟩, line, column, _⟩ <;>
    simp [along, List.drop_drop, Nat.add_assoc]

/-- Going along drops characters of the line. -/
theorem rest_along (c : Cursor) (count : Nat) (lineStart : Bool)
    : (c.along count lineStart).rest = c.rest.drop count := by
  rcases c with ⟨_ | ⟨first, below⟩, line, column, start⟩
  · exact List.drop_nil.symm
  · rfl

/-- Advancing is going along by one character. -/
theorem advance_eq_along (c : Cursor) : c.advance = c.along 1 false := by
  rcases c with ⟨_ | ⟨first, below⟩, line, column, start⟩
  · rfl
  · simp [advance, along]

/-- Skipping blanks is going along by as many characters as there are blanks. -/
theorem skipBlanks_eq_along (c : Cursor)
    : c.skipBlanks = c.along (c.rest.takeWhile Text.isBlank).length c.lineStart := by
  rcases c with ⟨_ | ⟨first, below⟩, line, column, start⟩
  · rfl
  · have hdrop : Text.trimStart first = first.drop (first.takeWhile Text.isBlank).length :=
      List.drop_left.symm.trans (congrArg (List.drop _) (Text.leading_append_trimStart first))
    simp only [skipBlanks, along, rest, List.headD_cons, List.modifyHead_cons, hdrop]

/-- Taking a text stops behind the longest front that it shares with the line, by induction on the
text. A logical line that starts here still does if nothing was taken. -/
theorem exists_take_snd (text : List Char) (c : Cursor)
    : ∃ common,
        LongestFront (· <+: text) c.rest common
        ∧ (take text c).2 = c.along common.length (c.lineStart && common.isEmpty) := by
  induction text generalizing c with
  | nil =>
      refine ⟨[], ⟨List.nil_prefix, List.nil_prefix, fun other _ h => ?_⟩, ?_⟩
      · exact h.length_le
      · simp [take]
  | cons want more ih =>
      rw [take]
      split
      · next hwant =>
        obtain ⟨line, hline⟩ := List.head?_eq_some_iff.1 hwant
        obtain ⟨common, hcommon, htake⟩ := ih c.advance
        rw [rest_advance, hline, List.tail_cons] at hcommon
        refine ⟨want :: common, hline ▸ hcommon.cons, ?_⟩
        rw [htake, advance_eq_along, along_along, Nat.add_comm]
        simp [along]
      · next hwant => exact ⟨[], Text.longestFront_of_head?_ne hwant, by simp⟩

/-- A text is taken whole exactly where lookahead finds it. -/
theorem exists_take (text : List Char) (c : Cursor)
    : ∃ common,
        LongestFront (· <+: text) c.rest common
        ∧ take text c
          = (c.startsWith text, c.along common.length (c.lineStart && common.isEmpty)) := by
  obtain ⟨common, hcommon, hstop⟩ := exists_take_snd text c
  exact ⟨common, hcommon, Prod.ext (take_fst text c) hstop⟩

end Cursor

-----------------------------------------------------------------------------------------
-- Taking and looking ahead
-----------------------------------------------------------------------------------------

namespace Scan

variable {text : List Char} {c : Cursor}

/-- Where the text stands ahead, it is taken with the run of blanks behind it. -/
theorem expect_of_startsWith (h : c.startsWith text = true)
    : expect text c
      = .ok ()
          (c.along (text.length + ((c.rest.drop text.length).takeWhile Text.isBlank).length)
            (c.lineStart && text.isEmpty)) := by
  obtain ⟨common, hcommon, htake⟩ := Cursor.exists_take text c
  obtain rfl := hcommon.eq_of_opens (List.isPrefixOf_iff_prefix.1 h)
  rw [expect_apply, htake, h]
  dsimp only
  rw [Cursor.skipBlanks_eq_along, Cursor.rest_along, Cursor.along_along]
  rfl

/-- Where it does not, it is missed behind the longest front that it shares with the line. -/
theorem exists_expect_of_not_startsWith (h : c.startsWith text = false)
    : ∃ common stop,
        LongestFront (· <+: text) c.rest common
        ∧ stop = c.along common.length (c.lineStart && common.isEmpty)
        ∧ expect text c = .error ⟨.expected (String.ofList text), stop.location⟩ stop := by
  obtain ⟨common, hcommon, htake⟩ := Cursor.exists_take text c
  refine ⟨common, _, hcommon, rfl, ?_⟩
  rw [expect_apply, htake, h]

end Scan

/-- Under a silent watchdog a probe just looks. -/
theorem Probe.run_silent (probe : Probe) (c : Cursor) : run .silent probe c = look c probe :=
  rfl

/-- Wherever the cursor stands, on a line or behind its end, and whatever the text: lookahead keeps
the cursor and finds the text if the rest of the line starts with it, and the text is taken exactly
if lookahead finds it. Then the cursor is past the text and the run of blanks that follows it on the
line. Otherwise the text is missed where the cursor stops, past the longest front that the text and
the rest of the line share. Either way the cursor stays on its line. -/
theorem Cursor.taken_iff_found (c : Cursor) (text : String)
    : ∃ found,
        (found = true ↔ text.toList <+: c.rest)
        ∧ Probe.run .silent (.startsWith text) c = (.flag found, c)
        ∧ if found then
            Probe.run .silent (.expect text) c
              = (.done,
                  c.along (text.length + ((c.rest.drop text.length).takeWhile Text.isBlank).length)
                    (c.lineStart && text.toList.isEmpty))
          else
            ∃ common stop,
              LongestFront (· <+: text.toList) c.rest common
              ∧ stop = c.along common.length (c.lineStart && common.isEmpty)
              ∧ Probe.run .silent (.expect text) c
                = (.fault ⟨.expected text, stop.location⟩, stop) := by
  refine ⟨c.startsWith text.toList, List.isPrefixOf_iff_prefix, Probe.run_silent _ c, ?_⟩
  rw [Probe.run_silent, Probe.look, ← String.length_toList]
  split
  · next hfound => rw [Scan.expect_of_startsWith hfound]
  · next hfound =>
    obtain ⟨common, stop, hcommon, hstop, hexpect⟩ :=
      Scan.exists_expect_of_not_startsWith (Bool.eq_false_iff.2 hfound)
    refine ⟨common, stop, hcommon, hstop, ?_⟩
    rw [hexpect, String.ofList_toList]

end LoopCalc
