import LoopCalc.Proofs.Parsing.Failing
import LoopCalc.Screen.Highlight

/-! Highlighting loses nothing of a line. Two loops cut a text from its front: one cuts a line into
numbers, words and symbols, and one cuts a word into names and other letters. A pass of either takes
at least one token off, and no token is empty. So neither loop makes more passes than its text has
characters, and what the passes took off is the text.
-/

namespace LoopCalc.Screen.Highlight

-----------------------------------------------------------------------------------------
-- Loops over a text
-----------------------------------------------------------------------------------------

/-- What one pass of a loop takes off the front of a text that is not over, and what it leaves. -/
abbrev Pass := Char → List Char → List Token × List Char

/-- A loop has come to the end of the text, with the tokens of each of its passes. -/
inductive Pass.Ends (pass : Pass) : List Char → List (List Token) → Prop
  | finished : Ends pass [] []
  | again {c : Char} {rest : List Char} {later : List (List Token)}
    (ends : Ends pass (pass c rest).2 later)
    : Ends pass (c :: rest) ((pass c rest).1 :: later)

/-- Tokens stand at the front of the text, before the rest of it. There is at least one, and none
of them is empty. -/
structure Cut (text : List Char) (off : List Token × List Char) : Prop where
  text_eq : off.1.flatMap Token.text ++ off.2 = text
  ne_nil : off.1 ≠ []
  text_ne_nil : ∀ t ∈ off.1, t.text ≠ []

/-- A text that is not empty can be cut off as one token. -/
theorem cut_token (role : Role) {front : List Char} (h : front ≠ []) (rest : List Char)
    : Cut (front ++ rest) ([⟨role, front⟩], rest) where
  text_eq := by rw [List.flatMap_singleton]
  ne_nil := List.cons_ne_nil _ _
  text_ne_nil t ht := by
    rw [List.mem_singleton.1 ht]
    exact h

/-- A cut leaves less of the text. -/
theorem Cut.length_lt {text : List Char} {off : List Token × List Char} (h : Cut text off)
    : off.2.length < text.length := by
  obtain ⟨t, more, htokens⟩ := List.exists_cons_of_ne_nil h.ne_nil
  have htext : 0 < t.text.length :=
    List.length_pos_iff.2 (h.text_ne_nil t (htokens ▸ List.mem_cons_self))
  rw [← h.text_eq, htokens, List.flatMap_cons, List.length_append, List.length_append]
  omega

/-- Every pass takes tokens off the front. -/
def Pass.Cuts (pass : Pass) : Prop :=
  ∀ c rest, Cut (c :: rest) (pass c rest)

namespace Pass

variable {pass : Pass} {text : List Char} {cuts : List (List Token)}

/-- Whatever the text, the loop comes to its end: every pass leaves a shorter text. -/
theorem Cuts.exists_ends (h : pass.Cuts) (text : List Char) : ∃ cuts, pass.Ends text cuts := by
  generalize hlength : text.length = length
  induction length using Nat.strongRecOn generalizing text with
  | ind length ih =>
      cases text with
      | nil => exact ⟨[], .finished⟩
      | cons c rest =>
          have hshorter : (pass c rest).2.length < length := hlength ▸ (h c rest).length_lt
          obtain ⟨later, hlater⟩ := ih _ hshorter _ rfl
          exact ⟨_, .again hlater⟩

/-- There are no more cuts than characters, by induction on the cuts. -/
theorem Ends.length_le (he : pass.Ends text cuts) (h : pass.Cuts)
    : cuts.length ≤ text.length := by
  induction he with
  | finished => exact Nat.le_refl _
  | @again c rest later _ ih => exact Nat.succ_le_of_lt (Nat.lt_of_le_of_lt ih (h c rest).length_lt)

/-- The tokens cut off make up the text, by induction on the cuts. -/
theorem Ends.flatMap_text (he : pass.Ends text cuts) (h : pass.Cuts)
    : cuts.flatten.flatMap Token.text = text := by
  induction he with
  | finished => rfl
  | @again c rest later _ ih =>
      rw [List.flatten_cons, List.flatMap_append, ih, (h c rest).text_eq]

/-- No token cut off is empty, by induction on the cuts. -/
theorem Ends.text_ne_nil (he : pass.Ends text cuts) (h : pass.Cuts) {t : Token}
    (ht : t ∈ cuts.flatten)
    : t.text ≠ [] := by
  induction he with
  | finished => cases ht
  | @again c rest later _ ih =>
      rw [List.flatten_cons, List.mem_append] at ht
      exact ht.elim ((h c rest).text_ne_nil t) ih

end Pass

-----------------------------------------------------------------------------------------
-- The loop over a word
-----------------------------------------------------------------------------------------

/-- Take off the longest name, or one letter that starts none. -/
def namePass : Pass := fun c rest =>
  match Variable.atFront? (c :: rest) with
  | some v => ([⟨.name, v.chars⟩], rest.drop (v.chars.length - 1))
  | none => ([⟨.other, [c]⟩], rest)

/-- The pass cuts off a name that is found at the front. -/
theorem namePass_of_some {c : Char} {rest : List Char} {v : Variable}
    (h : Variable.atFront? (c :: rest) = some v)
    : namePass c rest = ([⟨.name, v.chars⟩], rest.drop (v.chars.length - 1)) := by
  rw [namePass, h]

/-- The pass cuts off one letter if no name is found at the front. -/
theorem namePass_of_none {c : Char} {rest : List Char} (h : Variable.atFront? (c :: rest) = none)
    : namePass c rest = ([⟨.other, [c]⟩], rest) := by
  rw [namePass, h]

/-- A name that is taken off stood at the front, so dropping as many characters leaves what stood
behind it. -/
theorem cuts_namePass : namePass.Cuts := by
  intro c rest
  cases hfront : Variable.atFront? (c :: rest) with
  | none =>
      rw [namePass_of_none hfront]
      exact cut_token .other (List.cons_ne_nil c []) rest
  | some v =>
      obtain ⟨x, more, hchars, -⟩ := v.exists_chars_eq_cons
      obtain ⟨behind, hbehind⟩ := Variable.exists_of_atFront? hfront
      rw [namePass_of_some hfront]
      rw [hchars] at hbehind ⊢
      have hdrop : rest.drop ((x :: more).length - 1) = behind := by
        rw [(List.cons.inj hbehind).2]
        exact List.drop_left
      rw [hbehind, hdrop]
      exact cut_token .name (List.cons_ne_nil x more) behind

/-- The names of a word are what the loop over it takes off. -/
theorem flatten_of_ends_namePass {letters : List Char} {cuts : List (List Token)}
    (h : namePass.Ends letters cuts)
    : cuts.flatten = names letters := by
  induction h with
  | finished => rw [names]; rfl
  | @again c rest later _ ih =>
      rw [List.flatten_cons, ih, names]
      cases hfront : Variable.atFront? (c :: rest) with
      | none => rw [namePass_of_none hfront]; rfl
      | some v => rw [namePass_of_some hfront]; rfl

/-- The pass for names ends, with the tokens that the highlighter gives to the letters. -/
theorem exists_ends_namePass (letters : List Char)
    : ∃ cuts, namePass.Ends letters cuts ∧ cuts.flatten = names letters := by
  obtain ⟨cuts, hends⟩ := cuts_namePass.exists_ends letters
  exact ⟨cuts, hends, flatten_of_ends_namePass hends⟩

-----------------------------------------------------------------------------------------
-- The loop over a line
-----------------------------------------------------------------------------------------

/-- The tokens of a word, whatever follows it. -/
theorem cut_word {letters : List Char} (h : letters ≠ []) (called : Bool) (rest : List Char)
    : Cut (letters ++ rest) (word letters called, rest) := by
  rw [word]
  split
  · exact cut_token .keyword h rest
  · obtain ⟨cuts, hends, hnames⟩ := exists_ends_namePass letters
    have htext : (names letters).flatMap Token.text = letters := by
      rw [← hnames, hends.flatMap_text cuts_namePass]
    refine ⟨congrArg (· ++ rest) htext, ?_, ?_⟩
    · intro hnil
      rw [show names letters = [] from hnil] at htext
      exact h htext.symm
    · exact fun t ht => hends.text_ne_nil cuts_namePass (hnames ▸ ht)

/-- Take off a number, the tokens of a word, or a symbol. -/
def linePass : Pass := fun c rest =>
  if startsNumber c then
    ([⟨.number, c :: rest.takeWhile continuesNumber⟩], rest.dropWhile continuesNumber)
  else if Text.isLetter c then
    (word (c :: rest.takeWhile Text.isLetter) ((rest.dropWhile Text.isLetter).head? = some '('),
      rest.dropWhile Text.isLetter)
  else
    ([⟨.ofSymbol c, [c]⟩], rest)

/-- Each round of the pass for lines cuts something off. -/
theorem cuts_linePass : linePass.Cuts := by
  intro c rest
  have hrun (p : Char → Bool) : c :: rest = (c :: rest.takeWhile p) ++ rest.dropWhile p := by
    rw [List.cons_append, List.takeWhile_append_dropWhile]
  rw [linePass]
  split
  · rw [hrun continuesNumber]
    exact cut_token .number (List.cons_ne_nil _ _) _
  split
  · rw [hrun Text.isLetter]
    exact cut_word (List.cons_ne_nil _ _) _ _
  · exact cut_token (.ofSymbol c) (List.cons_ne_nil c []) rest

/-- The tokens of a text are what the loop over it takes off. -/
theorem flatten_of_ends_linePass {text : List Char} {cuts : List (List Token)}
    (h : linePass.Ends text cuts)
    : cuts.flatten = tokens text := by
  induction h with
  | finished => rw [tokens]; rfl
  | @again c rest later _ ih =>
      rw [List.flatten_cons, ih, tokens, linePass]
      split
      · rfl
      · split <;> rfl

/-- The pass for lines ends, with the tokens that the highlighter gives to the text. -/
theorem exists_ends_linePass (text : List Char)
    : ∃ cuts, linePass.Ends text cuts ∧ cuts.flatten = tokens text := by
  obtain ⟨cuts, hends⟩ := cuts_linePass.exists_ends text
  exact ⟨cuts, hends, flatten_of_ends_linePass hends⟩

-----------------------------------------------------------------------------------------
-- Whole lines
-----------------------------------------------------------------------------------------

/-- The tokens of a line make up the line, whether it is a comment or not. -/
theorem flatMap_text_line (text : List Char) : (line text).flatMap Token.text = text := by
  rw [line]
  split
  · rw [List.flatMap_singleton]
  · obtain ⟨cuts, hends, htokens⟩ := exists_ends_linePass text
    rw [← htokens, hends.flatMap_text cuts_linePass]

/-- No token of a line is empty. -/
theorem text_ne_nil_of_mem_line {text : List Char} {t : Token} (h : t ∈ line text)
    : t.text ≠ [] := by
  rw [line] at h
  split at h
  · next hcomment =>
    rw [List.mem_singleton.1 h]
    rintro rfl
    cases hcomment
  · obtain ⟨cuts, hends, htokens⟩ := exists_ends_linePass text
    exact hends.text_ne_nil cuts_linePass (htokens ▸ h)

/-- The tokens of a line, one after the other, are the line, and none of them is empty. The loop
that cuts a line comes to its end, and so does the loop that cuts a word, each after at most one
pass for every character, and what their passes take off are the tokens. -/
theorem line_cut_without_loss (text : List Char)
    : (line text).flatMap Token.text = text
      ∧ (∀ t ∈ line text, t.text ≠ [])
      ∧ (∃ cuts,
          linePass.Ends text cuts ∧ cuts.flatten = tokens text ∧ cuts.length ≤ text.length)
      ∧ ∀ letters, ∃ cuts,
          namePass.Ends letters cuts
          ∧ cuts.flatten = names letters
          ∧ cuts.length ≤ letters.length := by
  refine ⟨flatMap_text_line text, fun t => text_ne_nil_of_mem_line, ?_, fun letters => ?_⟩
  · obtain ⟨cuts, hends, htokens⟩ := exists_ends_linePass text
    exact ⟨cuts, hends, htokens, hends.length_le cuts_linePass⟩
  · obtain ⟨cuts, hends, hnames⟩ := exists_ends_namePass letters
    exact ⟨cuts, hends, hnames, hends.length_le cuts_namePass⟩

end LoopCalc.Screen.Highlight
