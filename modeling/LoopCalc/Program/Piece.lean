import LoopCalc.Program
import LoopCalc.Program.Literal
import LoopCalc.Source.Cursor

/-!
Pieces of a source text. A piece is what one logical line says: a display, the header of a loop, the
`End` of a loop, or nothing more.

Scanning steps keep the cursor where they got to, also when they fail. They get there over
characters and blanks, so whatever relation these lead on in leads from start to end of every step
(`LeadsOn`). No step adds to the text ahead (`Shrinks`), and every piece but the last takes
something from it.
-/

namespace LoopCalc

/-- A step over a source text that may stop at a fault. -/
abbrev Scan := EStateM Fault Cursor

namespace Scan

/-- Where a step leaves the cursor. -/
def after {α : Type} (x : Scan α) (c : Cursor) : Cursor :=
  match x c with
  | .ok _ c => c
  | .error _ c => c

/-- Stop at the cursor. -/
def fail {α : Type} (cause : Fault.Cause) : Scan α := do
  throw ⟨cause, (← get).location⟩

/-- Take exactly the given text and the blanks after it on the line. -/
def expect (text : List Char) : Scan Unit := do
  match Cursor.take text (← get) with
  | (true, c) => set c.skipBlanks
  | (false, c) =>
      set c
      fail (.expected (String.ofList text))

/-- Take the longest variable name at the cursor, if there is one. -/
def reference? : Scan (Option Variable) := do
  match Variable.atFront? (← get).rest with
  | some v =>
      expect v.chars
      return some v
  | none => return none

/-- Take a literal or a variable name. -/
def operand : Scan Operand := do
  match Literal.atFront? (← get).rest with
  | some literal =>
      expect literal.chars
      return .literal literal.value
  | none =>
      match ← reference? with
      | some v => return .reference v
      | none => fail .noValue

/-- Take the variable that a loop counts in. -/
def iterator : Scan Variable := do
  match ← reference? with
  | some .ans => fail .ansIterator
  | some v => return v
  | none => fail .noVariable

/-- Take a comma and the operand after it. -/
def nextOperand : Scan Operand := do
  expect [',']
  operand

/-- Take the step of a loop; a loop without one counts by one. -/
def step : Scan Operand := do
  if (← get).startsWith [','] then nextOperand else return .literal (.ofInt 1)

/-- Take the closing parenthesis of a header, which may be left out. -/
def closing : Scan Unit := do
  if (← get).startsWith [')'] then expect [')']

/-- Take a loop header that stands at the given place. -/
def header (location : Location) : Scan Header := do
  expect Keyword.loop.chars
  let iterator ← iterator
  let start ← nextOperand
  let stop ← nextOperand
  let step ← step
  closing
  return { iterator, start, stop, step, location }

/-- A statement may start at the cursor. -/
def checkLineStart (keyword : Keyword) : Scan Unit := do
  unless (← get).lineStart do
    fail (.misplaced keyword)

/-! ### Steps only lead on -/

/-- Looking at the cursor keeps it. -/
theorem get_bind_apply {α : Type} (f : Cursor → Scan α) (c : Cursor)
    : (get >>= f : Scan α) c = f c c :=
  rfl

/-- Expecting a text takes it with the blanks behind it, or fails where it first differs. -/
theorem expect_apply (text : List Char) (c : Cursor)
    : expect text c =
        match Cursor.take text c with
        | (true, next) => .ok () next.skipBlanks
        | (false, next) => .error ⟨.expected (String.ofList text), next.location⟩ next := by
  rw [expect, get_bind_apply]
  rcases Cursor.take text c with ⟨_ | _, next⟩ <;> rfl

/-- A relation between cursors that leads on from step to step of a scan: over a character that
stands ahead, and over blanks. -/
structure LeadsOn (R : Cursor → Cursor → Prop) : Prop where
  refl : ∀ c, R c c
  trans : ∀ {a b c}, R a b → R b c → R a c
  advance : ∀ {c : Cursor}, c.rest ≠ [] → R c c.advance
  skipBlanks : ∀ c : Cursor, R c c.skipBlanks

/-- The step leaves the cursor in the relation to where it was, also when it fails. -/
def Follows {α : Type} (R : Cursor → Cursor → Prop) (x : Scan α) : Prop :=
  ∀ c, R c (x.after c)

section

variable {R : Cursor → Cursor → Prop}

/-- A step that does nothing keeps to the relation, by reflexivity. -/
theorem follows_pure {α : Type} (hR : LeadsOn R) (a : α) : Follows R (pure a : Scan α) :=
  fun c => hR.refl c

/-- A step that only fails keeps to the relation, since it leaves the cursor where it is. -/
theorem follows_fail {α : Type} (hR : LeadsOn R) (cause : Fault.Cause)
    : Follows R (fail cause : Scan α) :=
  fun c => hR.refl c

/-- Steps in sequence keep to the relation, by transitivity, whether or not the first one fails. -/
theorem Follows.bind {α β : Type} (hR : LeadsOn R) {x : Scan α} {f : α → Scan β}
    (hx : x.Follows R) (hf : ∀ a, (f a).Follows R)
    : (x >>= f).Follows R := by
  intro c
  have hc := hx c
  simp only [after, Bind.bind, EStateM.bind] at hc ⊢
  cases h : x c with
  | ok a next =>
      rw [h] at hc
      exact hR.trans hc (hf a next)
  | error f next =>
      rw [h] at hc
      exact hc

/-- A step that first looks at the cursor follows if it does so for the cursor it looks at. -/
theorem follows_get_bind {α : Type} {f : Cursor → Scan α} (hf : ∀ c, R c ((f c).after c))
    : Follows R (get >>= f : Scan α) :=
  hf

/-- A text is taken character by character, by induction on it. -/
theorem leadsOn_take (hR : LeadsOn R) (text : List Char) (c : Cursor)
    : R c (Cursor.take text c).2 := by
  induction text generalizing c with
  | nil => exact hR.refl c
  | cons want more ih =>
      unfold Cursor.take
      split
      · next hw =>
        refine hR.trans (hR.advance ?_) (ih _)
        intro hn
        simp [Cursor.current?, hn] at hw
      · exact hR.refl c

/-- Expecting a text keeps to the relation, by taking characters and by skipping blanks. -/
theorem follows_expect (hR : LeadsOn R) (text : List Char) : (expect text).Follows R := by
  intro c
  have h := leadsOn_take hR text c
  simp only [after, expect_apply]
  generalize Cursor.take text c = taken at h ⊢
  rcases taken with ⟨_ | _, next⟩
  · exact h
  · exact hR.trans h (hR.skipBlanks next)

/-- Looking for a name keeps to the relation. It moves the cursor only past a name that it finds. -/
theorem follows_reference? (hR : LeadsOn R) : reference?.Follows R := by
  refine follows_get_bind fun c => ?_
  split
  · exact (follows_expect hR _).bind hR (fun _ => follows_pure hR _) c
  · exact hR.refl c

/-- Reading an operand keeps to the relation, by cases on what is found. -/
theorem follows_operand (hR : LeadsOn R) : operand.Follows R := by
  refine follows_get_bind fun c => ?_
  split
  · exact (follows_expect hR _).bind hR (fun _ => follows_pure hR _) c
  · refine (follows_reference? hR).bind hR (fun found => ?_) c
    cases found with
    | some v => exact follows_pure hR _
    | none => exact follows_fail hR _

/-- Reading an iterator keeps to the relation, for it is a reference that is then checked. -/
theorem follows_iterator (hR : LeadsOn R) : iterator.Follows R := by
  refine (follows_reference? hR).bind hR fun found => ?_
  split
  · exact follows_fail hR _
  · exact follows_pure hR _
  · exact follows_fail hR _

/-- Reading an operand behind a comma keeps to the relation, as a sequence of steps that do. -/
theorem follows_nextOperand (hR : LeadsOn R) : nextOperand.Follows R :=
  (follows_expect hR _).bind hR fun _ => follows_operand hR

/-- Reading a step keeps to the relation, whether it is written or left out. -/
theorem follows_step (hR : LeadsOn R) : step.Follows R := by
  refine follows_get_bind fun c => ?_
  split
  · exact follows_nextOperand hR c
  · exact hR.refl c

/-- Reading a closing bracket keeps to the relation, whether it is written or left out. -/
theorem follows_closing (hR : LeadsOn R) : closing.Follows R := by
  refine follows_get_bind fun c => ?_
  split
  · exact follows_expect hR _ c
  · exact hR.refl c

/-- What comes behind the keyword of a header. -/
theorem follows_headerRest (hR : LeadsOn R) (location : Location)
    : Follows R (do
        let iterator ← iterator
        let start ← nextOperand
        let stop ← nextOperand
        let step ← step
        closing
        return { iterator, start, stop, step, location : Header }) :=
  (follows_iterator hR).bind hR fun _ =>
    (follows_nextOperand hR).bind hR fun _ =>
      (follows_nextOperand hR).bind hR fun _ =>
        (follows_step hR).bind hR fun _ =>
          (follows_closing hR).bind hR fun _ => follows_pure hR _

/-- Reading a header keeps to the relation, as a sequence of steps that do. -/
theorem follows_header (hR : LeadsOn R) (location : Location) : (header location).Follows R :=
  (follows_expect hR _).bind hR fun _ => follows_headerRest hR location

/-- The check for a line start keeps to the relation. It moves nothing. -/
theorem follows_checkLineStart (hR : LeadsOn R) (keyword : Keyword)
    : (checkLineStart keyword).Follows R := by
  refine follows_get_bind fun c => ?_
  split
  · exact hR.refl c
  · exact hR.refl c

end

/-! ### Steps only take from the text ahead -/

/-- The step leaves at most as much ahead as there was. -/
def Shrinks {α : Type} (x : Scan α) : Prop :=
  ∀ c, (x.after c).remaining ≤ c.remaining

/-- That no more of the source remains is kept by everything that a scan does. -/
theorem leadsOn_remaining : LeadsOn fun c next => next.remaining ≤ c.remaining where
  refl _ := Nat.le_refl _
  trans hab hbc := Nat.le_trans hbc hab
  advance _ := Cursor.remaining_advance_le _
  skipBlanks c := Cursor.remaining_skipBlanks_le c

/-- Taking a text that is not empty leaves less. -/
theorem remaining_lt_of_expect {want : Char} {more : List Char} {c next : Cursor} {u : Unit}
    (h : expect (want :: more) c = .ok u next)
    : next.remaining < c.remaining := by
  have hlt := @Cursor.remaining_take_lt want more c
  rw [expect_apply] at h
  generalize Cursor.take (want :: more) c = taken at h hlt
  rcases taken with ⟨_ | _, c'⟩
  · cases h
  · cases h
    exact Nat.lt_of_le_of_lt (Cursor.remaining_skipBlanks_le c') (hlt rfl)

/-- A step that starts with a text that is not empty leaves less when it succeeds. -/
theorem remaining_lt_of_expect_bind {α : Type} {want : Char} {more : List Char}
    {f : Unit → Scan α} (hf : ∀ u, (f u).Shrinks) {c next : Cursor} {a : α}
    (h : (expect (want :: more) >>= f) c = .ok a next)
    : next.remaining < c.remaining := by
  simp only [Bind.bind, EStateM.bind] at h
  split at h
  · next u middle hm =>
    have := remaining_lt_of_expect hm
    have hs := hf u middle
    simp only [after, h] at hs
    omega
  · cases h

/-- A header takes something off the source, its keyword at least. -/
theorem remaining_lt_of_header {location : Location} {c next : Cursor} {h : Header}
    (hs : header location c = .ok h next)
    : next.remaining < c.remaining :=
  remaining_lt_of_expect_bind (fun _ => follows_headerRest leadsOn_remaining location) hs

end Scan

/-- What one logical line of a source text says. -/
inductive Piece where
  | disp (value : Operand) (location : Location)
  | header (header : Header)
  | close (location : Location)
  | finished
deriving DecidableEq

namespace Piece

/-- Take the piece at the cursor, which stands past all separators. -/
def here : Scan Piece := do
  let c ← get
  if c.atEnd then
    return .finished
  else if c.startsWith Keyword.loop.chars then
    Scan.checkLineStart .loop
    return .header (← Scan.header c.location)
  else if c.startsWith Keyword.disp.chars then
    Scan.checkLineStart .disp
    Scan.expect Keyword.disp.chars
    return .disp (← Scan.operand) c.location
  else if c.startsWith Keyword.close.chars then
    Scan.checkLineStart .close
    Scan.expect Keyword.close.chars
    return .close c.location
  else
    Scan.fail .noStatement

/-- Take the next piece. -/
def next : Scan Piece := do
  modify Cursor.toStatement
  here

/-- A step after a check that keeps the cursor. -/
theorem ok_of_checkLineStart_bind {α : Type} {keyword : Keyword} {f : Unit → Scan α}
    {c next : Cursor} {a : α} (h : (Scan.checkLineStart keyword >>= f) c = .ok a next)
    : f () c = .ok a next := by
  have hc : Scan.checkLineStart keyword c =
      if c.lineStart then .ok () c else .error ⟨.misplaced keyword, c.location⟩ c := by
    rw [Scan.checkLineStart, Scan.get_bind_apply]
    cases c.lineStart <;> rfl
  simp only [Bind.bind, EStateM.bind, hc] at h
  cases hl : c.lineStart with
  | true => simpa [hl] using h
  | false => simp [hl] at h

/-- Every piece but the last takes something from the text ahead. -/
theorem remaining_lt_of_here {c next : Cursor} {piece : Piece} (hp : piece ≠ .finished)
    (h : here c = .ok piece next)
    : next.remaining < c.remaining := by
  rw [here, Scan.get_bind_apply] at h
  split at h
  · cases h
    contradiction
  split at h
  · have h := ok_of_checkLineStart_bind h
    simp only [Bind.bind, EStateM.bind] at h
    split at h
    · next hh => cases h; exact Scan.remaining_lt_of_header hh
    · cases h
  split at h
  · exact Scan.remaining_lt_of_expect_bind
      (fun _ =>
        (Scan.follows_operand Scan.leadsOn_remaining).bind Scan.leadsOn_remaining fun _ =>
          Scan.follows_pure Scan.leadsOn_remaining _)
      (ok_of_checkLineStart_bind h)
  split at h
  · exact Scan.remaining_lt_of_expect_bind (fun _ => Scan.follows_pure Scan.leadsOn_remaining _)
      (ok_of_checkLineStart_bind h)
  · cases h

/-- A piece other than the end takes something off the source, its keyword at least. -/
theorem remaining_lt_of_next {c next : Cursor} {piece : Piece} (hp : piece ≠ .finished)
    (h : Piece.next c = .ok piece next)
    : next.remaining < c.remaining :=
  Nat.lt_of_lt_of_le (remaining_lt_of_here hp h) (Cursor.remaining_toStatement_le c)

end Piece

end LoopCalc
