import LoopCalc.Proofs.Grammar.LineByLine

/-! What a stack of open loops makes of a sequence of pieces: when it can take all of them in, that
closing a loop early or at the end gives the same program, and that what is read later comes later
in the program.
-/

namespace LoopCalc

/-- The piece opens a loop. -/
def Piece.isHeader : Piece → Bool
  | header _ => true
  | _ => false

/-- The piece closes a loop. -/
def Piece.isClose : Piece → Bool
  | close _ => true
  | _ => false

/-- The statement that a piece opens, with nothing in it yet. -/
def Piece.opening : Piece → List Statement
  | disp value location => [.disp value location]
  | header h => [.loop h []]
  | close _ | finished => []

/-- A view of programs in the order of their texts: it shows a loop's own part before its body. -/
structure InTextOrder {α : Type} (view : List Statement → List α) (own : Header → List α)
    : Prop where
  append : ∀ front back, view (front ++ back) = view front ++ view back
  loop : ∀ header body, view [.loop header body] = own header ++ view body

/-- A view that shows one statement after the other, by induction on the statements. -/
theorem InTextOrder.of_cons {α : Type} {view : List Statement → List α} {own : Header → List α}
    {each : Statement → List α} (hnil : view [] = [])
    (hcons : ∀ statement rest, view (statement :: rest) = each statement ++ view rest)
    (hloop : ∀ header body, each (.loop header body) = own header ++ view body)
    : InTextOrder view own where
  append front back := by
    induction front with
    | nil => rw [List.nil_append, hnil, List.nil_append]
    | cons statement front ih => rw [List.cons_append, hcons, ih, hcons, List.append_assoc]
  loop header body := by rw [hcons, hnil, List.append_nil, hloop]

namespace LineByLine.Nest

/-- Take in what one more logical line says. -/
def read? (nest : Nest) (l : LogicalLine) : Option Nest :=
  (piece? l).bind nest.add?

/-- Reading all logical lines first and nesting them afterwards is nesting them one by one, by
induction on the lines. -/
theorem foldlM_read? (lines : List LogicalLine) (nest : Nest)
    : lines.foldlM read? nest = (lines.mapM piece?).bind (·.foldlM add? nest) := by
  induction lines generalizing nest with
  | nil => rfl
  | cons l lines ih =>
      rw [List.foldlM_cons, List.mapM_cons, read?]
      cases piece? l with
      | none => rfl
      | some piece =>
          cases hn : nest.add? piece with
          -- the piece cannot be taken in, whatever the lines after it say
          | none => cases lines.mapM piece? <;> simp [hn]
          | some n =>
              simp only [Option.bind_some, Option.bind_eq_bind, hn, ih]
              cases lines.mapM piece? <;> simp [hn]

/-- One piece more: all but an `End` outside of all loops can be taken in. -/
theorem exists_add? {nest : Nest} {piece : Piece} (h : piece.isClose = true → nest.opened ≠ [])
    : ∃ more,
        nest.add? piece = some more
        ∧ more.opened.length + (if piece.isClose then 1 else 0)
          = nest.opened.length + (if piece.isHeader then 1 else 0) := by
  rcases nest with ⟨opened, block⟩
  cases piece with
  | disp value location => exact ⟨_, rfl, rfl⟩
  | header header => exact ⟨_, rfl, rfl⟩
  | finished => exact ⟨_, rfl, rfl⟩
  | close location =>
      cases opened with
      | nil => exact absurd rfl (h rfl)
      | cons loop outer => exact ⟨_, rfl, rfl⟩

/-- A piece that closes a loop does not open one. -/
theorem isHeader_of_isClose {piece : Piece} (h : piece.isClose = true)
    : piece.isHeader = false := by
  cases piece with
  | close location => rfl
  | _ => cases h

/-- Pieces can be nested if none of their beginnings closes more loops than are open, by induction
on the pieces. -/
theorem exists_foldlM_add? {pieces : List Piece} {nest : Nest}
    (h : ∀ k, (pieces.take k).countP Piece.isClose
      ≤ nest.opened.length + (pieces.take k).countP Piece.isHeader)
    : ∃ whole, pieces.foldlM add? nest = some whole := by
  induction pieces generalizing nest with
  | nil => exact ⟨nest, rfl⟩
  | cons piece pieces ih =>
      have hfirst : piece.isClose = true → nest.opened ≠ [] := by
        intro hc hn
        have hone := h 1
        simp [hc, hn, isHeader_of_isClose hc] at hone
      obtain ⟨more, hadd, hlength⟩ := exists_add? hfirst
      have hmore : ∀ k, (pieces.take k).countP Piece.isClose
          ≤ more.opened.length + (pieces.take k).countP Piece.isHeader := by
        intro k
        have hk := h (k + 1)
        rw [List.take_succ_cons, List.countP_cons, List.countP_cons] at hk
        omega
      obtain ⟨whole, hwhole⟩ := ih hmore
      refine ⟨whole, ?_⟩
      rw [List.foldlM_cons, hadd]
      exact hwhole

/-- One more loop is open after a header and one less after a close, by cases on the piece. -/
theorem length_opened_of_add? {nest more : Nest} {piece : Piece} (h : nest.add? piece = some more)
    : more.opened.length + (if piece.isClose then 1 else 0)
      = nest.opened.length + (if piece.isHeader then 1 else 0) := by
  have hclose : piece.isClose = true → nest.opened ≠ [] := by
    rcases nest with ⟨_ | ⟨loop, outer⟩, block⟩
    · cases piece with
      | close location => cases h
      | _ => simp [Piece.isClose]
    · simp
  obtain ⟨taken, hadd, hlength⟩ := exists_add? hclose
  obtain rfl := Option.some.inj (hadd.symm.trans h)
  exact hlength

/-- The loops left open are those that were opened and not closed, by induction on the pieces. -/
theorem length_opened_of_foldlM {pieces : List Piece} {nest whole : Nest}
    (h : pieces.foldlM add? nest = some whole)
    : whole.opened.length + pieces.countP Piece.isClose
      = nest.opened.length + pieces.countP Piece.isHeader := by
  induction pieces generalizing nest with
  | nil =>
      obtain rfl := Option.some.inj h
      rfl
  | cons piece pieces ih =>
      rw [List.foldlM_cons] at h
      obtain ⟨more, hadd, h⟩ := Option.bind_eq_some_iff.1 h
      have hone := length_opened_of_add? hadd
      have hrest := ih h
      rw [List.countP_cons, List.countP_cons]
      omega

/-- Closing open loops does not change the program, by induction on the pieces that close them. -/
theorem program_of_foldlM_close {closes : List Piece}
    (hc : ∀ piece ∈ closes, piece.isClose = true) {n closed : Nest}
    (h : closes.foldlM add? n = some closed)
    : closed.program = n.program := by
  induction closes generalizing n with
  | nil =>
      obtain rfl := Option.some.inj h
      rfl
  | cons piece closes ih =>
      have hall : ∀ piece ∈ closes, piece.isClose = true :=
        fun p hp => hc p (List.mem_cons_of_mem _ hp)
      have hpiece := hc piece List.mem_cons_self
      rw [List.foldlM_cons] at h
      obtain ⟨middle, hadd, h⟩ := Option.bind_eq_some_iff.1 h
      rw [ih hall h]
      rcases n with ⟨_ | ⟨loop, outer⟩, block⟩
      · cases piece with
        | close location => cases hadd
        | _ => cases hpiece
      · cases piece with
        | close location =>
            obtain rfl := Option.some.inj hadd
            rfl
        | _ => cases hpiece

section

variable {α : Type} {view : List Statement → List α} {own : Header → List α}

/-- A statement at the end of the innermost block is shown last, by induction on the open loops. -/
theorem view_program_concat (hv : InTextOrder view own) (opened : List (Header × List Statement))
    (block : List Statement) (s : Statement)
    : view (program ⟨opened, block ++ [s]⟩) = view (program ⟨opened, block⟩) ++ view [s] := by
  induction opened generalizing block s with
  | nil => exact hv.append block [s]
  | cons loop outer ih =>
      -- the loop around the block is the last statement of the block around it
      calc view (program ⟨outer, loop.2 ++ [.loop loop.1 (block ++ [s])]⟩)
        _ = view (program ⟨outer, loop.2⟩) ++ (own loop.1 ++ (view block ++ view [s])) := by
            rw [ih, hv.loop, hv.append]
        _ = view (program ⟨outer, loop.2⟩) ++ view [.loop loop.1 block] ++ view [s] := by
            rw [hv.loop, List.append_assoc, List.append_assoc]
        _ = view (program ⟨outer, loop.2 ++ [.loop loop.1 block]⟩) ++ view [s] := by
            rw [ih]

/-- The statement that a piece opens is shown behind all others. -/
theorem view_of_add? (hv : InTextOrder view own) {n more : Nest} {piece : Piece}
    (h : n.add? piece = some more)
    : view more.program = view n.program ++ view piece.opening := by
  have hnil : view [] = [] := by
    have happend := hv.append [] []
    rwa [List.append_nil, List.self_eq_append_right] at happend
  rcases n with ⟨opened, block⟩
  cases piece with
  | disp value location =>
      obtain rfl := Option.some.inj h
      exact view_program_concat hv opened block (.disp value location)
  | header header =>
      obtain rfl := Option.some.inj h
      exact view_program_concat hv opened block (.loop header [])
  | close location =>
      rw [Piece.opening, hnil, List.append_nil]
      cases opened with
      | nil => cases h
      | cons loop outer =>
          obtain rfl := Option.some.inj h
          rfl
  | finished =>
      rw [Piece.opening, hnil, List.append_nil]
      obtain rfl := Option.some.inj h
      rfl

end

end LineByLine.Nest

end LoopCalc
