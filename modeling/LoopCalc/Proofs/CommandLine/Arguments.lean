import LoopCalc.CommandLine

/-! The grammar of command lines. Arguments are items one after the other: two flags, `--ans` with
the argument behind it, whatever that is, and files. What the items ask for is said without reading
them in turn, so their order matters only among the values for `Ans`. Arguments that ask for nothing
break off at the first one that continues no item, or name no file.
-/

namespace LoopCalc.CommandLine

-----------------------------------------------------------------------------------------
-- Items
-----------------------------------------------------------------------------------------

/-- What a command line is made of. -/
inductive Item where
  | warnings
  | headless
  | ans (value : String)
  | file (path : String) (plain : isOption path = false)
deriving DecidableEq

namespace Item

/-- The arguments that an item takes up. -/
def spelling : Item → List String
  | warnings => ["--warnings"]
  | headless => ["--headless"]
  | ans value => ["--ans", value]
  | file path _ => [path]

def value? : Item → Option String
  | ans value => some value
  | _ => none

def file? : Item → Option String
  | file path _ => some path
  | _ => none

end Item

/-- The arguments of some items. -/
def spelled (items : List Item) : List String :=
  items.flatMap Item.spelling

/-- The values given for `Ans`, in their order. -/
def values (items : List Item) : List String :=
  items.filterMap Item.value?

def files (items : List Item) : List String :=
  items.filterMap Item.file?

/-- What items with this one file ask for: the last value counts, and each flag if it is there. -/
def requestOf (items : List Item) (file : String) : Request where
  file := file
  initial := (values items).getLastD ""
  warnings := Item.warnings ∈ items
  headless := Item.headless ∈ items

/-- The arguments are those of items with at most one file. -/
def Splits (arguments : List String) : Prop :=
  ∃ items, spelled items = arguments ∧ (files items).length ≤ 1

/-- The argument is the first at which splitting the arguments cannot go on: what stands before it
can be split, and nothing that reaches further can. -/
structure BreaksAt (arguments front : List String) (argument : String) : Prop where
  stands : front ++ [argument] <+: arguments
  splits : Splits front
  stuck : ∀ longer, front ++ [argument] <+: longer → longer <+: arguments → ¬Splits longer

/-- What is wrong with an argument that continues no item. -/
def misuseOf (argument : String) : Misuse :=
  if argument = "--ans" then .noValue
  else if isOption argument then .unknownOption argument
  else .secondFile

/-- Items are spelled one after the other. -/
theorem spelled_append (items more : List Item)
    : spelled (items ++ more) = spelled items ++ spelled more :=
  List.flatMap_append

/-- The files of items are named one after the other. -/
theorem files_append (items more : List Item) : files (items ++ more) = files items ++ files more :=
  List.filterMap_append

-----------------------------------------------------------------------------------------
-- Reading items
-----------------------------------------------------------------------------------------

/-- What is known behind some items with at most one file. -/
def draftOf (items : List Item) : Draft where
  file := (files items).head?
  initial := (values items).getLastD ""
  warnings := Item.warnings ∈ items
  headless := Item.headless ∈ items

/-- An argument that is none of the known options is refused if it looks like one, and names the
file otherwise, if none is named yet. -/
theorem readFrom_other {argument : String} (hwarnings : argument ≠ "--warnings")
    (hheadless : argument ≠ "--headless") (hans : argument ≠ "--ans") (p : Draft)
    (rest : List String)
    : readFrom p (argument :: rest)
      = if isOption argument then .error (.unknownOption argument)
        else if p.file.isSome then .error .secondFile
        else readFrom { p with file := some argument } rest := by
  rw [readFrom]
  · exact hwarnings
  · exact hheadless
  · exact fun h _ => hans h
  · exact fun _ _ h _ => hans h

/-- An argument that does not look like an option names the file, if none is named yet. -/
theorem readFrom_file {path : String} (h : isOption path = false) (p : Draft) (rest : List String)
    : readFrom p (path :: rest)
      = if p.file.isSome then .error .secondFile
        else readFrom { p with file := some path } rest := by
  have hne {option : String} (ho : isOption option = true) : path ≠ option := by
    rintro rfl
    rw [h] at ho
    cases ho
  rw [readFrom_other (hne (by decide)) (hne (by decide)) (hne (by decide)), h]
  rfl

/-- Without items there is nothing in the draft. -/
theorem draftOf_nil : draftOf [] = .empty := rfl

/-- One more item, unless it is a second file. -/
theorem readFrom_spelling {items : List Item} {item : Item}
    (h : (files (items ++ [item])).length ≤ 1) (rest : List String)
    : readFrom (draftOf items) (item.spelling ++ rest)
      = readFrom (draftOf (items ++ [item])) rest := by
  cases item with
  | warnings =>
      rw [Item.spelling, List.singleton_append, readFrom]
      congr 1
      simp [draftOf, files, values, List.filterMap_append, Item.file?, Item.value?]
  | headless =>
      rw [Item.spelling, List.singleton_append, readFrom]
      congr 1
      simp [draftOf, files, values, List.filterMap_append, Item.file?, Item.value?]
  | ans value =>
      rw [Item.spelling, List.cons_append, List.singleton_append, readFrom]
      congr 1
      simp [draftOf, files, values, List.filterMap_append, Item.file?, Item.value?]
  | file path plain =>
      have hnone : files items = [] := by
        rw [files_append, List.length_append] at h
        exact List.eq_nil_of_length_eq_zero (Nat.eq_zero_of_le_zero (Nat.le_of_succ_le_succ h))
      have hdraft : (draftOf items).file = none := by rw [draftOf, hnone]; rfl
      have hfile : files [.file path plain] = [path] := rfl
      rw [Item.spelling, List.singleton_append, readFrom_file plain, hdraft]
      refine congrArg (readFrom · rest) ?_
      simp [draftOf, files_append, hnone, hfile, values, List.filterMap_append, Item.value?]

/-- Items one after the other, by induction on them. -/
theorem readFrom_spelled {before items : List Item} (h : (files (before ++ items)).length ≤ 1)
    (rest : List String)
    : readFrom (draftOf before) (spelled items ++ rest)
      = readFrom (draftOf (before ++ items)) rest := by
  induction items generalizing before with
  | nil => rw [List.append_nil]; rfl
  | cons item items ih =>
      rw [← List.singleton_append, ← List.append_assoc] at h ⊢
      have hfront : (files (before ++ [item])).length ≤ 1 := by
        rw [files_append, List.length_append] at h
        omega
      rw [spelled_append, spelled, List.flatMap_singleton, List.append_assoc,
        readFrom_spelling hfront, ih h]

/-- Items with one file at most are read off the front of the arguments into a draft. -/
theorem read_spelled_append {items : List Item} (h : (files items).length ≤ 1)
    (rest : List String)
    : read (spelled items ++ rest) = readFrom (draftOf items) rest := by
  have hitems := @readFrom_spelled [] items h rest
  rwa [draftOf_nil] at hitems

/-- Of several files the second one stands behind items with one. -/
theorem exists_second_file {items : List Item} {first second : String} {more : List String}
    (h : files items = first :: second :: more)
    : ∃ front path plain back,
        items = front ++ .file path plain :: back ∧ files front = [first] := by
  obtain ⟨front, item, back, rfl, hfront, hitem, hback⟩ := List.filterMap_eq_cons_iff.1 h
  obtain ⟨middle, other, rest, rfl, hmiddle, hother, -⟩ := List.filterMap_eq_cons_iff.1 hback
  have hnone {items : List Item} (hitems : ∀ x ∈ items, x.file? = none) : files items = [] :=
    List.filterMap_eq_nil_iff.2 hitems
  cases other with
  | file path plain =>
      refine ⟨front ++ item :: middle, path, plain, rest, by simp, ?_⟩
      rw [files_append, hnone hfront, List.nil_append, files, List.filterMap_cons_some hitem]
      exact congrArg _ (hnone hmiddle)
  | warnings => cases hother
  | headless => cases hother
  | ans value => cases hother

/-- A second file is refused, whatever comes behind it. -/
theorem readFrom_second_file {items : List Item} {first : String} (h : files items = [first])
    {path : String} (plain : isOption path = false) (rest : List String)
    : readFrom (draftOf items) (path :: rest) = .error .secondFile := by
  rw [readFrom_file plain, draftOf, h]
  rfl

/-- Items ask for what they say if there is one file among them. -/
theorem read_spelled (items : List Item)
    : read (spelled items)
      = match files items with
        | [] => .error .noFile
        | [file] => .ok (requestOf items file)
        | _ :: _ :: _ => .error .secondFile := by
  split
  · next h =>
    rw [← List.append_nil (spelled items), read_spelled_append (by simp [h]), readFrom,
      Draft.finish, draftOf, h]
    rfl
  · next file h =>
    rw [← List.append_nil (spelled items), read_spelled_append (by simp [h]), readFrom,
      Draft.finish, draftOf, h]
    rfl
  · next first second more h =>
    obtain ⟨front, path, plain, back, rfl, hfront⟩ := exists_second_file h
    rw [spelled_append, read_spelled_append (by simp [hfront])]
    exact readFrom_second_file hfront plain (spelled back)

/-- The order of items matters among the values for `Ans` only. -/
theorem read_spelled_perm {items other : List Item} (h : items.Perm other)
    (hvalues : values items = values other)
    : read (spelled items) = read (spelled other) := by
  have hfiles : (files items).Perm (files other) := h.filterMap Item.file?
  have hrequest (file : String) : requestOf items file = requestOf other file := by
    rw [requestOf, requestOf, hvalues]
    simp only [h.mem_iff]
  rw [read_spelled, read_spelled]
  rcases hfront : files items with _ | ⟨first, _ | ⟨second, more⟩⟩ <;> rw [hfront] at hfiles
  · rw [← hfiles.nil_eq]
  · rw [← List.singleton_perm.1 hfiles]
    exact congrArg Except.ok (hrequest first)
  · have hlength := hfiles.length_eq
    rcases hback : files other with _ | ⟨first', _ | ⟨second', more'⟩⟩
    · simp [hback] at hlength
    · simp [hback] at hlength
    · rfl

-----------------------------------------------------------------------------------------
-- Where items end
-----------------------------------------------------------------------------------------

/-- No item starts here. -/
inductive Halts : List String → Prop
  | finished : Halts []
  | noValue : Halts ["--ans"]
  | unknown {argument : String} {rest : List String} (option : isOption argument = true)
    (warnings : argument ≠ "--warnings") (headless : argument ≠ "--headless")
    (ans : argument ≠ "--ans")
    : Halts (argument :: rest)

/-- Arguments are items up to where none starts. -/
theorem exists_items (arguments : List String)
    : ∃ items rest, arguments = spelled items ++ rest ∧ Halts rest := by
  have hfront (item : Item) {more : List String}
      (h : ∃ items rest, more = spelled items ++ rest ∧ Halts rest)
      : ∃ items rest, item.spelling ++ more = spelled items ++ rest ∧ Halts rest := by
    obtain ⟨items, rest, rfl, hrest⟩ := h
    exact ⟨item :: items, rest, (List.append_assoc ..).symm, hrest⟩
  match arguments with
  | [] => exact ⟨[], [], rfl, .finished⟩
  | argument :: rest =>
      by_cases hwarnings : argument = "--warnings"
      · rw [hwarnings]
        exact hfront .warnings (exists_items rest)
      by_cases hheadless : argument = "--headless"
      · rw [hheadless]
        exact hfront .headless (exists_items rest)
      by_cases hans : argument = "--ans"
      · rw [hans]
        match rest with
        | [] => exact ⟨[], _, rfl, .noValue⟩
        | value :: rest => exact hfront (.ans value) (exists_items rest)
      cases hoption : isOption argument with
      | true => exact ⟨[], _, rfl, .unknown hoption hwarnings hheadless hans⟩
      | false => exact hfront (.file argument hoption) (exists_items rest)
termination_by arguments.length

/-- Breaking off at an option that is not known means that it is not known. -/
theorem misuseOf_unknown {argument : String} (hans : argument ≠ "--ans")
    (h : isOption argument = true)
    : misuseOf argument = .unknownOption argument := by
  rw [misuseOf, if_neg hans, if_pos h]

/-- Breaking off at a file means that it is the second. -/
theorem misuseOf_file {path : String} (plain : isOption path = false)
    : misuseOf path = .secondFile := by
  have hans : path ≠ "--ans" := by
    rintro rfl
    exact absurd plain (by decide)
  rw [misuseOf, if_neg hans, plain]
  rfl

/-- Breaking off at an argument never means that there is no file. -/
theorem misuseOf_ne_noFile (argument : String) : misuseOf argument ≠ .noFile := by
  rw [misuseOf]
  split
  · simp
  · split <;> simp

/-- What can be split is read, or lacks a file. -/
theorem Splits.eq_noFile {arguments : List String} (h : Splits arguments) {misuse : Misuse}
    (hread : read arguments = .error misuse)
    : misuse = .noFile := by
  obtain ⟨items, rfl, hfiles⟩ := h
  rw [read_spelled] at hread
  split at hread
  · exact (Except.error.inj hread).symm
  · cases hread
  · next hsecond =>
    rw [hsecond] at hfiles
    simp at hfiles

/-- An argument at which reading stops, whatever stands behind it, is where splitting breaks off. -/
theorem breaksAt_of_readFrom {items : List Item} (hfiles : (files items).length ≤ 1)
    {argument : String} {rest : List String}
    (h : ∀ more, more <+: rest
      → readFrom (draftOf items) (argument :: more) = .error (misuseOf argument))
    : BreaksAt (spelled items ++ argument :: rest) (spelled items) argument
      ∧ read (spelled items ++ argument :: rest) = .error (misuseOf argument) := by
  refine ⟨⟨⟨rest, by simp⟩, ⟨items, rfl, hfiles⟩, ?_⟩, ?_⟩
  · rintro longer ⟨more, rfl⟩ hlonger hsplits
    rw [List.append_assoc, List.singleton_append] at hlonger hsplits
    rw [List.prefix_append_right_inj, List.cons_prefix_cons] at hlonger
    refine misuseOf_ne_noFile argument (hsplits.eq_noFile ?_)
    rw [read_spelled_append hfiles, h more hlonger.2]
  · rw [read_spelled_append hfiles, h rest List.prefix_rfl]

/-- Arguments can be split, or splitting them breaks off where reading stops. -/
theorem splits_or_breaksAt (arguments : List String)
    : Splits arguments
      ∨ ∃ front argument,
          BreaksAt arguments front argument ∧ read arguments = .error (misuseOf argument) := by
  obtain ⟨items, rest, rfl, hrest⟩ := exists_items arguments
  rcases hfiles : files items with _ | ⟨first, _ | ⟨second, more⟩⟩
  case cons.cons =>
    obtain ⟨front, path, plain, back, rfl, hfront⟩ := exists_second_file hfiles
    rw [spelled_append, List.append_assoc]
    refine Or.inr ⟨spelled front, path, breaksAt_of_readFrom (by simp [hfront]) fun more _ => ?_⟩
    rw [readFrom_second_file hfront plain, misuseOf_file plain]
  all_goals
    have hone : (files items).length ≤ 1 := by simp [hfiles]
    cases hrest with
    | finished => exact Or.inl ⟨items, (List.append_nil _).symm, hone⟩
    | noValue =>
        refine Or.inr ⟨_, _, breaksAt_of_readFrom hone fun more hmore => ?_⟩
        rw [List.prefix_nil.1 hmore, readFrom]
        rfl
    | unknown option hwarnings hheadless hans =>
        refine Or.inr ⟨_, _, breaksAt_of_readFrom hone fun more _ => ?_⟩
        rw [readFrom_other hwarnings hheadless hans, if_pos option, misuseOf_unknown hans option]

/-- Splitting breaks off at one argument only: it would not get to a later one. -/
theorem BreaksAt.not_length_lt {arguments front other : List String} {argument argument' : String}
    (h : BreaksAt arguments front argument) (ho : BreaksAt arguments other argument')
    : ¬front.length < other.length := by
  intro hlt
  have hother : other <+: arguments := (List.prefix_append other [argument']).trans ho.stands
  refine h.stuck other (List.prefix_of_prefix_length_le h.stands hother ?_) hother ho.splits
  rw [List.length_append]
  exact hlt

/-- Arguments break off at one argument only, since neither front can be the shorter one. -/
theorem BreaksAt.unique {arguments front other : List String} {argument argument' : String}
    (h : BreaksAt arguments front argument) (ho : BreaksAt arguments other argument')
    : argument = argument' := by
  have hlength : front.length = other.length :=
    Nat.le_antisymm (Nat.not_lt.1 (ho.not_length_lt h)) (Nat.not_lt.1 (h.not_length_lt ho))
  have hprefix := List.prefix_of_prefix_length_le h.stands ho.stands (by simp [hlength])
  have heq := hprefix.eq_of_length (by simp [hlength])
  exact (List.cons.inj (List.append_inj heq hlength).2).1

/-- Where splitting breaks off, reading stops. -/
theorem BreaksAt.read_eq {arguments front : List String} {argument : String}
    (h : BreaksAt arguments front argument)
    : read arguments = .error (misuseOf argument) := by
  rcases splits_or_breaksAt arguments with hsplits | ⟨other, argument', ho, hread⟩
  · exact absurd hsplits (h.stuck arguments h.stands List.prefix_rfl)
  · rw [h.unique ho, hread]

-----------------------------------------------------------------------------------------
-- Command lines
-----------------------------------------------------------------------------------------

/-- Reading gives a request exactly if the arguments spell items with one file, which is what they
request. -/
theorem read_eq_ok_iff {arguments : List String} {request : Request}
    : read arguments = .ok request
      ↔ ∃ items file,
          spelled items = arguments ∧ files items = [file] ∧ request = requestOf items file := by
  constructor
  · intro h
    rcases splits_or_breaksAt arguments with ⟨items, rfl, -⟩ | ⟨front, argument, -, hread⟩
    · rw [read_spelled] at h
      split at h
      · cases h
      · next file hfiles => exact ⟨items, file, rfl, hfiles, (Except.ok.inj h).symm⟩
      · cases h
    · rw [hread] at h
      cases h
  · rintro ⟨items, file, rfl, hfiles, rfl⟩
    rw [read_spelled, hfiles]

/-- Reading fails exactly if the arguments break off, or spell items without a file. -/
theorem read_eq_error_iff {arguments : List String} {misuse : Misuse}
    : read arguments = .error misuse
      ↔ (∃ front argument, BreaksAt arguments front argument ∧ misuse = misuseOf argument)
        ∨ (∃ items, spelled items = arguments ∧ files items = []) ∧ misuse = .noFile := by
  constructor
  · intro h
    rcases splits_or_breaksAt arguments with hsplits | ⟨front, argument, hbreaks, hread⟩
    · have hmisuse := hsplits.eq_noFile h
      obtain ⟨items, rfl, -⟩ := hsplits
      rw [read_spelled, hmisuse] at h
      split at h
      · next hfiles => exact Or.inr ⟨⟨items, rfl, hfiles⟩, hmisuse⟩
      · cases h
      · cases h
    · rw [hread] at h
      exact Or.inl ⟨front, argument, hbreaks, (Except.error.inj h).symm⟩
  · rintro (⟨front, argument, hbreaks, rfl⟩ | ⟨⟨items, rfl, hfiles⟩, rfl⟩)
    · exact hbreaks.read_eq
    · rw [read_spelled, hfiles]

/-- Arguments ask for something exactly if they are items with one file. Then the file is that one,
the start value is the last that is given, and each flag is set if it is there. Items ask for the
same in any order that keeps the values for `Ans` in theirs. Arguments that ask for nothing are told
what is wrong with the first one at which splitting them into items with at most one file cannot go
on, or that there is no file if they are items without one. -/
theorem read_by_items (arguments : List String)
    : (∀ request,
        read arguments = .ok request
        ↔ ∃ items file,
            spelled items = arguments ∧ files items = [file] ∧ request = requestOf items file)
      ∧ (∀ items other : List Item,
          items.Perm other
          → values items = values other
          → read (spelled items) = read (spelled other))
      ∧ (∀ misuse,
          read arguments = .error misuse
          ↔ (∃ front argument, BreaksAt arguments front argument ∧ misuse = misuseOf argument)
            ∨ (∃ items, spelled items = arguments ∧ files items = []) ∧ misuse = .noFile)
      ∧ Misuse.message .noFile = "No input file provided" :=
  ⟨fun _ => read_eq_ok_iff, fun _ _ => read_spelled_perm, fun _ => read_eq_error_iff, rfl⟩

end LoopCalc.CommandLine
