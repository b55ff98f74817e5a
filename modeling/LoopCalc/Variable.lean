/-!
The variables of the calculator: `Ans`, the letters `A` to `Z`, and `theta`. The set is closed, so
a reference can never name a variable that does not exist.
-/

namespace LoopCalc

/-- One of the 28 variables. Letters are numbered from `A`. -/
inductive Variable where
  | ans
  | letter (place : Fin 26)
  | theta
deriving DecidableEq

namespace Variable

/-- The number of variables. -/
abbrev count : Nat := 28

/-- The place of a variable in display order. -/
def index : Variable → Fin count
  | ans => 0
  | letter place => place.succ.castSucc
  | theta => 27

/-- The variable at a place of the display order. -/
def ofIndex (i : Fin count) : Variable :=
  if i.val = 0 then ans
  else if h : i.val - 1 < 26 then letter ⟨i.val - 1, h⟩
  else theta

/-- A variable is found at its place, by cases on its kind. -/
@[simp]
theorem ofIndex_index (v : Variable) : ofIndex v.index = v := by
  cases v with
  | ans => rfl
  | letter place => simp [ofIndex, index]
  | theta => rfl

/-- The variable at a place has that place. -/
@[simp]
theorem index_ofIndex (i : Fin count) : (ofIndex i).index = i := by
  revert i; decide

/-- Every variable, in display order. -/
def all : List Variable :=
  (List.finRange count).map ofIndex

/-- Every variable is in the list of all. -/
theorem mem_all (v : Variable) : v ∈ all := by
  simpa [all] using ⟨v.index, ofIndex_index v⟩

/-- The letter at a place of the alphabet. -/
def letterChar (place : Fin 26) : Char :=
  Char.ofNat (65 + place)

/-- The letter variable with the given character, if it is a capital letter. -/
def ofLetter? (c : Char) : Option Variable :=
  if h : 65 ≤ c.toNat ∧ c.toNat - 65 < 26 then some (letter ⟨c.toNat - 65, h.2⟩) else none

/-- The characters of the spelling in a source text. -/
def chars : Variable → List Char
  | ans => ['A', 'n', 's']
  | letter place => [letterChar place]
  | theta => ['t', 'h', 'e', 't', 'a']

/-- The spelling in a source text. -/
def name (v : Variable) : String :=
  String.ofList v.chars

/-- The variable with the given name. -/
def ofName? (name : String) : Option Variable :=
  all.find? fun v => v.name == name

/-- The variable with the longest name that starts the text. Only `Ans` starts with another name. -/
def atFront? : List Char → Option Variable
  | 'A' :: 'n' :: 's' :: _ => some ans
  | 't' :: 'h' :: 'e' :: 't' :: 'a' :: _ => some theta
  | c :: _ => ofLetter? c
  | [] => none

end Variable

end LoopCalc
