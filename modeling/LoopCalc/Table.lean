import LoopCalc.Variable

/-!
Tables: a value for each of the variables. Two tables are the same if they give every variable the
same value, and a write changes the value of one variable only.
-/

namespace LoopCalc

/-- A value for each variable, in display order. -/
structure Table (α : Type) where
  values : Vector α Variable.count
deriving DecidableEq

namespace Table

/-- Every variable has the given value. -/
def const {α : Type} (x : α) : Table α :=
  ⟨Vector.replicate Variable.count x⟩

/-- The value of a variable. -/
def get {α : Type} (t : Table α) (v : Variable) : α :=
  t.values[v.index]

/-- The table after a variable has taken a value. -/
def set {α : Type} (t : Table α) (v : Variable) (x : α) : Table α :=
  ⟨t.values.set v.index x⟩

/-- A constant table has the same entry for every variable. -/
@[simp]
theorem get_const {α : Type} (x : α) (v : Variable) : (const x).get v = x := by
  simp [const, get]

/-- An entry that was set is there. -/
@[simp]
theorem get_set_self {α : Type} (t : Table α) (v : Variable) (x : α) : (t.set v x).get v = x := by
  simp [get, set]

/-- Setting an entry leaves the others alone, as variables have different places. -/
theorem get_set_of_ne {α : Type} {t : Table α} {v w : Variable} {x : α} (h : v ≠ w)
    : (t.set v x).get w = t.get w := by
  have hi : v.index.val ≠ w.index.val := by
    intro he
    exact h (by rw [← Variable.ofIndex_index v, ← Variable.ofIndex_index w, Fin.ext he])
  simp [get, set, Vector.getElem_set_ne, hi]

/-- What an entry is after one has been set. -/
theorem get_set {α : Type} (t : Table α) (v w : Variable) (x : α)
    : (t.set v x).get w = if v = w then x else t.get w := by
  by_cases h : v = w
  · subst h; simp
  · simp [get_set_of_ne h, h]

/-- Tables with the same values are the same. -/
theorem ext_get {α : Type} {t u : Table α} (h : ∀ v, t.get v = u.get v) : t = u := by
  cases t with
  | mk xs =>
      cases u with
      | mk ys =>
          congr 1
          ext i hi
          simpa [get] using h (Variable.ofIndex ⟨i, hi⟩)

end Table

end LoopCalc
