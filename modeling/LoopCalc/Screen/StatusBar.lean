import LoopCalc.Screen.Renderer

/-!
The status bar: on the left the start value of `Ans` and a message, on the right the keys.
-/

namespace LoopCalc.Screen

/-- What the status bar tells. -/
structure StatusBar where
  message : String
  /-- The start value of `Ans`, as typed. -/
  initial : String
  warnings : Bool
  failed : Bool
  /-- The start value is being typed. -/
  editing : Bool
deriving DecidableEq

namespace StatusBar

/-- How the badge with the start value is drawn. -/
def badge (s : StatusBar) : Style :=
  let ground :=
    if s.failed then Theme.error else if s.editing then Theme.secondary else Theme.primary
  (Style.inkOn .black ground).strong

/-- How descriptions are drawn. -/
def plainText : Style :=
  .inkOn Theme.text Theme.bar

/-- How separators are drawn. -/
def faintText : Style :=
  .inkOn Theme.comment Theme.bar

/-- The left half: start value and message. -/
def left (s : StatusBar) : List Span :=
  let mark := if s.editing then "_" else ""
  [⟨(" Ans: " ++ s.initial ++ mark ++ " ").toList, s.badge⟩,
    ⟨" | ".toList, faintText⟩,
    ⟨(" " ++ s.message ++ " ").toList, if s.failed then .inkOn Theme.error Theme.bar else plainText⟩]

/-- A key and what it does. -/
def key (name description : String) : List Span :=
  [⟨name.toList, .inkOn .black Theme.comment⟩, ⟨description.toList, plainText⟩]

/-- The line between two keys. -/
def divider : Span :=
  ⟨['│'], faintText⟩

/-- Keys with dividers between them. -/
def keys (list : List (String × String)) : List Span :=
  (list.map fun (name, description) => key name description).intersperse
      [divider, ⟨[' '], plainText⟩]
    |>.flatten

/-- The right half: the keys, and a badge while warnings are on. -/
def right (s : StatusBar) : List Span :=
  let known :=
    if s.editing then [(" ↵ ", " confirm "), (" esc ", " cancel ")]
    else [(" r ", " run "), (" i ", " Ans "), (" w ", " warnings "), ("q", " quit ")]
  let badge :=
    if s.warnings then [divider, ⟨" WARN ".toList, (Style.inkOn .black Theme.warning).strong⟩]
    else []
  keys known ++ badge

/-- Half of the bar: its text in the first row. -/
def half [Renderer] (side : Side) (width height : Nat) (spans : List Span) : Picture :=
  Renderer.draw (.text none (.paper Theme.bar) side [spans]) width height

/-- The status bar as a picture. -/
def draw [Renderer] (s : StatusBar) (width height : Nat) : Picture :=
  let split := Renderer.divide (.percent 50) width
  (half .left split height s.left).beside (half .right (width - split) height s.right)

end StatusBar

end LoopCalc.Screen
