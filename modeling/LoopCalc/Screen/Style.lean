/-!
Styles of screen cells, and the colours that the calculator draws with.
-/

namespace LoopCalc.Screen

/-- A colour of a cell. -/
inductive Color where
  | black
  | white
  | rgb (red green blue : UInt8)
deriving DecidableEq

/-- How a cell is drawn. A colour that is not set shows what lies under it. -/
structure Style where
  foreground : Option Color
  background : Option Color
  bold : Bool
deriving DecidableEq

namespace Style

/-- Nothing is set. -/
def plain : Style :=
  ⟨none, none, false⟩

/-- A foreground colour. -/
def ink (color : Color) : Style :=
  ⟨some color, none, false⟩

/-- A background colour. -/
def paper (color : Color) : Style :=
  ⟨none, some color, false⟩

/-- A foreground on a background. -/
def inkOn (color ground : Color) : Style :=
  ⟨some color, some ground, false⟩

/-- The same style in bold. -/
def strong (s : Style) : Style :=
  { s with bold := true }

/-- The style laid over another: what it sets wins. -/
def onto (top bottom : Style) : Style :=
  ⟨top.foreground <|> bottom.foreground, top.background <|> bottom.background,
    top.bold || bottom.bold⟩

end Style

namespace Theme

def text : Color := .rgb 0xcd 0xd6 0xf4

def primary : Color := .rgb 0x89 0xb4 0xfa

def secondary : Color := .rgb 0xfa 0xb3 0x87

def comment : Color := .rgb 0x6c 0x70 0x86

def success : Color := .rgb 0xa6 0xe3 0xa1

def error : Color := .rgb 0xf3 0x8b 0xa8

def warning : Color := .rgb 0xf9 0xe2 0xaf

def keyword : Color := .rgb 0x89 0xb4 0xfa

def number : Color := .rgb 0xfa 0xb3 0x87

def name : Color := .rgb 0x94 0xe2 0xd5

def focusedBorder : Color := .rgb 0xf9 0xe2 0xaf

def normalBorder : Color := .rgb 0x6c 0x70 0x86

def bar : Color := .rgb 0x32 0x32 0x46

end Theme

end LoopCalc.Screen
