/-!
# Styles

Colours and emphasis of the characters on a screen. A style says only what it changes.
-/

namespace Befunge.Screen

inductive Colour where
  /-- What the screen uses when nothing is said. -/
  | reset
  | black
  | rgb (red green blue : UInt8)
  deriving DecidableEq, Repr

namespace Colour

def hexByte (b : UInt8) : List Char := [Nat.digitChar (b.toNat / 16), Nat.digitChar (b.toNat % 16)]

def toText : Colour → String
  | .reset => "reset"
  | .black => "black"
  | .rgb r g b => String.ofList ('#' :: hexByte r ++ hexByte g ++ hexByte b)

end Colour

structure Style where
  fg : Option Colour := none
  bg : Option Colour := none
  bold : Bool := false
  underlined : Bool := false
  deriving DecidableEq, Repr

structure Tile where
  glyph : Char := ' '
  fg : Colour := .reset
  bg : Colour := .reset
  bold : Bool := false
  underlined : Bool := false
  deriving DecidableEq, Repr

/-- Changes the colours a style has, and adds its emphasis. -/
def Tile.restyle (t : Tile) (s : Style) : Tile where
  glyph := t.glyph
  fg := s.fg.getD t.fg
  bg := s.bg.getD t.bg
  bold := t.bold || s.bold
  underlined := t.underlined || s.underlined

end Befunge.Screen
