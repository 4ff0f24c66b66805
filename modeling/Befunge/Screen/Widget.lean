import Befunge.Screen.Style

/-!
# Widgets

What a pane hands over to be drawn: lines of styled text, in a frame with a title or without one.
How a widget comes out on a screen is up to whoever draws it.
-/

namespace Befunge.Screen

/-- A rectangle, by its top left corner and its extents. -/
structure Area where
  x : Nat
  y : Nat
  width : Nat
  height : Nat
  deriving DecidableEq, Repr

structure Ink where
  glyph : Char
  style : Style := {}
  deriving DecidableEq, Repr

/-- A text written in one style. A newline takes no place in a line. -/
def span (text : String) (style : Style) : List Ink :=
  (text.toList.filter (· ≠ '\n')).map (⟨·, style⟩)

/-- A frame with a title, and with some columns left free inside it on the left. -/
structure Block where
  title : String
  border : Style
  padding : Nat := 0
  deriving DecidableEq, Repr

inductive Widget where
  /-- Items below each other, each with a style for its whole row. -/
  | list (block : Block) (items : List (List Ink × Style))
  /-- Lines below each other, over a ground in some style. -/
  | paragraph (block : Option Block) (lines : List (List Ink)) (style : Style)
    (alignRight : Bool)
  deriving DecidableEq, Repr

/-- What a screen shows: widgets and where they are drawn, the first ones first. -/
abbrev Frame := List (Widget × Area)

end Befunge.Screen
