import Befunge.Screen.Picture

/-!
# Drawing widgets

Borders with titles, lists and paragraphs, drawn into an area of a picture. Text is cut at the
right and at the bottom.
-/

namespace Befunge.Screen

/-- The character of a border at a place of a frame of some size. In a frame too small for its
parts, corners hide sides, and what is nearer to the top left hides the other corners. -/
def frameGlyph? (width height x y : Nat) : Option Char :=
  if x = 0 ∧ y = 0 then some '┌'
  else if x = 0 ∧ y + 1 = height then some '└'
  else if x + 1 = width ∧ y = 0 then some '┐'
  else if x + 1 = width ∧ y + 1 = height then some '┘'
  else if y + 1 = height then some '─'
  else if x + 1 = width then some '│'
  else if y = 0 then some '─'
  else if x = 0 then some '│'
  else none

namespace Picture

def frame (p : Picture) (a : Area) (s : Style) : Picture where
  tile x y :=
    if a.contains x y then
      match frameGlyph? a.width a.height (x - a.x) (y - a.y) with
      | some c => { (p.tile x y).restyle s with glyph := c }
      | none => p.tile x y
    else p.tile x y

variable (columns : Char → Nat)

/-- A frame with a title on its upper side, in the colours of the frame. -/
def framed (p : Picture) (a : Area) (b : Block) : Picture :=
  if a.isEmpty then p
  else (p.frame a b.border).write columns (a.x + 1) a.y
    (fit columns (a.width - 2) (span b.title {}))

/-- Writes rows downwards, each in the style of its whole line. -/
def listRows (p : Picture) (a : Area) (row : Nat) : List (List Ink × Style) → Picture
  | [] => p
  | (line, s) :: rest =>
    if row < a.height then
      ((p.restyle ⟨a.x, a.y + row, a.width, 1⟩ s).write columns a.x (a.y + row)
        (fit columns a.width line)).listRows a (row + 1) rest
    else p

def list (p : Picture) (a : Area) (items : List (List Ink × Style)) : Picture :=
  if a.isEmpty then p else p.listRows columns a 0 items

def rightOffset (width : Nat) (line : List Ink) : Nat := width - (spread columns line).length

/-- Writes lines downwards. A character wider than the whole area is left out. -/
def paragraphRows (p : Picture) (a : Area) (alignRight : Bool) (row : Nat) :
    List (List Ink) → Picture
  | [] => p
  | line :: rest =>
    if row < a.height then
      let line := fit columns a.width (line.filter fun i => columns i.glyph ≤ a.width)
      let left := if alignRight then rightOffset columns a.width line else 0
      (p.write columns (a.x + left) (a.y + row) line).paragraphRows a alignRight (row + 1) rest
    else p

def paragraph (p : Picture) (a : Area) (lines : List (List Ink)) (alignRight : Bool) : Picture :=
  if a.isEmpty then p else p.paragraphRows columns a alignRight 0 lines

end Picture

/-- Draws a widget into an area. -/
def render (columns : Char → Nat) (w : Widget) (a : Area) (p : Picture) : Picture :=
  match w with
  | .list block items =>
    (p.framed columns a block).list columns (a.inner.indented block.padding) items
  | .paragraph (some block) lines style alignRight =>
    ((p.restyle a style).framed columns a block).paragraph columns
      (a.inner.indented block.padding) lines alignRight
  | .paragraph none lines style alignRight =>
    (p.restyle a style).paragraph columns a lines alignRight

end Befunge.Screen
