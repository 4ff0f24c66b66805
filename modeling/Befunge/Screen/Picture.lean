import Befunge.Screen.Widget

/-!
# Pictures

A picture gives every place of the plane a tile. Drawing changes some places and leaves the others;
a screen is a picture looked at through a window of some size. How many columns a character takes is
not decided here.
-/

namespace Befunge.Screen

structure Picture where
  tile : Nat → Nat → Tile

namespace Area

def contains (a : Area) (x y : Nat) : Bool :=
  a.x ≤ x && x < a.x + a.width && a.y ≤ y && y < a.y + a.height

def isEmpty (a : Area) : Bool := a.width = 0 || a.height = 0

def inner (a : Area) : Area := ⟨a.x + 1, a.y + 1, a.width - 2, a.height - 2⟩

def indented (a : Area) (n : Nat) : Area := ⟨a.x + n, a.y, a.width - n, a.height⟩

end Area

/-- What a line of text does to one place. -/
inductive Mark where
  | ink (i : Ink)
  /-- The second half of a wide character, which shows nothing. -/
  | spill
  deriving DecidableEq, Repr

def Mark.on (t : Tile) : Mark → Tile
  | .ink i => { t.restyle i.style with glyph := i.glyph }
  | .spill => {}

section Layout

variable (columns : Char → Nat)

/-- The places that a character takes, one mark for each column. -/
def Ink.marks (i : Ink) : List Mark :=
  match columns i.glyph with
  | 0 => []
  | n + 1 => .ink i :: List.replicate n .spill

def spread (line : List Ink) : List Mark := line.flatMap (Ink.marks columns)

/-- The leading part of a line that fits into some columns. -/
def fit (room : Nat) : List Ink → List Ink
  | [] => []
  | i :: rest =>
    if columns i.glyph ≤ room then i :: fit (room - columns i.glyph) rest else []

theorem Ink.length_marks (i : Ink) : (i.marks columns).length = columns i.glyph := by
  unfold Ink.marks
  split
  · next h => rw [h, List.length_nil]
  · next n h => rw [h, List.length_cons, List.length_replicate]

end Layout

namespace Picture

def empty : Picture := ⟨fun _ _ => {}⟩

def restyle (p : Picture) (a : Area) (s : Style) : Picture where
  tile x y := if a.contains x y then (p.tile x y).restyle s else p.tile x y

/-- Writes a line of text rightwards from a place. -/
def write (columns : Char → Nat) (p : Picture) (left row : Nat) (line : List Ink) : Picture :=
  let marks := (spread columns line).toArray
  ⟨fun x y =>
    if y = row ∧ left ≤ x then
      match marks[x - left]? with
      | some m => m.on (p.tile x y)
      | none => p.tile x y
    else p.tile x y⟩

/-- The tiles of a screen of some size, row by row. -/
def tiles (p : Picture) (width height : Nat) : List (List Tile) :=
  (List.range height).map fun y => (List.range width).map fun x => p.tile x y

end Picture

end Befunge.Screen
