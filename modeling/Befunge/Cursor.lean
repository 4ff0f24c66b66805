import Befunge.Position

/-!
# The cursor

The instruction pointer: a position and a direction of travel. It leaves the playing area at one
edge and comes back at the opposite one.
-/

namespace Befunge

inductive Direction where
  | up
  | down
  | left
  | right
  deriving DecidableEq, Repr

namespace Direction

def name : Direction → String
  | .up => "up"
  | .down => "down"
  | .left => "left"
  | .right => "right"

def arrow : Direction → Char
  | .up => '↑'
  | .down => '↓'
  | .left => '←'
  | .right => '→'

end Direction

structure Cursor where
  position : Position
  direction : Direction
  deriving DecidableEq, Repr

namespace Cursor

def start : Cursor := ⟨⟨0, 0⟩, .right⟩

def advance (c : Cursor) : Cursor :=
  let ⟨x, y⟩ := c.position
  match c.direction with
  | .right => { c with position := ⟨(x + 1) % width, y⟩ }
  | .left => { c with position := ⟨(x + width - 1) % width, y⟩ }
  | .up => { c with position := ⟨x, (y + height - 1) % height⟩ }
  | .down => { c with position := ⟨x, (y + 1) % height⟩ }

def turn (c : Cursor) (d : Direction) : Cursor := { c with direction := d }

/-- Turns one way on zero and another way on everything else. -/
def branch (c : Cursor) (flag : Cell) (onZero onOther : Direction) : Cursor :=
  c.turn (if flag = 0 then onZero else onOther)

theorem advance_inBounds {c : Cursor} (h : c.position.InBounds) :
    c.advance.position.InBounds := by
  obtain ⟨⟨x, y⟩, d⟩ := c
  simp only [Position.InBounds, width, height] at h
  cases d <;> simp only [advance, Position.InBounds, width, height] <;> omega

end Cursor

end Befunge
