import Befunge.Profile
import Befunge.Screen.Widget
import Befunge.State
import Befunge.Viewer.Theme
import Befunge.Viewer.Viewport

/-!
# The pane of the playfield

Shows the cells around the cursor. Instructions are coloured by their family, cells already
executed have a tinted background, changed cells are underlined, and the cell under the cursor
is inverted.
-/

namespace Befunge.Viewer

open Screen

structure FieldView where
  field : Playfield
  loaded : Playfield
  cursor : Cursor
  mode : Mode
  profile : Profile
  steps : Nat

namespace FieldView

def isModified (v : FieldView) (p : Position) : Bool := v.field.cell p ≠ v.loaded.cell p

/-- Whether the cell was executed before the moment shown. -/
def isVisited (v : FieldView) (p : Position) : Bool :=
  (v.profile.visit? p).any (·.firstStep ≤ v.steps)

def glyph (v : FieldView) (p : Position) : Char :=
  if (v.field.cell p).isPrintable then (v.field.cell p).glyph else '·'

def foreground (v : FieldView) (p : Position) : Colour :=
  if p = v.cursor.position then .black
  else if v.isModified p then Theme.pink
  else if !(v.field.cell p).isPrintable then Theme.grey
  else if v.mode = .string then Theme.orange
  else Theme.ofCategory (Instruction.decode (v.field.cell p)).category

def background? (v : FieldView) (p : Position) : Option Colour :=
  if p = v.cursor.position then some Theme.yellow
  else if v.isVisited p then some Theme.visitedBackground
  else none

def ink (v : FieldView) (p : Position) : Ink where
  glyph := v.glyph p
  style := {
    fg := v.foreground p
    bg := v.background? p
    bold := p = v.cursor.position
    underlined := v.isModified p }

def title (v : FieldView) : String :=
  let modified := (v.field.diff v.loaded).length
  " Program (" ++ toString v.cursor.position.x ++ ", " ++ toString v.cursor.position.y ++ ") " ++
    v.cursor.direction.arrow.toString ++ (if v.mode = .string then " \"STRING\"" else "") ++
    (if 0 < modified then " [" ++ toString modified ++ " modified]" else "") ++ " "

/-- The cells that a window of some size shows, row by row. -/
def window (v : FieldView) (columns rows : Nat) : List (List Ink) :=
  let left := viewportOffset v.cursor.position.x width columns
  let top := viewportOffset v.cursor.position.y height rows
  (List.range (min rows (height - top))).map fun j =>
    (List.range (min columns (width - left))).map fun i => v.ink ⟨left + i, top + j⟩

/-- The cells inside the frame of an area. -/
def widget (v : FieldView) (a : Area) (focused : Bool) : Widget :=
  .paragraph (some { title := v.title, border := Theme.border focused })
    (v.window (a.width - 2) (a.height - 2)) {} false

end FieldView

end Befunge.Viewer
