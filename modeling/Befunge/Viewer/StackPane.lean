import Befunge.Screen.Widget
import Befunge.Stack
import Befunge.Text.Lines
import Befunge.Viewer.Theme
import Befunge.Viewer.Viewport

/-!
# The pane of the stack

Values are listed from the top, each with its depth and with the character it encodes, if that can
be shown.
-/

namespace Befunge.Viewer.StackPane

open Screen

def entry (depth : Nat) (v : Cell) : List Ink :=
  span ("[" ++ Text.padLeft 3 (toString depth) ++ "] ") { fg := Theme.grey } ++
    span (Text.padLeft 12 v.toText) { fg := Theme.orange } ++
    (if v.isPrintable then span ("  '" ++ v.glyph.toString ++ "'") { fg := Theme.orange }
      else []) ++
    (if depth = 0 then span "  ◂ top" { fg := Theme.orange, bold := true } else [])

/-- The values with their depths, the top first. -/
def entries (s : Stack) : List (Nat × Cell) := s.values.zipIdx.map fun (v, depth) => (depth, v)

def scrolled (s : Stack) (height offset : Nat) : Nat :=
  clampScroll offset s.depth (pageHeight height)

def shown (s : Stack) (height offset : Nat) : List (Nat × Cell) :=
  page (entries s) (scrolled s height offset) (pageHeight height)

def block (s : Stack) (focused : Bool) : Block where
  title := " Stack (" ++ toString s.depth ++ ") "
  border := Theme.border focused
  padding := 1

/-- The pane at some height, and the scroll offset it is drawn from. -/
def widget (s : Stack) (height : Nat) (focused : Bool) (offset : Nat) : Widget × Nat :=
  if s.values.isEmpty then
    (.list (block s focused) [(span "(empty)" {}, { fg := Theme.grey })], 0)
  else
    (.list (block s focused) ((shown s height offset).map fun (depth, v) => (entry depth v, {})),
      scrolled s height offset)

end Befunge.Viewer.StackPane
