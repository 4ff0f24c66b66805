import Befunge.Screen.Widget
import Befunge.Text.Lines
import Befunge.Viewer.Theme
import Befunge.Viewer.Viewport

/-!
# The pane of the output

Shows the lines that the program has written up to the moment shown.
-/

namespace Befunge.Viewer.OutputPane

open Screen

def scrolled (lines : List (List Char)) (height offset : Nat) : Nat :=
  clampScroll offset lines.length (pageHeight height)

def shown (lines : List (List Char)) (height offset : Nat) : List (List Char) :=
  page lines (scrolled lines height offset) (pageHeight height)

def block (focused : Bool) (padding : Nat) : Block where
  title := " Terminal Output "
  border := Theme.border focused
  padding := padding

/-- The pane at some height, and the scroll offset it is drawn from. Without output a remark stands
in it, and the offset stays. -/
def widget (output : String) (height : Nat) (focused : Bool) (offset : Nat) : Widget × Nat :=
  let lines := Text.lines output.toList
  if lines.isEmpty then
    (.paragraph (some (block focused 0)) [span "(no output)" {}] { fg := Theme.grey } false, offset)
  else
    (.list (block focused 1) ((shown lines height offset).map fun line =>
        (line.map (⟨·, {}⟩), { fg := Theme.text })),
      scrolled lines height offset)

end Befunge.Viewer.OutputPane
