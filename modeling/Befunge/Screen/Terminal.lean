import Befunge.Screen.Render
import Befunge.Text.Width

/-!
# The screen of a terminal
-/

namespace Befunge.Screen

/-- A frame as a terminal shows it, drawn onto an empty screen. -/
def picture (frame : Frame) : Picture :=
  frame.foldl (fun p e => render Text.columns e.1 e.2 p) .empty

end Befunge.Screen
