import Befunge.Screen.Widget

/-!
# The layout of the viewer

How a screen is divided among the panes. When room is short, the status bar, the output and the
stack come before the playfield.
-/

namespace Befunge.Viewer

open Screen

structure Layout where
  field : Area
  output : Area
  stack : Area
  status : Area
  deriving DecidableEq, Repr

namespace Layout

/-- The status bar takes the last row. The stack takes the columns that the field does not need, at
least 24; the output takes the rows that the field does not need, at least 5. -/
def ofSize (width height : Nat) : Layout :=
  let statusHeight := min height 1
  let panes := height - statusHeight
  let stackWidth := min width (max 24 (width - 82))
  let left := width - stackWidth
  let outputHeight := min panes (max 5 (panes - 27))
  let fieldHeight := panes - outputHeight
  { field := ⟨0, 0, left, fieldHeight⟩
    output := ⟨0, fieldHeight, left, outputHeight⟩
    stack := ⟨left, 0, stackWidth, panes⟩
    status := ⟨0, panes, width, statusHeight⟩ }

end Layout

end Befunge.Viewer
