/-!
# Windows on long things

Which part of something long is shown: around a cursor, or from a scroll offset.
-/

namespace Befunge.Viewer

/-- The first index shown so that the cursor is in the middle of a window of `visible` cells, or as
near to it as the ends allow. -/
def viewportOffset (cursor extent visible : Nat) : Nat :=
  if extent ≤ visible then 0 else min (cursor - visible / 2) (extent - visible)

/-- The largest scroll offset there is: as far down as possible. -/
def farthest : Nat := UInt64.size - 1

/-- A scroll offset moved back so far that the last page is full. -/
def clampScroll (offset total visible : Nat) : Nat :=
  if visible < total then min offset (total - visible) else 0

/-- Rows of a pane within its border, at least one. -/
def pageHeight (height : Nat) : Nat := max (height - 2) 1

def page {α : Type} (items : List α) (offset visible : Nat) : List α :=
  (items.drop offset).take visible

end Befunge.Viewer
