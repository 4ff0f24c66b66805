/-!
# Keys and focus
-/

namespace Befunge.Viewer

/-- The pane that the arrow keys scroll. -/
inductive Focus where
  | field
  | stack
  | output
  deriving DecidableEq, Repr

namespace Focus

def next : Focus → Focus
  | .field => .output
  | .output => .stack
  | .stack => .field

def previous : Focus → Focus
  | .field => .stack
  | .output => .field
  | .stack => .output

end Focus

inductive Key where
  | char (c : Char)
  | left
  | right
  | up
  | down
  | tab
  | backTab
  | enter
  | backspace
  | other
  deriving DecidableEq, Repr

end Befunge.Viewer
