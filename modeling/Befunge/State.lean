import Befunge.Cursor
import Befunge.Playfield
import Befunge.Stack

/-!
# States

One moment of a running program: everything that the next step depends on, apart from the outside
world. States are what the history records.
-/

namespace Befunge

inductive Mode where
  | normal
  /-- Every cell but a quote is pushed. -/
  | string
  deriving DecidableEq, Repr

namespace Mode

def name : Mode → String
  | .normal => "normal"
  | .string => "string"

def toggle : Mode → Mode
  | .normal => .string
  | .string => .normal

end Mode

structure State where
  field : Playfield
  /-- The step that wrote to the field last, 0 for the field as loaded. States with the same edition
  share one field. A write goes to a copy while a recorded state has the field too, and otherwise to
  the field in place; either way no recorded state has the field it leaves, and so its number is
  always a new one. -/
  edition : Nat := 0
  stack : Stack := {}
  cursor : Cursor := .start
  mode : Mode := .normal
  halted : Bool := false
  steps : Nat := 0
  /-- Bytes of output written so far. -/
  outputLength : Nat := 0
  deriving DecidableEq

namespace State

def initial (field : Playfield) : State := { field }

/-- The cell under the cursor; none if the cursor is off the field. -/
def fetch? (s : State) : Option Cell := s.field.get? s.cursor.position

def current (s : State) : Cell := s.field.cell s.cursor.position

theorem fetch?_eq_some_current {s : State} (hs : s.cursor.position.InBounds) :
    s.fetch? = some s.current := s.field.get?_eq_some_cell hs

theorem fetch?_getD (s : State) : s.fetch?.getD Cell.blank = s.current := rfl

/-- Writes to the field, which makes a new edition of it; none off the field. -/
@[inline]
def write? : State → Position → Cell → Option State
  | ⟨field, _, stack, cursor, mode, halted, steps, outputLength⟩, p, v =>
    (field.set? p v).map fun field =>
      ⟨field, steps, stack, cursor, mode, halted, steps, outputLength⟩

theorem write?_of_inBounds (s : State) {p : Position} (hp : p.InBounds) (v : Cell) :
    s.write? p v = some { s with field := s.field.set p v, edition := s.steps } := by
  rw [write?, Plane.set?_of_inBounds _ hp, Option.map_some]

def push (s : State) (v : Cell) : State := { s with stack := s.stack.push v }

def turn (s : State) (d : Direction) : State := { s with cursor := s.cursor.turn d }

def advance (s : State) : State := { s with cursor := s.cursor.advance }

end State

end Befunge
