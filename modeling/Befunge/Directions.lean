import Befunge.Cursor

/-!
# Where `?` leads

A source of directions is whatever answers each request for one: what it gives depends on nothing
but the state it is in. States are told apart by numbers, so that every sequence of directions comes
from some source.
-/

namespace Befunge

structure Directions where
  /-- The direction that a state gives, and the state after it. -/
  next : Nat → Direction × Nat
  state : Nat := 0

namespace Directions

def draw : Directions → Direction × Directions
  | ⟨next, state⟩ =>
    let (d, state) := next state
    (d, ⟨next, state⟩)

/-- The directions of a list in turn, over and over. An empty list always leads right. -/
def ofScript (sequence : List Direction) : Directions where
  next n := (sequence[n % sequence.length]?.getD .right, n + 1)

end Directions

end Befunge
