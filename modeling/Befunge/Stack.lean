import Befunge.Cell

/-!
# The operand stack

A stack that never runs dry: below its last value there are only zeros.
-/

namespace Befunge

/-- The values of the stack, the top first. -/
structure Stack where
  values : List Cell := []
  deriving DecidableEq, Repr

namespace Stack

def empty : Stack := {}

def depth (s : Stack) : Nat := s.values.length

def push (s : Stack) (v : Cell) : Stack := ⟨v :: s.values⟩

/-- The top value, 0 on an empty stack. -/
def peek (s : Stack) : Cell := s.values.headD 0

def discard (s : Stack) : Stack := ⟨s.values.tail⟩

def pop (s : Stack) : Cell × Stack := (s.peek, s.discard)

/-- The values from the bottom to the top. -/
def toList (s : Stack) : List Cell := s.values.reverse

/-- The stack that holds the given values from the bottom to the top. -/
def ofList (vs : List Cell) : Stack := ⟨vs.reverse⟩

@[simp]
theorem ofList_toList (s : Stack) : ofList s.toList = s := by
  simp [ofList, toList]

@[simp]
theorem toList_push (s : Stack) (v : Cell) : (s.push v).toList = s.toList ++ [v] := by
  simp [toList, push]

theorem discard_eq_drop (s : Stack) : s.discard = ⟨s.values.drop 1⟩ := by
  rw [discard, List.drop_one]

theorem peek_drop (values : List Cell) (n : Nat) : peek ⟨values.drop n⟩ = values.getD n 0 := by
  rw [peek, List.headD_eq_getD, List.getD_eq_getElem?_getD, List.getElem?_drop,
    List.getD_eq_getElem?_getD, Nat.add_zero]

@[simp]
theorem pop_push (s : Stack) (v : Cell) : (s.push v).pop = (v, s) := rfl

end Stack

end Befunge
