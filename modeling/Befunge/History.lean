import Befunge.Attempt
import Befunge.State

/-!
# Histories

The recorded states of a run, under a budget of bytes. A state is charged for itself and for its
stack, and for its playfield unless the state before it has the same one.
-/

namespace Befunge

/-- A state that did not fit: bytes in use, bytes it would have taken, and the budget. -/
structure Overflow where
  used : Nat
  charge : Nat
  limit : Nat
  deriving DecidableEq, Repr

def Overflow.message (o : Overflow) : String :=
  "Snapshot memory limit exceeded: " ++ toString o.used ++ " + " ++ toString o.charge ++ " > " ++
    toString o.limit

/-- Bytes charged for a state, its playfield apart. -/
def State.size (s : State) : Nat := 80 + 8 * s.stack.depth

def Playfield.size : Nat := width * height * 8

structure History where
  limit : Nat
  used : Nat := 0
  states : Array State := #[]
  deriving DecidableEq

namespace History

def empty (limit : Nat) : History := { limit }

def length (h : History) : Nat := h.states.size

def get? (h : History) (i : Nat) : Option State := h.states[i]?

/-- Bytes charged for a state that follows the last one of `states`. -/
def charge (states : Array State) (s : State) : Nat :=
  if states.back?.any (·.edition = s.edition) then s.size else s.size + Playfield.size

/-- Adds a state, or says by how much it does not fit. -/
@[inline]
def push : History → State → Attempt Overflow History Unit
  | ⟨limit, used, states⟩, s =>
    let charge := charge states s
    if used + charge ≤ limit then (.ok (), ⟨limit, used + charge, states.push s⟩)
    else (.error ⟨used, charge, limit⟩, ⟨limit, used, states⟩)

/-- Drops the last state and gives its bytes back. -/
def pop : History → History
  | ⟨limit, used, states⟩ =>
    match states.back? with
    | none => ⟨limit, used, states⟩
    | some s =>
      let states := states.pop
      ⟨limit, used - charge states s, states⟩

theorem push_eq_ok_iff {h h' : History} {s : State} :
    h.push s = (.ok (), h') ↔ h.used + charge h.states s ≤ h.limit ∧
      h' = ⟨h.limit, h.used + charge h.states s, h.states.push s⟩ := by
  obtain ⟨limit, used, states⟩ := h
  simp only [push]
  split
  · next hle => simp [hle, eq_comm]
  · next hlt => simp [hlt]

/-- What does not fit leaves the history as it is. -/
theorem push_eq_error_iff {h h' : History} {s : State} {overflow : Overflow} :
    h.push s = (.error overflow, h') ↔ h.limit < h.used + charge h.states s ∧
      overflow = ⟨h.used, charge h.states s, h.limit⟩ ∧ h' = h := by
  obtain ⟨limit, used, states⟩ := h
  simp only [push]
  split
  · next hle => simp; omega
  · next hlt => simp [eq_comm]; omega

theorem length_of_push {h h' : History} {s : State} (hp : h.push s = (.ok (), h')) :
    h'.length = h.length + 1 := by
  obtain ⟨_, rfl⟩ := push_eq_ok_iff.mp hp
  simp [length]

@[simp]
theorem length_pop (h : History) : h.pop.length = h.length - 1 := by
  obtain ⟨limit, used, states⟩ := h
  simp only [pop, length]
  cases hb : states.back? with
  | none => simp [Array.back?_eq_none_iff.mp hb]
  | some s => simp

def dropLast : Nat → History → History
  | 0, h => h
  | n + 1, h => dropLast n h.pop

def truncate (n : Nat) (h : History) : History := h.dropLast (h.length - n)

@[simp]
theorem length_dropLast (n : Nat) (h : History) : (h.dropLast n).length = h.length - n := by
  induction n generalizing h with
  | zero => rfl
  | succ n ih =>
    rw [dropLast, ih, length_pop]
    omega

@[simp]
theorem length_truncate (n : Nat) (h : History) : (h.truncate n).length = min n h.length := by
  rw [truncate, length_dropLast]
  omega

end History

end Befunge
