import Befunge.Plane

/-!
# Profiles

Which cells were executed, how often, and when first.
-/

namespace Befunge

structure Visit where
  hits : Nat
  /-- The number of the step that executed the cell first, counted from 1. -/
  firstStep : Nat
  deriving DecidableEq, Repr

abbrev Profile := Plane (Option Visit)

namespace Profile

def empty : Profile := Plane.fill none

def visit? (t : Profile) (p : Position) : Option Visit := (t.get? p).join

def count (t : Profile) (p : Position) (step : Nat) : Profile :=
  match t.visit? p with
  | none => t.set p (some ⟨1, step⟩)
  | some v => t.set p (some { v with hits := v.hits + 1 })

/-- Forgets the cells first executed after a number of steps. -/
def forget (t : Profile) (steps : Nat) : Profile := t.map (·.filter (·.firstStep ≤ steps))

@[simp]
theorem visit?_empty (p : Position) : empty.visit? p = none := by
  unfold visit? empty
  rw [Plane.get?_fill]
  split <;> rfl

theorem visit?_count (t : Profile) (p q : Position) (step : Nat) :
    (t.count p step).visit? q =
      if p = q ∧ p.InBounds then
        some ((t.visit? p).elim ⟨1, step⟩ fun v => { v with hits := v.hits + 1 })
      else t.visit? q := by
  have hset : ∀ v, Profile.visit? (t.set p (some v)) q =
      if p = q ∧ p.InBounds then some v else t.visit? q := by
    intro v
    unfold visit?
    rw [Plane.get?_set]
    split <;> rfl
  unfold count
  cases t.visit? p <;> exact hset _

theorem visit?_forget (t : Profile) (steps : Nat) (p : Position) :
    (t.forget steps).visit? p = (t.visit? p).filter (·.firstStep ≤ steps) := by
  unfold forget visit?
  rw [Plane.get?_map]
  cases t.get? p <;> rfl

def toList (t : Profile) : List (Position × Visit) :=
  Position.all.filterMap fun p => (t.visit? p).map (p, ·)

end Profile

end Befunge
