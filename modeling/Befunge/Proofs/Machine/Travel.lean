import Befunge.Cursor
import Mathlib.Data.Nat.ModEq
import Mathlib.Logic.Function.Iterate

/-!
# Travel on the torus

Where a cursor is after a number of moves, told from its coordinates and not from the moves. Moves
go cell by cell and wrap at each edge; coordinates are added up and wrapped once. Both lead to the
same place, so the way back undoes the way there, and without turning no way shorter than a lap
leads back.
-/

namespace Befunge

namespace Direction

def dx : Direction → Int
  | .right => 1
  | .left => -1
  | .up | .down => 0

def dy : Direction → Int
  | .down => 1
  | .up => -1
  | .left | .right => 0

/-- The number of cells on the way round the torus. -/
def lap : Direction → Nat
  | .left | .right => width
  | .up | .down => height

def opposite : Direction → Direction
  | .up => .down
  | .down => .up
  | .left => .right
  | .right => .left

end Direction

namespace Cursor

/-- The position `n` cells ahead. -/
def ahead (c : Cursor) (n : Nat) : Position where
  x := ((c.position.x + n * c.direction.dx) % (width : Int)).toNat
  y := ((c.position.y + n * c.direction.dy) % (height : Int)).toNat

variable {c : Cursor}

theorem ahead_zero (hc : c.position.InBounds) : c.ahead 0 = c.position := by
  obtain ⟨⟨x, y⟩, d⟩ := c
  simp only [Position.InBounds, width, height] at hc
  simp only [ahead, width, height, Position.mk.injEq]
  omega

theorem advance_ahead (c : Cursor) (n : Nat) :
    advance ⟨c.ahead n, c.direction⟩ = ⟨c.ahead (n + 1), c.direction⟩ := by
  obtain ⟨⟨x, y⟩, d⟩ := c
  cases d <;>
    simp only [advance, ahead, Direction.dx, Direction.dy, width, height, mk.injEq,
      Position.mk.injEq, and_true] <;>
    omega

theorem ahead_eq_iff {m n : Nat} : c.ahead m = c.ahead n ↔ m ≡ n [MOD c.direction.lap] := by
  obtain ⟨⟨x, y⟩, d⟩ := c
  cases d <;>
    simp only [ahead, Direction.lap, Direction.dx, Direction.dy, width, height,
      Position.mk.injEq, Nat.ModEq] <;>
    omega

theorem ahead_lap (hc : c.position.InBounds) : c.ahead c.direction.lap = c.position := by
  have hround : c.direction.lap ≡ 0 [MOD c.direction.lap] := by simp [Nat.ModEq]
  rw [ahead_eq_iff.mpr hround, ahead_zero hc]

theorem iterate_advance (hc : c.position.InBounds) (n : Nat) :
    advance^[n] c = ⟨c.ahead n, c.direction⟩ := by
  induction n with
  | zero =>
    rw [ahead_zero hc]
    rfl
  | succ n ih => rw [Function.iterate_succ_apply', ih, advance_ahead]

theorem wrap_eq_ahead {n : Nat} {x y : Cell} (hx : x.toInt = c.position.x + n * c.direction.dx)
    (hy : y.toInt = c.position.y + n * c.direction.dy) : .wrap x y = c.ahead n := by
  rw [Position.wrap, hx, hy]
  rfl

theorem ahead_inBounds (c : Cursor) (n : Nat) : (c.ahead n).InBounds := by
  simp only [Position.InBounds, ahead, width, height]
  omega

theorem ahead_opposite (hc : c.position.InBounds) (n : Nat) :
    ahead ⟨c.ahead n, c.direction.opposite⟩ n = c.position := by
  obtain ⟨⟨x, y⟩, d⟩ := c
  simp only [Position.InBounds, width, height] at hc
  cases d <;>
    simp only [ahead, Direction.opposite, Direction.dx, Direction.dy, width, height,
      Position.mk.injEq] <;>
    omega

/-- Advancing `n` times adds `n` times the unit vector of the direction to the coordinates and wraps
the sum onto the torus, and it keeps the direction. Turned round, the cursor is back where it was
after as many moves; not turned, it stands in the same place after two numbers of moves exactly if
they differ by whole laps. -/
theorem advance_travels_on_torus (hc : c.position.InBounds) (n : Nat) :
    (∀ x y : Cell, x.toInt = c.position.x + n * c.direction.dx →
        y.toInt = c.position.y + n * c.direction.dy →
        (advance^[n] c).position = .wrap x y) ∧
      (advance^[n] c).direction = c.direction ∧
      advance^[n] ((advance^[n] c).turn c.direction.opposite) = c.turn c.direction.opposite ∧
      ∀ m, (advance^[m] c).position = (advance^[n] c).position ↔
        m ≡ n [MOD c.direction.lap] := by
  refine ⟨?_, ?_, ?_, ?_⟩
  · intro x y hx hy
    rw [iterate_advance hc, wrap_eq_ahead hx hy]
  · rw [iterate_advance hc]
  · rw [iterate_advance hc, turn, iterate_advance (ahead_inBounds c n), ahead_opposite hc]
    rfl
  · intro m
    rw [iterate_advance hc, iterate_advance hc, ahead_eq_iff]

/-- One lap and one cell to the left of the left edge is the last column, where the cursor was after
one move and is again after each lap. -/
theorem advance_travels_on_torus_past_edge :
    let c : Cursor := ⟨⟨0, 3⟩, .left⟩
    c.position.InBounds ∧ (advance^[81] c).position = .wrap (-81) 3 ∧
      Position.wrap (-81) 3 = ⟨79, 3⟩ ∧ (advance^[81] c).direction = .left ∧
      advance^[81] ((advance^[81] c).turn .right) = ⟨⟨0, 3⟩, .right⟩ ∧
      ∀ m, (advance^[m] c).position = (advance^[81] c).position ↔ m ≡ 81 [MOD 80] := by
  intro c
  have hc : c.position.InBounds := by decide
  obtain ⟨hplace, hdirection, hback, hlaps⟩ := advance_travels_on_torus hc 81
  exact ⟨hc, hplace (-81) 3 (by decide) (by decide), by decide, hdirection, hback, hlaps⟩

end Cursor

end Befunge
