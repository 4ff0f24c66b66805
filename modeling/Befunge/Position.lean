import Befunge.Cell

/-!
# Positions on the torus

The playing area has 80 columns and 25 rows, and its edges are glued: coordinates count modulo
its extents.
-/

namespace Befunge

def width : Nat := 80

def height : Nat := 25

/-- Column `x` and row `y`, both counted from the top left. -/
structure Position where
  x : Nat
  y : Nat
  deriving DecidableEq, Repr

namespace Position

def InBounds (p : Position) : Prop := p.x < width ∧ p.y < height

instance (p : Position) : Decidable p.InBounds := inferInstanceAs (Decidable (_ ∧ _))

def index (p : Position) : Nat := p.y * width + p.x

def ofIndex (i : Nat) : Position := ⟨i % width, i / width⟩

theorem index_lt {p : Position} (h : p.InBounds) : p.index < width * height := by
  simp only [InBounds, width, height] at h
  simp only [index, width, height]
  omega

theorem ofIndex_inBounds {i : Nat} (h : i < width * height) : (ofIndex i).InBounds := by
  simp only [width, height] at h
  simp only [InBounds, ofIndex, width, height]
  omega

@[simp]
theorem ofIndex_index {p : Position} (h : p.InBounds) : ofIndex p.index = p := by
  obtain ⟨x, y⟩ := p
  simp only [InBounds, width, height] at h
  simp only [ofIndex, index, width, mk.injEq]
  omega

@[simp]
theorem index_ofIndex (i : Nat) : (ofIndex i).index = i := by
  simp only [ofIndex, index, width]
  omega

theorem index_inj {p q : Position} (hp : p.InBounds) (hq : q.InBounds) (h : p.index = q.index) :
    p = q := by
  rw [← ofIndex_index hp, ← ofIndex_index hq, h]

/-- Arbitrary coordinates brought onto the torus by Euclidean remainders. -/
def wrap (x y : Cell) : Position :=
  ⟨(x.toInt % (width : Int)).toNat, (y.toInt % (height : Int)).toNat⟩

theorem wrap_inBounds (x y : Cell) : (wrap x y).InBounds := by
  simp only [InBounds, wrap, width, height]
  omega

def toText (p : Position) : String :=
  "(" ++ toString p.x ++ " , " ++ toString p.y ++ ")"

end Position

end Befunge
