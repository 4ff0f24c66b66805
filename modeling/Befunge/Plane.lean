import Befunge.Position

/-!
# Planes

One value at each position of the playing area. The playfield is a plane of cells, the profile a
plane of visits.
-/

namespace Befunge

/-- A value at each position, held in row-major order. -/
structure Plane (α : Type) where
  cells : Vector α (width * height)
  deriving DecidableEq

namespace Plane

variable {α : Type}

def fill (a : α) : Plane α := ⟨Vector.replicate _ a⟩

def get? (t : Plane α) (p : Position) : Option α :=
  if p.InBounds then t.cells[p.index]? else none

/-- Replaces the value at a position, if there is one. -/
@[inline]
def set? (t : Plane α) (p : Position) (a : α) : Option (Plane α) :=
  if h : p.InBounds then some ⟨t.cells.set p.index a (Position.index_lt h)⟩ else none

/-- Replaces the value at a position; a position off the plane changes nothing. -/
def set (t : Plane α) (p : Position) (a : α) : Plane α :=
  if h : p.InBounds then ⟨t.cells.set p.index a (Position.index_lt h)⟩ else t

def map {β : Type} (f : α → β) (t : Plane α) : Plane β := ⟨t.cells.map f⟩

/-- Cuts `n` rows off a list, one after the other. -/
def chunks : Nat → List α → List (List α)
  | 0, _ => []
  | n + 1, cells => cells.take width :: chunks n (cells.drop width)

def rows (t : Plane α) : List (List α) := chunks height t.cells.toList

/-- The values of row `y`, from the left; a row off the plane has none. -/
def row (t : Plane α) (y : Nat) : List α := t.rows[y]?.getD []

theorem get?_of_inBounds (t : Plane α) {p : Position} (h : p.InBounds) :
    t.get? p = t.cells[p.index]? := if_pos h

theorem get?_eq_none_iff (t : Plane α) (p : Position) : t.get? p = none ↔ ¬p.InBounds := by
  unfold get?
  split
  · next h => simp [h, Position.index_lt h]
  · next h => simp [h]

theorem set?_of_inBounds (t : Plane α) {p : Position} (h : p.InBounds) (a : α) :
    t.set? p a = some (t.set p a) := by
  rw [set?, set, dif_pos h, dif_pos h]

theorem get?_fill (a : α) (p : Position) :
    (fill a).get? p = if p.InBounds then some a else none := by
  unfold get? fill
  split
  · next h => simp [Position.index_lt h]
  · rfl

theorem get?_set (t : Plane α) (p q : Position) (a : α) :
    (t.set p a).get? q = if p = q ∧ p.InBounds then some a else t.get? q := by
  by_cases hp : p.InBounds
  · have hset : t.set p a = ⟨t.cells.set p.index a (Position.index_lt hp)⟩ := dif_pos hp
    rw [hset]
    by_cases hq : q.InBounds
    · rw [get?_of_inBounds _ hq, get?_of_inBounds _ hq, Vector.getElem?_set]
      by_cases h : p = q
      · simp [h, hq]
      · have hne : p.index ≠ q.index := fun hi => h (Position.index_inj hp hq hi)
        simp [h, hne]
    · have h : p ≠ q := fun h => hq (h ▸ hp)
      simp [h, (get?_eq_none_iff _ q).mpr hq]
  · have hset : t.set p a = t := dif_neg hp
    simp [hset, hp]

theorem get?_map {β : Type} (f : α → β) (t : Plane α) (p : Position) :
    (t.map f).get? p = (t.get? p).map f := by
  unfold get? map
  split <;> simp

theorem get?_ofIndex (t : Plane α) {i : Nat} (hi : i < width * height) :
    t.get? (.ofIndex i) = t.cells[i]? := by
  rw [get?_of_inBounds _ (Position.ofIndex_inBounds hi), Position.index_ofIndex]

theorem getElem?_chunks (n : Nat) (cells : List α) (y : Nat) :
    (chunks n cells)[y]? =
      if y < n then some ((cells.drop (y * width)).take width) else none := by
  induction n generalizing cells y with
  | zero => rfl
  | succ n ih =>
    cases y with
    | zero => simp [chunks]
    | succ y =>
      have hdrop : width + y * width = (y + 1) * width := by
        rw [Nat.add_mul, Nat.one_mul, Nat.add_comm]
      simp [chunks, ih, List.drop_drop, hdrop]

/-- A row reads the positions of the plane from the left. -/
theorem getElem?_row (t : Plane α) (x y : Nat) : (t.row y)[x]? = t.get? ⟨x, y⟩ := by
  unfold row rows get?
  rw [getElem?_chunks]
  by_cases hy : y < height
  · simp [hy, Position.InBounds, Position.index, List.getElem?_take]
  · simp [hy, Position.InBounds]

@[ext]
theorem ext {s t : Plane α} (h : ∀ p : Position, p.InBounds → s.get? p = t.get? p) : s = t := by
  obtain ⟨s⟩ := s
  obtain ⟨t⟩ := t
  congr 1
  apply Vector.ext
  intro i hi
  have he := h _ (Position.ofIndex_inBounds hi)
  rw [get?_ofIndex _ hi, get?_ofIndex _ hi] at he
  simpa [hi] using he

end Plane

def Position.all : List Position := (List.range (width * height)).map Position.ofIndex

theorem Position.mem_all (p : Position) : p ∈ Position.all ↔ p.InBounds := by
  constructor
  · intro h
    obtain ⟨i, hi, rfl⟩ := List.mem_map.mp h
    exact Position.ofIndex_inBounds (List.mem_range.mp hi)
  · intro h
    exact List.mem_map.mpr ⟨p.index, List.mem_range.mpr (Position.index_lt h),
      Position.ofIndex_index h⟩

end Befunge
