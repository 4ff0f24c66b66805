import Befunge.Plane
import Befunge.Text.Lines

/-!
# The playfield

The plane of cells that a program text is laid out on and that the program itself may change.
Lines past the last row and characters past the last column are cut, and each cut is reported.
-/

namespace Befunge

abbrev Playfield := Plane Cell

namespace Playfield

def blank : Playfield := Plane.fill Cell.blank

/-- The cell at a position, a space off the field. -/
def cell (field : Playfield) (p : Position) : Cell := (field.get? p).getD Cell.blank

theorem get?_eq_some_cell (field : Playfield) {p : Position} (hp : p.InBounds) :
    field.get? p = some (field.cell p) := by
  cases hv : field.get? p with
  | none => exact absurd hp ((field.get?_eq_none_iff p).mp hv)
  | some v => rw [cell, hv, Option.getD_some]

theorem cell_set (field : Playfield) {p : Position} (h : p.InBounds) (q : Position) (v : Cell) :
    cell (field.set p v) q = if p = q then v else field.cell q := by
  unfold cell
  rw [Plane.get?_set]
  by_cases hpq : p = q
  · rw [if_pos ⟨hpq, h⟩, if_pos hpq, Option.getD_some]
  · rw [if_neg fun hc => hpq hc.1, if_neg hpq]

/-- Lays characters out in row `y`, rightwards from column `x`. -/
def writeRow (field : Playfield) (y x : Nat) : List Char → Playfield
  | [] => field
  | c :: rest => writeRow (field.set ⟨x, y⟩ (Cell.ofChar c)) y (x + 1) rest

def writeRows (field : Playfield) (y : Nat) : List (List Char) → Playfield
  | [] => field
  | row :: rest => writeRows (field.writeRow y 0 row) (y + 1) rest

/-- The lines of a program text, each without one carriage return at its end. -/
def sourceLines (text : String) : List (List Char) :=
  (Text.lines text.toList).map Text.chomp

/-- The playfield of a program text. Short lines are padded with spaces. -/
def load (text : String) : Playfield :=
  blank.writeRows 0 (((sourceLines text).take height).map (·.take width))

/-- What a program text loses when it is laid out. -/
inductive Cut where
  /-- The text has this many lines, more than there are rows. -/
  | lines (count : Nat)
  /-- The line of this row has this many characters, more than there are columns. -/
  | line (row length : Nat)
  deriving DecidableEq, Repr

/-- The cuts that loading a text makes, the missing lines first. -/
def cuts (text : String) : List Cut :=
  let rows := sourceLines text
  (if height < rows.length then [.lines rows.length] else []) ++
    ((rows.take height).zipIdx.filter (width < ·.1.length)).map fun (row, y) =>
      .line y row.length

/-- Row `y` as text, empty off the field. -/
def rowText (field : Playfield) (y : Nat) : String :=
  String.ofList ((field.row y).map Cell.glyph)

/-- The positions where two fields differ, row by row. -/
def diff (a b : Playfield) : List Position :=
  ((a.cells.toList.zip b.cells.toList).zipIdx.filter fun e => e.1.1 ≠ e.1.2).map fun e =>
    ⟨e.2 % width, e.2 / width⟩

/-- All rows as text, each but the last marked by a hyphen at its end. -/
def dump (field : Playfield) : String :=
  String.intercalate "-\n" ((List.range height).map field.rowText) ++ "\n"

end Playfield

end Befunge
