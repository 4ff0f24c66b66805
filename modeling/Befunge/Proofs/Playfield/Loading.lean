import Befunge.Journal
import Befunge.Proofs.Text.Lines
import Befunge.Proofs.Text.Scalar
import Mathlib.Data.List.Basic

/-!
# Loading a program text

A text is laid out character by character, each line in its row. What does not fit is cut, and each
cut is reported.
-/

namespace Befunge

open Text

namespace Playfield

section Layout

theorem get?_writeRow_of_ne {y x : Nat} {p : Position} (field : Playfield) (row : List Char)
    (h : p.y ≠ y ∨ p.x < x) : (field.writeRow y x row).get? p = field.get? p := by
  induction row generalizing field x with
  | nil => rfl
  | cons c row ih =>
    have hne : ¬((⟨x, y⟩ : Position) = p ∧ (⟨x, y⟩ : Position).InBounds) := by
      rintro ⟨rfl, -⟩
      simp at h
    rw [writeRow, ih _ (h.imp_right Nat.lt_succ_of_lt), Plane.get?_set, if_neg hne]

theorem get?_writeRow {y x i : Nat} (field : Playfield) (row : List Char)
    (h : (⟨x + i, y⟩ : Position).InBounds) :
    (field.writeRow y x row).get? ⟨x + i, y⟩ =
      (row[i]?.map Cell.ofChar).or (field.get? ⟨x + i, y⟩) := by
  induction row generalizing field x i with
  | nil => rfl
  | cons c row ih =>
    cases i with
    | zero =>
      rw [writeRow, get?_writeRow_of_ne _ _ (.inr (Nat.lt_succ_self x)), Plane.get?_set,
        if_pos ⟨rfl, h⟩]
      rfl
    | succ i =>
      have hplace : (⟨x + (i + 1), y⟩ : Position) = ⟨x + 1 + i, y⟩ := by
        rw [Nat.add_right_comm, Nat.add_assoc]
      have hne : (⟨x, y⟩ : Position) ≠ ⟨x + 1 + i, y⟩ := by
        simp only [ne_eq, Position.mk.injEq]
        omega
      rw [hplace] at h ⊢
      rw [writeRow, ih _ h, Plane.get?_set, if_neg fun hc => hne hc.1]
      rfl

theorem get?_writeRows_of_lt {y : Nat} {p : Position} (field : Playfield)
    (rows : List (List Char)) (h : p.y < y) :
    (field.writeRows y rows).get? p = field.get? p := by
  induction rows generalizing field y with
  | nil => rfl
  | cons row rows ih =>
    rw [writeRows, ih _ (Nat.lt_succ_of_lt h), get?_writeRow_of_ne _ _ (.inl (Nat.ne_of_lt h))]

theorem get?_writeRows {y x i : Nat} (field : Playfield) (rows : List (List Char))
    (h : (⟨x, y + i⟩ : Position).InBounds) :
    (field.writeRows y rows).get? ⟨x, y + i⟩ =
      ((rows[i]?.bind (·[x]?)).map Cell.ofChar).or (field.get? ⟨x, y + i⟩) := by
  induction rows generalizing field y i with
  | nil => rfl
  | cons row rows ih =>
    cases i with
    | zero =>
      have hrow := get?_writeRow (x := 0) field row (Nat.zero_add x ▸ h)
      rw [Nat.zero_add] at hrow
      rw [writeRows, get?_writeRows_of_lt _ _ (Nat.lt_succ_self y)]
      exact hrow
    | succ i =>
      have hplace : (⟨x, y + (i + 1)⟩ : Position) = ⟨x, y + 1 + i⟩ := by
        rw [Nat.add_right_comm, Nat.add_assoc]
      have hbelow : y + 1 + i ≠ y := by omega
      rw [hplace] at h ⊢
      rw [writeRows, ih _ h, get?_writeRow_of_ne _ _ (.inl hbelow)]
      rfl

/-- Each cell of a loaded field is the character that stands at its place in the text. -/
theorem get?_load (text : String) {p : Position} (hp : p.InBounds) :
    (load text).get? p =
      some (((sourceLines text)[p.y]?.bind (·[p.x]?)).elim Cell.blank Cell.ofChar) := by
  obtain ⟨x, y⟩ := p
  have hwritten := get?_writeRows (y := 0) (x := x) (i := y) blank
    (((sourceLines text).take height).map (·.take width)) (by rwa [Nat.zero_add])
  rw [Nat.zero_add, List.getElem?_map, List.getElem?_take, if_pos hp.2, blank, Plane.get?_fill,
    if_pos hp] at hwritten
  rw [load, blank, hwritten]
  cases (sourceLines text)[y]? with
  | none => rfl
  | some row =>
    simp only [Option.map_some, Option.bind_some, List.getElem?_take, if_pos hp.1]
    cases row[x]? <;> rfl

end Layout

section Cuts

variable {text : String}

theorem mem_cuts_lines_iff {n : Nat} :
    .lines n ∈ cuts text ↔ height < (sourceLines text).length ∧ n = (sourceLines text).length := by
  simp [cuts, List.mem_ite_nil_right]

theorem mem_cuts_line_iff {y n : Nat} :
    .line y n ∈ cuts text ↔ y < height ∧
      ∃ line, (sourceLines text)[y]? = some line ∧ width < line.length ∧ n = line.length := by
  have hrow : ∀ line, (line, y) ∈ ((sourceLines text).take height).zipIdx ↔
      y < height ∧ (sourceLines text)[y]? = some line := by
    intro line
    rw [List.mem_zipIdx_iff_getElem?, List.getElem?_take]
    split <;> simp [*]
  simp only [cuts, List.mem_append, List.mem_map, List.mem_filter, decide_eq_true_eq]
  constructor
  · rintro (hlines | ⟨⟨line, row⟩, ⟨hmem, hwide⟩, heq⟩)
    · split at hlines <;> simp at hlines
    · cases heq
      obtain ⟨hy, hline⟩ := (hrow line).mp hmem
      exact ⟨hy, line, hline, hwide, rfl⟩
  · rintro ⟨hy, line, hline, hwide, rfl⟩
    exact .inr ⟨(line, y), ⟨(hrow line).mpr ⟨hy, hline⟩, hwide⟩, rfl⟩

end Cuts

section RoundTrip

variable {g : Playfield}

theorem toList_rowText (g : Playfield) {y : Nat} (hy : y < height) :
    (g.rowText y).toList = (List.range width).map fun x => (g.cell ⟨x, y⟩).glyph := by
  have hrow : g.row y = (List.range width).map fun x => g.cell ⟨x, y⟩ := by
    apply List.ext_getElem?
    intro x
    rw [Plane.getElem?_row, List.getElem?_map]
    by_cases hx : x < width
    · rw [List.getElem?_range hx, g.get?_eq_some_cell ⟨hx, hy⟩, Option.map_some]
    · have hout : ¬Position.InBounds ⟨x, y⟩ := fun h => hx h.1
      have hend : (List.range width)[x]? = none := by simpa using hx
      rw [(g.get?_eq_none_iff _).mpr hout, hend, Option.map_none]
  rw [rowText, String.toList_ofList, hrow, List.map_map]
  rfl

/-- A field in which nothing could be taken for the end of a line. -/
structure Plain (g : Playfield) : Prop where
  newline : ∀ p, p.InBounds → g.cell p ≠ 10
  carriageReturn : ∀ y < height, g.cell ⟨79, y⟩ ≠ 13

theorem Plain.newline_not_mem (h : Plain g) {y : Nat} (hy : y < height) :
    '\n' ∉ (g.rowText y).toList := by
  rw [toList_rowText g hy]
  intro hmem
  obtain ⟨x, hx, hglyph⟩ := List.mem_map.mp hmem
  exact Cell.glyph_ne (h.newline _ ⟨List.mem_range.mp hx, hy⟩) (by decide) hglyph

theorem Plain.chomp_rowText (h : Plain g) {y : Nat} (hy : y < height) :
    chomp (g.rowText y).toList = (g.rowText y).toList := by
  have hlast : (g.cell ⟨79, y⟩).glyph ≠ '\r' :=
    Cell.glyph_ne (h.carriageReturn y hy) (by decide)
  have hrow : (g.rowText y).toList.getLast? = some (g.cell ⟨79, y⟩).glyph := by
    rw [toList_rowText g hy, List.getLast?_map, List.getLast?_range]
    rfl
  rw [chomp, hrow, if_neg fun h => hlast (Option.some.inj h)]

theorem Plain.sourceLines_eq (h : Plain g) {tail : String} (htail : tail = "" ∨ tail = "\n") :
    sourceLines (String.intercalate "\n" ((List.range height).map g.rowText) ++ tail) =
      (List.range height).map fun y => (g.rowText y).toList := by
  have hlast : g.rowText 24 ≠ "" := by
    intro hempty
    have hrow := toList_rowText g (y := 24) (by decide)
    rw [hempty] at hrow
    cases hrow
  rw [sourceLines, lines_intercalate]
  · rw [List.map_map, List.map_map]
    apply List.map_congr_left
    intro y hy
    exact h.chomp_rowText (List.mem_range.mp hy)
  · intro row hrow
    obtain ⟨y, hy, rfl⟩ := List.mem_map.mp hrow
    exact h.newline_not_mem (List.mem_range.mp hy)
  · refine ⟨g.rowText 24, ?_, hlast⟩
    rw [List.getLast?_map, List.getLast?_range]
    rfl
  · exact htail

theorem Plain.get?_load (h : Plain g) {tail : String} (htail : tail = "" ∨ tail = "\n")
    {p : Position} (hp : p.InBounds) :
    (load (String.intercalate "\n" ((List.range height).map g.rowText) ++ tail)).get? p =
      some (if (g.cell p).IsScalar then g.cell p else 65533) := by
  obtain ⟨x, y⟩ := p
  rw [Playfield.get?_load _ hp, h.sourceLines_eq htail, List.getElem?_map,
    List.getElem?_range hp.2, Option.map_some, Option.bind_some, toList_rowText g hp.2,
    List.getElem?_map, List.getElem?_range hp.1, Option.map_some, Option.elim_some,
    Cell.ofChar_glyph]

theorem Plain.cuts_eq_nil (h : Plain g) {tail : String} (htail : tail = "" ∨ tail = "\n") :
    cuts (String.intercalate "\n" ((List.range height).map g.rowText) ++ tail) = [] := by
  apply List.eq_nil_iff_forall_not_mem.mpr
  intro cut hcut
  cases cut with
  | lines n =>
    have hmany := (mem_cuts_lines_iff.mp hcut).1
    rw [h.sourceLines_eq htail, List.length_map, List.length_range] at hmany
    exact Nat.lt_irrefl _ hmany
  | line y n =>
    obtain ⟨hy, line, hline, hwide, -⟩ := mem_cuts_line_iff.mp hcut
    rw [h.sourceLines_eq htail, List.getElem?_map, List.getElem?_range hy, Option.map_some] at hline
    obtain rfl := Option.some.inj hline
    rw [toList_rowText g hy, List.length_map, List.length_range] at hwide
    exact Nat.lt_irrefl _ hwide

/-- A field that is written out row by row can be loaded again, whether or not a newline ends the
last row, if no cell of it is a newline and none of the last column a carriage return. Every cell
comes back that is the code of a character, and the code of the replacement character for every
other one, and nothing is reported. -/
theorem dumped_rows_load_back (hnewline : ∀ p, p.InBounds → g.cell p ≠ 10)
    (hreturn : ∀ y < 25, g.cell ⟨79, y⟩ ≠ 13) {tail : String} (htail : tail = "" ∨ tail = "\n") :
    let text := String.intercalate "\n" ((List.range 25).map g.rowText) ++ tail
    load text = g.map (fun v => if v.IsScalar then v else 65533) ∧
      ((∀ p, p.InBounds → (g.cell p).IsScalar) → load text = g) ∧
      Journal.ofLoad text = [] := by
  intro text
  have h : Plain g := ⟨hnewline, hreturn⟩
  have hload : ∀ p, p.InBounds → (load text).get? p =
      some (if (g.cell p).IsScalar then g.cell p else 65533) := fun _ => h.get?_load htail
  refine ⟨?_, ?_, ?_⟩
  · apply Plane.ext
    intro p hp
    rw [hload p hp, Plane.get?_map, g.get?_eq_some_cell hp, Option.map_some]
  · intro hscalar
    apply Plane.ext
    intro p hp
    rw [hload p hp, g.get?_eq_some_cell hp, if_pos (hscalar p hp)]
  · exact List.map_eq_nil_iff.mpr (h.cuts_eq_nil htail)

/-- A carriage return in the first column and a cell that is no code, without a last newline. -/
theorem dumped_rows_load_back_mixed :
    let g : Playfield := (blank.set ⟨0, 0⟩ 13).set ⟨79, 24⟩ (-1)
    let text := String.intercalate "\n" ((List.range 25).map g.rowText)
    (load text).get? ⟨0, 0⟩ = some 13 ∧ (load text).get? ⟨79, 24⟩ = some 65533 ∧
      (load text).get? ⟨1, 0⟩ = some 32 ∧ Journal.ofLoad text = [] := by
  intro g text
  have hcell : ∀ p, g.cell p = if ⟨79, 24⟩ = p then -1 else if ⟨0, 0⟩ = p then 13 else 32 := by
    intro p
    have hblank : cell blank p = 32 := by
      rw [cell, blank, Plane.get?_fill]
      split <;> rfl
    rw [cell_set _ (by decide), cell_set _ (by decide), hblank]
  have hnewline : ∀ p, p.InBounds → g.cell p ≠ 10 := by
    intro p _
    rw [hcell]
    split
    · decide
    · split <;> decide
  have hreturn : ∀ y < 25, g.cell ⟨79, y⟩ ≠ 13 := by
    intro y _
    rw [hcell, if_neg (by simp : (⟨0, 0⟩ : Position) ≠ ⟨79, y⟩)]
    split <;> decide
  obtain ⟨hload, -, hjournal⟩ := dumped_rows_load_back hnewline hreturn (.inl (Eq.refl ""))
  rw [String.append_empty] at hload hjournal
  rw [hload, Plane.get?_map, Plane.get?_map, Plane.get?_map]
  exact ⟨by decide +kernel, by decide +kernel, by decide +kernel, hjournal⟩

end RoundTrip

end Playfield

end Befunge
