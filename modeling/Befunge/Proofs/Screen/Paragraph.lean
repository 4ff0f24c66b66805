import Befunge.Screen.Terminal
import Mathlib.Algebra.GroupWithZero.Nat

/-!
# Paragraphs place by place

A line of text is laid out from the left, each character in as many columns as it takes. So the
column of a character is told by the characters before it, and the line ends before the first
character that does not fit. A title is written on the frame of a pane and nowhere else. This is all
that a proof about a pane needs to know of whoever draws it.
-/

namespace Befunge.Screen

section Lines

variable {columns : Char → Nat} {room c : Nat} {inks : List Ink} {h i : Ink}

/-- The columns that a line takes. -/
def extent (columns : Char → Nat) (inks : List Ink) : Nat :=
  (inks.map fun i => columns i.glyph).sum

theorem getElem?_marks :
    (h.marks columns)[c]? = some (.ink i) ↔ c = 0 ∧ 0 < columns h.glyph ∧ h = i := by
  unfold Ink.marks
  split
  · next hnone => simp [hnone]
  · next n hsome =>
    cases c with
    | zero => simp [hsome]
    | succ c => simp [List.getElem?_replicate]

theorem getElem?_spread_cons :
    (spread columns (h :: inks))[c]? =
      if c < columns h.glyph then (h.marks columns)[c]?
      else (spread columns inks)[c - columns h.glyph]? := by
  have hsplit : spread columns (h :: inks) = h.marks columns ++ spread columns inks := rfl
  rw [hsplit, List.getElem?_append, h.length_marks columns]

/-- A character stands in the column that the characters before it leave to it, if it takes any and
does not go beyond the last one. -/
theorem getElem?_spread_fit :
    (spread columns (fit columns room inks))[c]? = some (.ink i) ↔
      ∃ n, inks[n]? = some i ∧ extent columns (inks.take n) = c ∧ 0 < columns i.glyph ∧
        c + columns i.glyph ≤ room := by
  induction inks generalizing room c with
  | nil => simp [fit, spread]
  | cons h rest ih =>
    have hextent : ∀ n, extent columns ((h :: rest).take (n + 1)) =
        columns h.glyph + extent columns (rest.take n) := fun n => rfl
    rw [fit]
    constructor
    · intro hmark
      split at hmark
      · rw [getElem?_spread_cons] at hmark
        split at hmark
        · obtain ⟨rfl, hpos, rfl⟩ := getElem?_marks.mp hmark
          exact ⟨0, rfl, rfl, hpos, by omega⟩
        · obtain ⟨n, hn, hcolumn, hpos, hle⟩ := ih.mp hmark
          exact ⟨n + 1, hn, by rw [hextent]; omega, hpos, by omega⟩
      · cases hmark
    · rintro ⟨n, hn, rfl, hpos, hle⟩
      cases n with
      | zero =>
        obtain rfl := Option.some.inj hn
        have hfirst : extent columns ((h :: rest).take 0) = 0 := rfl
        rw [hfirst] at hle ⊢
        rw [if_pos (by omega), getElem?_spread_cons, if_pos hpos]
        exact getElem?_marks.mpr ⟨rfl, hpos, rfl⟩
      | succ n =>
        rw [hextent] at hle ⊢
        rw [if_pos (by omega), getElem?_spread_cons, if_neg (by omega)]
        exact ih.mpr ⟨n, hn, by omega, hpos, by omega⟩

/-- No character is left out for being too wide where there is room for two columns, or where it
would be the only one. -/
theorem fit_filter (htwo : ∀ g, columns g ≤ 2) (h : 2 ≤ room ∨ inks.length ≤ 1) :
    fit columns room (inks.filter fun i => columns i.glyph ≤ room) = fit columns room inks := by
  cases h with
  | inl hroom =>
    have hall : ∀ i ∈ inks, decide (columns i.glyph ≤ room) = true := fun i _ =>
      decide_eq_true (Nat.le_trans (htwo i.glyph) hroom)
    rw [List.filter_eq_self.mpr hall]
  | inr hshort =>
    cases inks with
    | nil => rfl
    | cons i rest =>
      have hrest : rest.length ≤ 0 := Nat.le_of_succ_le_succ hshort
      obtain rfl := List.eq_nil_of_length_eq_zero (Nat.le_zero.mp hrest)
      by_cases hi : columns i.glyph ≤ room
      · rw [List.filter_cons_of_pos (by simpa using hi), List.filter_nil]
      · rw [List.filter_cons_of_neg (by simpa using hi), List.filter_nil, fit, fit, if_neg hi]

end Lines

/-- What the line of a paragraph makes of the tile in one of its columns. -/
def inked (columns : Char → Nat) (width : Nat) (line : List Ink) (c : Nat) (t : Tile) : Tile :=
  (spread columns (fit columns width (line.filter fun i => columns i.glyph ≤ width)))[c]?.elim t
    (·.on t)

namespace Picture

variable {columns : Char → Nat} {p : Picture} {a : Area} {c r row : Nat} {lines : List (List Ink)}

theorem tile_write (p : Picture) (left row c : Nat) (line : List Ink) :
    (p.write columns left row line).tile (left + c) row =
      (spread columns line)[c]?.elim (p.tile (left + c) row) (·.on (p.tile (left + c) row)) := by
  simp only [write, Nat.le_add_right, and_self, if_true, Nat.add_sub_cancel_left,
    List.getElem?_toArray]
  cases (spread columns line)[c]? <;> rfl

theorem tile_write_of_ne {left x y : Nat} (p : Picture) (line : List Ink) (hy : y ≠ row) :
    (p.write columns left row line).tile x y = p.tile x y := if_neg fun h => hy h.1

theorem tile_paragraphRows (hr : r < a.height) :
    (p.paragraphRows columns a false row lines).tile (a.x + c) (a.y + r) =
      if row ≤ r then
        lines[r - row]?.elim (p.tile (a.x + c) (a.y + r)) fun line =>
          inked columns a.width line c (p.tile (a.x + c) (a.y + r))
      else p.tile (a.x + c) (a.y + r) := by
  induction lines generalizing p row with
  | nil => simp [paragraphRows]
  | cons line rest ih =>
    rw [paragraphRows]
    split
    · rw [ih]
      simp only [Bool.false_eq_true, if_false, Nat.add_zero]
      by_cases hrow : r = row
      · subst hrow
        rw [if_neg (by omega), if_pos (Nat.le_refl r), Nat.sub_self, tile_write]
        rfl
      · rw [tile_write_of_ne _ _ (by omega)]
        by_cases hbelow : row ≤ r
        · have hindex : r - row = r - (row + 1) + 1 := by omega
          rw [if_pos (by omega), if_pos hbelow, hindex, List.getElem?_cons_succ]
        · rw [if_neg (by omega), if_neg hbelow]
    · rw [if_neg (by omega)]

theorem tile_paragraph (lines : List (List Ink)) (hc : c < a.width) (hr : r < a.height) :
    (p.paragraph columns a lines false).tile (a.x + c) (a.y + r) =
      lines[r]?.elim (p.tile (a.x + c) (a.y + r)) fun line =>
        inked columns a.width line c (p.tile (a.x + c) (a.y + r)) := by
  have hsome : ¬a.isEmpty = true := by
    simp only [Area.isEmpty, Bool.or_eq_true, decide_eq_true_eq]
    omega
  rw [paragraph, if_neg hsome, tile_paragraphRows hr, if_pos (Nat.zero_le r), Nat.sub_zero]

theorem tile_framed (p : Picture) (block : Block) (hc : c < a.width - 2) (hr : r < a.height - 2) :
    (p.framed columns a block).tile (a.x + 1 + c) (a.y + 1 + r) =
      p.tile (a.x + 1 + c) (a.y + 1 + r) := by
  have hinside : frameGlyph? a.width a.height (a.x + 1 + c - a.x) (a.y + 1 + r - a.y) = none := by
    unfold frameGlyph?
    repeat rw [if_neg (by omega)]
  unfold framed
  split
  · rfl
  · rw [tile_write_of_ne _ _ (by omega)]
    simp only [frame, hinside, ite_self]

theorem tile_restyle_default (p : Picture) (x y : Nat) :
    (p.restyle a {}).tile x y = p.tile x y := by
  simp [restyle, Tile.restyle]

end Picture

/-- What is relied on of a way to draw widgets. A character takes at most two columns, a space takes
one. Within its frame, on blank ground, a paragraph has its lines below each other, each written
from the left as far as it fits. -/
structure LaysOut (columns : Char → Nat) (paint : Widget → Area → Picture → Picture) : Prop where
  columns_le_two : ∀ g, columns g ≤ 2
  columns_space : columns ' ' = 1
  tile_paragraph : ∀ (block : Block) (lines : List (List Ink)) (a : Area) (p : Picture) (c r : Nat),
    block.padding = 0 → c < a.width - 2 → r < a.height - 2 →
    p.tile (a.x + 1 + c) (a.y + 1 + r) = {} →
    (paint (.paragraph (some block) lines {} false) a p).tile (a.x + 1 + c) (a.y + 1 + r) =
      lines[r]?.elim {} fun line => inked columns (a.width - 2) line c {}

theorem laysOut_render {columns : Char → Nat} (htwo : ∀ g, columns g ≤ 2)
    (hspace : columns ' ' = 1) : LaysOut columns (render columns) where
  columns_le_two := htwo
  columns_space := hspace
  tile_paragraph block lines a p c r hpadding hc hr hblank := by
    have hground :
        ((p.restyle a {}).framed columns a block).tile (a.x + 1 + c) (a.y + 1 + r) = {} := by
      rw [Picture.tile_framed _ _ hc hr, Picture.tile_restyle_default, hblank]
    have hindented : a.inner.indented block.padding = a.inner := by
      rw [hpadding]
      rfl
    rw [render, hindented]
    refine (Picture.tile_paragraph (a := a.inner) lines hc hr).trans ?_
    simp only [Area.inner, hground]

/-- The terminal meets what is relied on. -/
theorem laysOut_terminal : LaysOut Text.columns (render Text.columns) := by
  apply laysOut_render
  · intro g
    unfold Text.columns
    repeat' split
    all_goals omega
  · decide

end Befunge.Screen
