import Befunge.Proofs.Screen.Paragraph
import Befunge.Proofs.Viewer.Viewport
import Befunge.Viewer.FieldPane

/-!
# Where the cells of a playfield are drawn

The pane of the playfield writes the cells of a row one after the other. A glyph that takes two
columns pushes the cells after it to the right, and the last ones out of the pane; one that takes
none pulls them to the left. The cell under the cursor is no exception. So the cells of a window are
all in their places just if their glyphs take one column each. How many columns a glyph takes and
how a paragraph is drawn is left open, but for what `Screen.LaysOut` says.
-/

namespace Befunge.Viewer

open Screen

namespace FieldView

variable {v : FieldView}

/-- How a screen shows a cell. -/
def tile (v : FieldView) (p : Position) : Tile where
  glyph := v.glyph p
  fg := v.foreground p
  bg := (v.background? p).getD .reset
  bold := p = v.cursor.position
  underlined := v.isModified p

theorem on_ink (v : FieldView) (p : Position) : (Mark.ink (v.ink p)).on {} = v.tile p := by
  simp [Mark.on, Tile.restyle, ink, tile]

theorem foreground_ne_reset (v : FieldView) (p : Position) : v.foreground p ≠ .reset := by
  have htheme : ∀ category, Theme.ofCategory category ≠ .reset := by
    intro category
    cases category <;> decide
  unfold foreground
  split
  · decide
  · split
    · decide
    · split
      · decide
      · split
        · decide
        · exact htheme _

theorem bg_tile_eq_yellow_iff {p : Position} :
    (v.tile p).bg = Theme.yellow ↔ p = v.cursor.position := by
  unfold tile background?
  split
  · next hp => exact iff_of_true rfl hp
  · next hp =>
    refine iff_of_false ?_ hp
    split <;> nofun

/-- The columns that the cells of a row take before the `n`-th one from `left`. -/
def indent (v : FieldView) (columns : Char → Nat) (left y n : Nat) : Nat :=
  ((List.range n).map fun k => columns (v.glyph ⟨left + k, y⟩)).sum

/-- In a window of `room` columns the `n`-th cell of a row from `left` stands in column `c`. -/
structure StandsAt (v : FieldView) (columns : Char → Nat) (left y room n c : Nat) : Prop where
  column : v.indent columns left y n = c
  visible : 0 < columns (v.glyph ⟨left + n, y⟩)
  fits : c + columns (v.glyph ⟨left + n, y⟩) ≤ room

variable {columns : Char → Nat}

section Indent

variable {left y m n : Nat}

theorem indent_succ (v : FieldView) (columns : Char → Nat) (left y n : Nat) :
    v.indent columns left y (n + 1) =
      v.indent columns left y n + columns (v.glyph ⟨left + n, y⟩) := by
  simp [indent, List.range_succ]

theorem indent_mono (v : FieldView) (columns : Char → Nat) (left y : Nat) (h : m ≤ n) :
    v.indent columns left y m ≤ v.indent columns left y n := by
  induction h with
  | refl => exact Nat.le_refl _
  | step _ ih =>
    rw [indent_succ]
    exact Nat.le_add_right_of_le ih

theorem indent_eq (h : ∀ k < n, columns (v.glyph ⟨left + k, y⟩) = 1) :
    v.indent columns left y n = n := by
  induction n with
  | zero => rfl
  | succ n ih =>
    have hbefore := ih fun k hk => h k (Nat.lt_succ_of_lt hk)
    rw [indent_succ, hbefore, h n (Nat.lt_succ_self n)]

/-- If every column has a cell, and every cell a column, then each cell has its own. -/
theorem indent_eq_of_standsAt {room i : Nat}
    (hpos : ∀ k < n, 0 < columns (v.glyph ⟨left + k, y⟩))
    (hsome : ∀ c < n, ∃ k < n, v.StandsAt columns left y room k c) (hi : i < n) :
    v.indent columns left y i = i := by
  induction i with
  | zero => rfl
  | succ m ih =>
    have hm := ih (by omega)
    obtain ⟨k, -, hstands⟩ := hsome (m + 1) hi
    have hcolumn := hstands.column
    have hbeyond : m + 1 ≤ k := by
      by_cases hk : m + 1 ≤ k
      · exact hk
      · have hle := v.indent_mono columns left y (show k ≤ m by omega)
        omega
    have hle := v.indent_mono columns left y hbeyond
    have hwide := hpos m (by omega)
    have hsucc := v.indent_succ columns left y m
    omega

end Indent

section Row

variable {left y room n i c : Nat}

def row (v : FieldView) (left y n : Nat) : List Ink :=
  (List.range n).map fun k => v.ink ⟨left + k, y⟩

theorem extent_row (v : FieldView) (left y n : Nat) :
    extent columns (v.row left y n) = v.indent columns left y n := by
  rw [extent, row, List.map_map]
  rfl

theorem take_row (hi : i ≤ n) : (v.row left y n).take i = v.row left y i := by
  rw [row, ← List.map_take, List.take_range, Nat.min_eq_left hi]
  rfl

theorem getElem?_row {ink : Ink} :
    (v.row left y n)[i]? = some ink ↔ i < n ∧ v.ink ⟨left + i, y⟩ = ink := by
  by_cases hi : i < n <;> simp [row, hi]

theorem inked_row_of_standsAt (htwo : ∀ g, columns g ≤ 2) (hroom : 2 ≤ room ∨ n ≤ 1) (hi : i < n)
    (h : v.StandsAt columns left y room i c) :
    inked columns room (v.row left y n) c {} = v.tile ⟨left + i, y⟩ := by
  have hmark : (spread columns (fit columns room (v.row left y n)))[c]? =
      some (.ink (v.ink ⟨left + i, y⟩)) := by
    refine getElem?_spread_fit.mpr ⟨i, getElem?_row.mpr ⟨hi, rfl⟩, ?_, h.visible, h.fits⟩
    rw [take_row (Nat.le_of_lt hi), extent_row, h.column]
  rw [inked, fit_filter htwo (by simpa [row] using hroom), hmark, Option.elim_some, on_ink]

theorem inked_row_of_not_standsAt (htwo : ∀ g, columns g ≤ 2) (hroom : 2 ≤ room ∨ n ≤ 1)
    (h : ∀ i < n, ¬v.StandsAt columns left y room i c) :
    inked columns room (v.row left y n) c {} = {} := by
  rw [inked, fit_filter htwo (by simpa [row] using hroom)]
  cases hmark : (spread columns (fit columns room (v.row left y n)))[c]? with
  | none => rfl
  | some mark =>
    cases mark with
    | spill => rfl
    | ink ink =>
      obtain ⟨i, hsome, hcolumn, hpos, hle⟩ := getElem?_spread_fit.mp hmark
      obtain ⟨hi, rfl⟩ := getElem?_row.mp hsome
      rw [take_row (Nat.le_of_lt hi), extent_row] at hcolumn
      exact absurd ⟨hcolumn, hpos, hle⟩ (h i hi)

end Row

section Pane

variable {paint : Widget → Area → Picture → Picture} {p : Picture} {a : Area} {focused : Bool}
  {c i r : Nat}

def left (v : FieldView) (a : Area) : Nat := viewportOffset v.cursor.position.x width (a.width - 2)

def top (v : FieldView) (a : Area) : Nat := viewportOffset v.cursor.position.y height (a.height - 2)

theorem getElem?_window (v : FieldView) (a : Area) (r : Nat) :
    (v.window (a.width - 2) (a.height - 2))[r]? =
      if r < min (a.height - 2) height then
        some (v.row (v.left a) (v.top a + r) (min (a.width - 2) width))
      else none := by
  simp only [window, min_sub_viewportOffset, List.getElem?_map]
  split
  · next hr =>
    rw [List.getElem?_range hr]
    rfl
  · next hr =>
    have hlength : (List.range (min (a.height - 2) height)).length ≤ r := by
      rw [List.length_range]
      exact Nat.le_of_not_lt hr
    rw [List.getElem?_eq_none hlength, Option.map_none]

theorem tile_paint (hlays : LaysOut columns paint) (hc : c < a.width - 2) (hr : r < a.height - 2)
    (hblank : p.tile (a.x + 1 + c) (a.y + 1 + r) = {}) :
    (paint (v.widget a focused) a p).tile (a.x + 1 + c) (a.y + 1 + r) =
      if r < min (a.height - 2) height then
        inked columns (a.width - 2) (v.row (v.left a) (v.top a + r) (min (a.width - 2) width)) c {}
      else {} := by
  rw [widget, hlays.tile_paragraph _ _ a p c r rfl hc hr hblank, getElem?_window]
  split <;> rfl

/-- The picture is blank inside the frame of a pane. -/
def Blank (p : Picture) (a : Area) : Prop :=
  ∀ c < a.width - 2, ∀ r < a.height - 2, p.tile (a.x + 1 + c) (a.y + 1 + r) = {}

theorem tile_paint_of_standsAt (hlays : LaysOut columns paint) (hblank : Blank p a)
    (hi : i < min (a.width - 2) width) (hr : r < min (a.height - 2) height)
    (h : v.StandsAt columns (v.left a) (v.top a + r) (a.width - 2) i c) :
    (paint (v.widget a focused) a p).tile (a.x + 1 + c) (a.y + 1 + r) =
      v.tile ⟨v.left a + i, v.top a + r⟩ := by
  have hc : c < a.width - 2 := Nat.lt_of_lt_of_le (Nat.lt_add_of_pos_right h.visible) h.fits
  have hrow : r < a.height - 2 := by omega
  rw [tile_paint hlays hc hrow (hblank c hc r hrow), if_pos hr,
    inked_row_of_standsAt hlays.columns_le_two (by omega) hi h]

theorem tile_paint_of_not_standsAt (hlays : LaysOut columns paint) (hblank : Blank p a)
    (hc : c < a.width - 2) (hr : r < a.height - 2)
    (h : r < min (a.height - 2) height → ∀ i < min (a.width - 2) width,
      ¬v.StandsAt columns (v.left a) (v.top a + r) (a.width - 2) i c) :
    (paint (v.widget a focused) a p).tile (a.x + 1 + c) (a.y + 1 + r) = {} := by
  rw [tile_paint hlays hc hr (hblank c hc r hr)]
  split
  · next hrow => exact inked_row_of_not_standsAt hlays.columns_le_two (by omega) (h hrow)
  · rfl

/-- Each glyph that the window shows takes one column. The last one of a whole row may take two, if
there is room for it. -/
def Aligned (v : FieldView) (columns : Char → Nat) (a : Area) : Prop :=
  ∀ j < min (a.height - 2) height, ∀ i < min (a.width - 2) width,
    columns (v.glyph ⟨v.left a + i, v.top a + j⟩) = 1 ∨
      i = 79 ∧ 80 < a.width - 2 ∧ columns (v.glyph ⟨v.left a + i, v.top a + j⟩) = 2

theorem Aligned.standsAt_iff (h : v.Aligned columns a) (hr : r < min (a.height - 2) height)
    (hi : i < min (a.width - 2) width) :
    v.StandsAt columns (v.left a) (v.top a + r) (a.width - 2) i c ↔ c = i := by
  simp only [width] at hi
  have hindent : v.indent columns (v.left a) (v.top a + r) i = i := by
    apply indent_eq
    intro k hk
    exact (h r hr k (by simp only [width]; omega)).resolve_right (by omega)
  have hlast := h r hr i (by simpa only [width] using hi)
  constructor
  · intro hstands
    rw [← hstands.column, hindent]
  · rintro rfl
    exact ⟨hindent, by omega, by omega⟩

theorem bg_paint_of_aligned (hlays : LaysOut columns paint) (h : v.Aligned columns a)
    (hblank : Blank p a) (hcursor : v.cursor.position.InBounds) (hc : c < a.width - 2)
    (hr : r < a.height - 2) :
    ((paint (v.widget a focused) a p).tile (a.x + 1 + c) (a.y + 1 + r)).bg = Theme.yellow ↔
      (⟨v.left a + c, v.top a + r⟩ : Position) = v.cursor.position := by
  by_cases hin : r < min (a.height - 2) height ∧ c < min (a.width - 2) width
  · rw [tile_paint_of_standsAt hlays hblank hin.2 hin.1 ((h.standsAt_iff hin.1 hin.2).mpr rfl)]
    exact bg_tile_eq_yellow_iff
  · have hnone : ∀ i, r < min (a.height - 2) height → i < min (a.width - 2) width →
        ¬v.StandsAt columns (v.left a) (v.top a + r) (a.width - 2) i c := by
      intro i hrow hi hstands
      obtain rfl := (h.standsAt_iff hrow hi).mp hstands
      exact hin ⟨hrow, hi⟩
    rw [tile_paint_of_not_standsAt hlays hblank hc hr fun hrow i hi => hnone i hrow hi]
    refine iff_of_false nofun fun hposition => hin ?_
    -- the window holds the cursor
    have hx : v.cursor.position.x < v.left a + min (a.width - 2) width :=
      lt_viewportOffset_add hcursor.1 (by omega)
    have hy : v.cursor.position.y < v.top a + min (a.height - 2) height :=
      lt_viewportOffset_add hcursor.2 (by omega)
    rw [← hposition] at hx hy
    exact ⟨Nat.lt_of_add_lt_add_left hy, Nat.lt_of_add_lt_add_left hx⟩

theorem columns_glyph_paint_pos (hlays : LaysOut columns paint) (hblank : Blank p a)
    (hc : c < a.width - 2) (hr : r < a.height - 2) :
    0 < columns ((paint (v.widget a focused) a p).tile (a.x + 1 + c) (a.y + 1 + r)).glyph := by
  by_cases h : ∃ i, r < min (a.height - 2) height ∧ i < min (a.width - 2) width ∧
      v.StandsAt columns (v.left a) (v.top a + r) (a.width - 2) i c
  · obtain ⟨i, hrow, hi, hstands⟩ := h
    rw [tile_paint_of_standsAt hlays hblank hi hrow hstands]
    exact hstands.visible
  · rw [tile_paint_of_not_standsAt hlays hblank hc hr
      fun hrow i hi hstands => h ⟨i, hrow, hi, hstands⟩, hlays.columns_space]
    exact Nat.one_pos

theorem aligned_of_tiles (hlays : LaysOut columns paint) (hblank : Blank p a)
    (h : ∀ i < min (a.width - 2) width, ∀ j < min (a.height - 2) height,
      (paint (v.widget a focused) a p).tile (a.x + 1 + i) (a.y + 1 + j) =
        v.tile ⟨v.left a + i, v.top a + j⟩) : v.Aligned columns a := by
  intro j hj i hi
  have hrow : j < a.height - 2 := by omega
  have hpos : ∀ k < min (a.width - 2) width,
      0 < columns (v.glyph ⟨v.left a + k, v.top a + j⟩) := by
    intro k hk
    rw [show v.glyph _ = (v.tile ⟨v.left a + k, v.top a + j⟩).glyph from rfl, ← h k hk j hj]
    exact columns_glyph_paint_pos hlays hblank (by omega) hrow
  -- no cell of the window shows as a blank
  have hsome : ∀ c < min (a.width - 2) width, ∃ k < min (a.width - 2) width,
      v.StandsAt columns (v.left a) (v.top a + j) (a.width - 2) k c := by
    intro c hc
    apply Classical.byContradiction
    intro hnone
    have hempty : (paint (v.widget a focused) a p).tile (a.x + 1 + c) (a.y + 1 + j) = {} :=
      tile_paint_of_not_standsAt hlays hblank (by omega) hrow
        fun _ k hk hstands => hnone ⟨k, hk, hstands⟩
    rw [h c hc j hj] at hempty
    exact v.foreground_ne_reset _ (congrArg Tile.fg hempty)
  have hindent := fun k hk => indent_eq_of_standsAt (i := k) hpos hsome hk
  obtain ⟨k, hk, hstands⟩ := hsome i hi
  obtain rfl : k = i := by rw [← hindent k hk, hstands.column]
  have hfits := hstands.fits
  have hleast := hpos k hk
  have hmost := hlays.columns_le_two (v.glyph ⟨v.left a + k, v.top a + j⟩)
  simp only [width] at hk hindent
  by_cases hlast : k + 1 < min (a.width - 2) 80
  · have hsucc := v.indent_succ columns (v.left a) (v.top a + j) k
    rw [hindent k hk, hindent (k + 1) hlast] at hsucc
    omega
  · omega

/-- Where the cells of the window are drawn in a pane that is blank before. The cell `i` of row `j`
stands behind the columns that the cells before it take, if its glyph takes any and goes no further
than the frame; all the rest of the pane stays blank. So the cells are all in their own places, and
the place of the cursor's cell alone has the cursor's background, exactly if each glyph takes one
column, but for the last one of a whole row that has room behind it for two. -/
theorem cells_in_place_iff (hlays : LaysOut columns paint) (focused : Bool)
    (hcursor : v.cursor.position.InBounds) (hblank : Blank p a) :
    let left := viewportOffset v.cursor.position.x 80 (a.width - 2)
    let top := viewportOffset v.cursor.position.y 25 (a.height - 2)
    let screen (c r : Nat) : Tile :=
      (paint (v.widget a focused) a p).tile (a.x + 1 + c) (a.y + 1 + r)
    let taken (i j : Nat) : Nat := columns (v.glyph ⟨left + i, top + j⟩)
    let column (i j : Nat) : Nat := ((List.range i).map fun k => taken k j).sum
    (∀ i < min (a.width - 2) 80, ∀ j < min (a.height - 2) 25, 0 < taken i j →
        column i j + taken i j ≤ a.width - 2 →
        screen (column i j) j = v.tile ⟨left + i, top + j⟩) ∧
      (∀ c < a.width - 2, ∀ r < a.height - 2,
        (r < min (a.height - 2) 25 → ∀ i < min (a.width - 2) 80, column i r = c →
          taken i r = 0 ∨ a.width - 2 < c + taken i r) → screen c r = {}) ∧
      (((∀ i < min (a.width - 2) 80, ∀ j < min (a.height - 2) 25,
            screen i j = v.tile ⟨left + i, top + j⟩) ∧
          ∀ i < a.width - 2, ∀ j < a.height - 2, (screen i j).bg = Theme.yellow ↔
            (⟨left + i, top + j⟩ : Position) = v.cursor.position) ↔
        ∀ j < min (a.height - 2) 25, ∀ i < min (a.width - 2) 80,
          taken i j = 1 ∨ i = 79 ∧ 80 < a.width - 2 ∧ taken i j = 2) := by
  intro left top screen taken column
  refine ⟨?_, ?_, ?_, ?_⟩
  · intro i hi j hj hpos hfits
    exact tile_paint_of_standsAt hlays hblank hi hj ⟨rfl, hpos, hfits⟩
  · intro c hc r hr hnone
    apply tile_paint_of_not_standsAt hlays hblank hc hr
    intro hrow i hi hstands
    cases hnone hrow i hi hstands.column with
    | inl hzero => exact Nat.ne_of_gt hstands.visible hzero
    | inr hover => exact Nat.not_le_of_gt hover hstands.fits
  · rintro ⟨htiles, -⟩
    exact aligned_of_tiles hlays hblank htiles
  · intro h
    have haligned : v.Aligned columns a := h
    constructor
    · intro i hi j hj
      exact tile_paint_of_standsAt hlays hblank hi hj ((haligned.standsAt_iff hj hi).mpr rfl)
    · intro i hi j hj
      exact bg_paint_of_aligned hlays haligned hblank hcursor hi hj

/-- A wide glyph in front of the cursor: the cell under the cursor stands one column too far to the
right. -/
theorem cells_in_place_iff_wide :
    let columns (g : Char) : Nat := if g = '世' then 2 else 1
    let v : FieldView := {
      field := (Playfield.blank.set ⟨0, 0⟩ 0x4e16).set ⟨1, 0⟩ 49
      loaded := .blank
      cursor := ⟨⟨1, 0⟩, .right⟩
      mode := .normal
      profile := .empty
      steps := 0 }
    let screen := render columns (v.widget ⟨0, 0, 5, 3⟩ false) ⟨0, 0, 5, 3⟩ .empty
    screen.tile 3 1 = v.tile ⟨1, 0⟩ ∧ screen.tile 2 1 = {} := by
  intro columns v screen
  have hposition : v.cursor.position = ⟨1, 0⟩ := rfl
  have hwide : columns (v.glyph ⟨0, 0⟩) = 2 := by decide +kernel
  have hnarrow : columns (v.glyph ⟨1, 0⟩) = 1 := by decide +kernel
  have hlays : LaysOut columns (render columns) := by
    apply laysOut_render
    · intro g
      simp only [columns]
      split <;> omega
    · decide
  -- what is drawn follows from the columns of the glyphs alone
  clear_value v columns
  have hcursor : v.cursor.position.InBounds := by
    rw [hposition]
    decide
  obtain ⟨hdrawn, hrest, -⟩ := cells_in_place_iff (p := .empty) (a := ⟨0, 0, 5, 3⟩) hlays false
    hcursor fun _ _ _ _ => rfl
  simp only [hposition] at hdrawn hrest
  constructor
  · have hplace := hdrawn 1 (by decide) 0 (by decide)
    simpa [viewportOffset, hwide, hnarrow] using hplace
  · refine hrest 1 (by decide) 0 (by decide) fun _ i hi hcolumn => ?_
    obtain rfl | rfl | rfl : i = 0 ∨ i = 1 ∨ i = 2 := by omega
    all_goals simp [viewportOffset, List.range_succ, hwide, hnarrow] at hcolumn

/-- In a pane with room for two columns a glyph that takes both hides the cell under the cursor, so
that the cursor is not to be seen. -/
theorem cursor_hidden_by_wide_glyph :
    let columns (g : Char) : Nat := if g = '世' then 2 else 1
    let v : FieldView := {
      field := .load "世1"
      loaded := .load "世1"
      cursor := ⟨⟨1, 0⟩, .right⟩
      mode := .normal
      profile := .empty
      steps := 0 }
    let a : Area := ⟨0, 0, 4, 3⟩
    let left := viewportOffset 1 80 (4 - 2)
    let top := viewportOffset 0 25 (3 - 2)
    let screen (c r : Nat) : Tile :=
      (render columns (v.widget a false) a .empty).tile (1 + c) (1 + r)
    (¬∀ i < min (4 - 2) 80, ∀ j < min (3 - 2) 25, screen i j = v.tile ⟨left + i, top + j⟩) ∧
      ¬∃ i < 4 - 2, ∃ j < 3 - 2, (screen i j).bg = Theme.yellow := by
  decide +kernel

end Pane

end FieldView

end Befunge.Viewer
