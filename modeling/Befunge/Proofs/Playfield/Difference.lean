import Befunge.Viewer.FieldPane
import Mathlib.Data.Set.Card

/-!
# The difference of two playfields

The positions where two fields differ, listed row by row, are the patch that makes one field of the
other. A viewer counts them for its title and underlines them one by one.
-/

namespace Befunge

namespace Position

/-- Row by row from the top, and in a row from the left. -/
def Precedes (p q : Position) : Prop := p.y < q.y ∨ p.y = q.y ∧ p.x < q.x

theorem Precedes.ne {p q : Position} (h : p.Precedes q) : p ≠ q := by
  rintro rfl
  unfold Precedes at h
  omega

theorem pairwise_all : all.Pairwise Precedes := by
  rw [all, List.pairwise_map]
  apply List.pairwise_lt_range.imp
  intro i j hij
  simp only [Precedes, ofIndex, width]
  omega

end Position

namespace Playfield

variable {a b : Playfield}

/-- The flat lists of cells run through the positions row by row. -/
theorem zipIdx_cells (a b : Playfield) :
    (a.cells.toList.zip b.cells.toList).zipIdx = (List.range (width * height)).map fun i =>
      ((a.cell (.ofIndex i), b.cell (.ofIndex i)), i) := by
  have hcell (field : Playfield) {i : Nat} (hi : i < width * height) :
      field.cells.toList[i]? = some (field.cell (.ofIndex i)) := by
    rw [← field.get?_eq_some_cell (Position.ofIndex_inBounds hi), field.get?_ofIndex hi]
    simp
  apply List.ext_getElem?
  intro i
  rw [List.getElem?_zipIdx, List.getElem?_map]
  by_cases hi : i < width * height
  · have hpair := List.getElem?_zip_eq_some (z := (a.cell (.ofIndex i), b.cell (.ofIndex i))).mpr
      ⟨hcell a hi, hcell b hi⟩
    rw [List.getElem?_range hi, hpair]
    simp
  · simp [hi]

theorem diff_eq_filter (a b : Playfield) :
    a.diff b = Position.all.filter fun p => a.cell p ≠ b.cell p := by
  rw [diff, zipIdx_cells, List.filter_map, List.map_map, Position.all, List.filter_map]
  rfl

theorem mem_diff_iff {p : Position} : p ∈ a.diff b ↔ a.get? p ≠ b.get? p := by
  rw [diff_eq_filter, List.mem_filter, Position.mem_all, decide_eq_true_eq]
  constructor
  · rintro ⟨hp, hne⟩
    rw [a.get?_eq_some_cell hp, b.get?_eq_some_cell hp]
    exact fun h => hne (Option.some.inj h)
  · intro hne
    have hp : p.InBounds := by
      by_contra hout
      rw [(a.get?_eq_none_iff p).mpr hout, (b.get?_eq_none_iff p).mpr hout] at hne
      exact hne rfl
    rw [a.get?_eq_some_cell hp, b.get?_eq_some_cell hp] at hne
    exact ⟨hp, fun h => hne (congrArg some h)⟩

theorem pairwise_diff (a b : Playfield) : (a.diff b).Pairwise Position.Precedes := by
  rw [diff_eq_filter]
  exact Position.pairwise_all.filter _

theorem nodup_diff (a b : Playfield) : (a.diff b).Nodup := (pairwise_diff a b).imp fun h => h.ne

theorem diff_comm (a b : Playfield) : a.diff b = b.diff a := by
  rw [diff_eq_filter, diff_eq_filter]
  refine List.filter_congr fun p _ => ?_
  rw [decide_eq_decide]
  exact ne_comm

theorem diff_eq_nil_iff : a.diff b = [] ↔ a = b := by
  constructor
  · intro h
    apply Plane.ext
    intro p _
    by_contra hne
    have hmem := mem_diff_iff.mpr hne
    rw [h] at hmem
    cases hmem
  · rintro rfl
    apply List.eq_nil_iff_forall_not_mem.mpr
    intro p hmem
    exact mem_diff_iff.mp hmem rfl

/-- Writes the values that `a` has at some positions. -/
def patch (b a : Playfield) (positions : List Position) : Playfield :=
  positions.foldl (fun field p => field.set p (a.cell p)) b

theorem get?_patch (positions : List Position) {p : Position} (hp : p.InBounds) :
    (b.patch a positions).get? p = if p ∈ positions then a.get? p else b.get? p := by
  induction positions generalizing b with
  | nil => rfl
  | cons q rest ih =>
    have hnext : b.patch a (q :: rest) = patch (b.set q (a.cell q)) a rest := rfl
    rw [hnext, ih, Plane.get?_set]
    by_cases hpq : q = p
    · subst hpq
      simp [hp, a.get?_eq_some_cell hp]
    · simp [hpq, Ne.symm hpq]

theorem patch_diff (a b : Playfield) : b.patch a (a.diff b) = a := by
  apply Plane.ext
  intro p hp
  rw [get?_patch _ hp]
  split
  · rfl
  · next hsame => exact (not_not.mp fun hne => hsame (mem_diff_iff.mpr hne)).symm

end Playfield

namespace Viewer.FieldView

theorem ncard_underlined (v : FieldView) :
    {p : Position | p.InBounds ∧ (v.ink p).style.underlined = true}.ncard =
      (v.field.diff v.loaded).length := by
  have hset : {p : Position | p.InBounds ∧ (v.ink p).style.underlined = true} =
      (v.field.diff v.loaded).toFinset := by
    ext p
    rw [List.coe_toFinset, Set.mem_ofPred_eq, Set.mem_ofPred_eq, Playfield.diff_eq_filter,
      List.mem_filter, Position.mem_all]
    rfl
  rw [hset, Set.ncard_coe_finset, List.toFinset_card_of_nodup (Playfield.nodup_diff _ _)]

end Viewer.FieldView

open Viewer in
/-- The difference of two fields is the exact patch between them. It lists every position where they
differ once and no other, in the order of rows. Writing the values of the one at these positions
into the other makes them equal, and there is nothing to write exactly if they are. Both have the
same difference from each other. So the number of modified cells in the title of a viewer's pane is
the number of cells that it underlines. -/
theorem Playfield.diff_is_patch (a b : Playfield) :
    (∀ p, (a.diff b).count p = if a.get? p = b.get? p then 0 else 1) ∧
      (a.diff b).Pairwise (fun p q => p.y < q.y ∨ p.y = q.y ∧ p.x < q.x) ∧
      b.patch a (a.diff b) = a ∧
      (a.diff b = [] ↔ a = b) ∧
      a.diff b = b.diff a ∧
      ∀ (cursor : Cursor) (mode : Mode) (profile : Profile) (steps : Nat),
        let v : FieldView := ⟨a, b, cursor, mode, profile, steps⟩
        let n := {p : Position | p.InBounds ∧ (v.ink p).style.underlined = true}.ncard
        v.title = " Program (" ++ toString cursor.position.x ++ ", " ++
          toString cursor.position.y ++ ") " ++ cursor.direction.arrow.toString ++
          (if mode = .string then " \"STRING\"" else "") ++
          (if 0 < n then " [" ++ toString n ++ " modified]" else "") ++ " " := by
  refine ⟨?_, pairwise_diff a b, patch_diff a b, diff_eq_nil_iff, diff_comm a b, ?_⟩
  · intro p
    rw [(nodup_diff a b).count]
    simp only [mem_diff_iff, ne_eq, ite_not]
  · intro cursor mode profile steps v n
    have hn : n = (a.diff b).length := v.ncard_underlined
    rw [hn]
    rfl

end Befunge
