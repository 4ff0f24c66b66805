import Befunge.Text.Lines

/-!
# Cutting texts

A cut at the byte length of a leading part gives that part back. Cut at its newlines, a text has one
list of parts and no other; its lines are these parts but for an empty last one.
-/

namespace Befunge.Text

theorem charsIn?_append (n : Nat) (front rest : List Char) :
    charsIn? (String.ofList front).utf8ByteSize n (front ++ rest) = some (n + front.length) := by
  induction front generalizing n with
  | nil => cases rest <;> simp [charsIn?]
  | cons c front ih =>
    have hsize : (String.ofList (c :: front)).utf8ByteSize =
        c.utf8Size + (String.ofList front).utf8ByteSize := by
      rw [← List.singleton_append, String.ofList_append, String.utf8ByteSize_append]
      simp
    have hpos := c.utf8Size_pos
    rw [List.cons_append, charsIn?, hsize, if_neg (by omega), if_pos (by omega),
      Nat.add_sub_cancel_left, ih, List.length_cons]
    congr 1
    omega

theorem takeBytes?_append (front rest : String) :
    takeBytes? (front ++ rest) front.utf8ByteSize = some front := by
  have h := charsIn?_append 0 front.toList rest.toList
  rw [String.ofList_toList, ← String.toList_append] at h
  rw [takeBytes?, h]
  simp

/-- `Parts text parts`: the text is these parts with a newline between one and the next. -/
structure Parts (text : List Char) (parts : List (List Char)) : Prop where
  ne_nil : parts ≠ []
  newline_not_mem : ∀ part ∈ parts, '\n' ∉ part
  intercalate_eq : ['\n'].intercalate parts = text

theorem newline_not_mem_of_mem_splitOn {text part : List Char} (h : part ∈ text.splitOn '\n') :
    '\n' ∉ part := by
  induction text generalizing part with
  | nil =>
    obtain rfl : part = [] := by simpa using h
    exact List.not_mem_nil
  | cons c text ih =>
    rw [List.splitOn_cons_eq_if_modifyHead] at h
    split at h
    · rcases List.mem_cons.mp h with rfl | hpart
      · exact List.not_mem_nil
      · exact ih hpart
    · next hc =>
      cases hparts : text.splitOn '\n' with
      | nil => exact absurd hparts (List.splitOn_ne_nil _ _)
      | cons first rest =>
        rw [hparts] at h ih
        rcases List.mem_cons.mp h with rfl | hpart
        · have hne : '\n' ≠ c := fun heq => hc (beq_iff_eq.mpr heq.symm)
          exact List.not_mem_cons_of_ne_of_not_mem hne (ih List.mem_cons_self)
        · exact ih (List.mem_cons_of_mem _ hpart)

theorem parts_iff {text : List Char} {parts : List (List Char)} :
    Parts text parts ↔ parts = text.splitOn '\n' := by
  constructor
  · rintro ⟨hne, hnewline, rfl⟩
    exact (List.splitOn_intercalate '\n' hnewline hne).symm
  · rintro rfl
    exact ⟨List.splitOn_ne_nil _ _, fun _ => newline_not_mem_of_mem_splitOn,
      List.intercalate_splitOn '\n'⟩

/-- Lines joined by newlines are the lines of the whole, whether or not a newline ends it. -/
theorem lines_intercalate {rows : List String} {tail : String}
    (hnewline : ∀ row ∈ rows, '\n' ∉ row.toList) (hlast : ∃ row, rows.getLast? = some row ∧ row ≠ "")
    (htail : tail = "" ∨ tail = "\n") :
    lines (String.intercalate "\n" rows ++ tail).toList = rows.map String.toList := by
  obtain ⟨last, hrow, hlast⟩ := hlast
  have hne : rows ≠ [] := by
    rintro rfl
    cases hrow
  rcases htail with rfl | rfl
  · have hparts : Parts (String.intercalate "\n" rows ++ "").toList (rows.map String.toList) :=
      ⟨by simpa using hne, by simpa using hnewline, by simp⟩
    rw [lines, ← parts_iff.mp hparts]
    simp [hrow, hlast]
  · -- the newline at the end divides the text from an empty last part
    have hjoined : String.intercalate "\n" rows ++ "\n" = String.intercalate "\n" (rows ++ [""]) := by
      rw [String.intercalate_append_of_ne_nil hne (List.cons_ne_nil _ _)]
      simp
    have hparts : Parts (String.intercalate "\n" rows ++ "\n").toList
        ((rows ++ [""]).map String.toList) := by
      refine ⟨by simp, ?_, ?_⟩
      · simpa [or_imp, forall_and] using hnewline
      · rw [hjoined, String.toList_intercalate]
        rfl
    rw [lines, ← parts_iff.mp hparts]
    simp

end Befunge.Text
