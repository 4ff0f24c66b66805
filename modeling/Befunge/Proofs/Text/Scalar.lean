import Befunge.Cell

/-!
# Codes of characters

A cell is the code of at most one character. Shown as a character and taken back as a code, a cell
comes back if it is such a code, and as the code of the replacement character if it is not.
-/

namespace Befunge.Cell

/-- The codes of characters: all up to the last one, without the surrogates. -/
def IsScalar (v : Cell) : Prop := 0 ≤ v ∧ v < 0xd800 ∨ 0xdfff < v ∧ v < 0x110000

instance (v : Cell) : Decidable v.IsScalar := inferInstanceAs (Decidable (_ ∨ _))

theorem isScalar_iff {v : Cell} : v.IsScalar ↔ 0 ≤ v.toInt ∧ v.toInt.toNat.isValidChar := by
  have hzero : (0 : Int64).toInt = 0 := rfl
  have hlow : (0xd800 : Int64).toInt = 0xd800 := rfl
  have hhigh : (0xdfff : Int64).toInt = 0xdfff := rfl
  have hlast : (0x110000 : Int64).toInt = 0x110000 := rfl
  simp only [IsScalar, Int64.le_iff_toInt_le, Int64.lt_iff_toInt_lt, hzero, hlow, hhigh, hlast,
    Nat.isValidChar]
  omega

theorem toInt_ofChar (c : Char) : (ofChar c).toInt = c.toNat := by
  have hc : c.toNat < 0x110000 := by
    have hv : c.toNat.isValidChar := c.valid
    unfold Nat.isValidChar at hv
    omega
  exact Int64.toInt_ofNat_of_lt (by omega)

theorem toChar?_eq_some_iff {v : Cell} {c : Char} : v.toChar? = some c ↔ ofChar c = v := by
  unfold toChar?
  constructor
  · intro h
    split at h
    · next hv =>
      obtain rfl := Option.some.inj h
      have hnat : (Char.ofNat v.toInt.toNat).toNat = v.toInt.toNat := by
        rw [Char.ofNat, dif_pos hv.2]
        rfl
      rw [ofChar, hnat]
      exact Int64.ofNat_toNatClampNeg v (Int64.le_iff_toInt_le.mpr hv.1)
    · cases h
  · rintro rfl
    have hvalid : c.toNat.isValidChar := c.valid
    rw [toInt_ofChar, Int.toNat_natCast, if_pos ⟨Int.natCast_nonneg _, hvalid⟩, Char.ofNat_toNat]

theorem isScalar_iff_toChar? {v : Cell} : v.IsScalar ↔ ∃ c, v.toChar? = some c := by
  rw [isScalar_iff, toChar?]
  split
  · next hv => exact iff_of_true hv ⟨_, rfl⟩
  · next hv => exact iff_of_false hv nofun

theorem ofChar_glyph (v : Cell) : ofChar v.glyph = if v.IsScalar then v else 65533 := by
  have hscalar := isScalar_iff_toChar? (v := v)
  unfold glyph
  cases h : v.toChar? with
  | some c =>
    rw [if_pos (hscalar.mpr ⟨c, h⟩), Option.getD_some]
    exact toChar?_eq_some_iff.mp h
  | none =>
    rw [if_neg (by simp [hscalar, h])]
    rfl

theorem glyph_ne {v : Cell} {c : Char} (hv : v ≠ ofChar c) (hc : c ≠ replacement) :
    v.glyph ≠ c := by
  unfold glyph
  cases h : v.toChar? with
  | some d =>
    rintro rfl
    exact hv (toChar?_eq_some_iff.mp h).symm
  | none => exact hc.symm

end Befunge.Cell
