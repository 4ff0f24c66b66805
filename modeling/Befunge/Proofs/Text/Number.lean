import Befunge.Text.Number
import Mathlib.Algebra.Group.Int.Defs

/-!
# The number of a line

A number is put together digit by digit inside the range of a cell. It comes out as the number that
the digits write in unbounded arithmetic, or as the end of the range beyond which that number lies:
once out of the range, further digits only lead further away.
-/

namespace Befunge

/-- The integer in the range of a cell that is nearest to another integer. -/
def Cell.nearest (n : Int) : Int := max (-2 ^ 63) (min (2 ^ 63 - 1) n)

theorem Cell.nearest_toInt (v : Cell) : nearest v.toInt = v.toInt := by
  have hlow := v.le_toInt
  have hhigh := v.toInt_lt
  unfold nearest
  omega

theorem Cell.toInt_ofInt {n : Int} (h : nearest n = n) : (Int64.ofInt n).toInt = n := by
  unfold nearest at h
  exact Int64.toInt_ofInt_of_le (by omega) (by omega)

namespace Text

theorem le_ofDigitChars (digits : List Char) (n : Nat) : n ≤ Nat.ofDigitChars 10 digits n := by
  induction digits generalizing n with
  | nil => exact Nat.le_refl n
  | cons c digits ih =>
    rw [Nat.ofDigitChars_cons]
    exact Nat.le_trans (by omega) (ih _)

theorem natCast_digit {c : Char} (hc : c.isDigit = true) :
    ((c.toNat - '0'.toNat : Nat) : Int) = c.toNat - '0'.toNat := by
  have hle : '0'.toNat ≤ c.toNat := by
    simp only [Char.isDigit, Bool.and_eq_true, decide_eq_true_eq] at hc
    exact UInt32.le_iff_toNat_le.mp hc.1
  omega

/-- The sign of the numbers that are put together downwards, or upwards. -/
def signOf (negative : Bool) : Int := if negative then -1 else 1

/-- The end of the range of a cell that lies in the direction of a sign. -/
def endOf (negative : Bool) : Cell := if negative then Int64.minValue else Int64.maxValue

section Digits

variable {negative : Bool} {value : Cell} {n : Nat}

theorem toInt_endOf {m : Nat} (hout : Cell.nearest (signOf negative * n) ≠ signOf negative * n)
    (hle : n ≤ m) : (endOf negative).toInt = Cell.nearest (signOf negative * m) := by
  cases negative with
  | true =>
    simp only [Cell.nearest, signOf, endOf, if_true, Int64.toInt_minValue] at hout ⊢
    omega
  | false =>
    simp only [Cell.nearest, signOf, endOf, Bool.false_eq_true, if_false,
      Int64.toInt_maxValue] at hout ⊢
    omega

theorem appendDigits_digit {c : Char} (hc : c.isDigit = true)
    (h : value.toInt = signOf negative * n) (text : List Char) :
    appendDigits negative value (c :: text) =
      let next : Int := signOf negative * (10 * n + (c.toNat - '0'.toNat) : Nat)
      if Cell.nearest next = next then appendDigits negative (Int64.ofInt next) text
      else endOf negative := by
  have hdigit := natCast_digit hc
  have hlow := value.le_toInt
  have hhigh := value.toInt_lt
  cases negative with
  | true =>
    generalize hnext : signOf true * ((10 * n + (c.toNat - '0'.toNat) : Nat) : Int) = next
    simp only [signOf, if_true] at h hnext
    have hvalue : value.toInt * 10 - (c.toNat - '0'.toNat) = next := by omega
    have hin : Cell.nearest next = next ↔ ¬next < Int64.minValue.toInt := by
      simp only [Cell.nearest, Int64.toInt_minValue]
      omega
    simp only [appendDigits, hc, if_true, hvalue, hin, ite_not, endOf]
  | false =>
    generalize hnext : signOf false * ((10 * n + (c.toNat - '0'.toNat) : Nat) : Int) = next
    simp only [signOf, Bool.false_eq_true, if_false] at h hnext
    have hvalue : value.toInt * 10 + (c.toNat - '0'.toNat) = next := by omega
    have hin : Cell.nearest next = next ↔ ¬Int64.maxValue.toInt < next := by
      simp only [Cell.nearest, Int64.toInt_maxValue]
      omega
    simp only [appendDigits, hc, if_true, Bool.false_eq_true, if_false, hvalue, hin, ite_not, endOf]

theorem toInt_appendDigits (text : List Char) (h : value.toInt = signOf negative * n) :
    (appendDigits negative value text).toInt =
      Cell.nearest (signOf negative * Nat.ofDigitChars 10 (text.takeWhile Char.isDigit) n) := by
  induction text generalizing value n with
  | nil =>
    rw [List.takeWhile_nil, Nat.ofDigitChars_nil, ← h]
    exact (Cell.nearest_toInt value).symm
  | cons c text ih =>
    cases hc : c.isDigit with
    | false =>
      rw [List.takeWhile_cons_of_neg (by simp [hc]), Nat.ofDigitChars_nil, ← h]
      simp [appendDigits, hc, Cell.nearest_toInt]
    | true =>
      rw [List.takeWhile_cons_of_pos hc, Nat.ofDigitChars_cons, appendDigits_digit hc h]
      simp only
      split
      · next hin => exact ih (Cell.toInt_ofInt hin)
      · next hout => exact toInt_endOf hout (le_ofDigitChars _ _)

end Digits

/-- A text behind its sign, if it begins with one. -/
def unsigned (text : List Char) : List Char :=
  if text.head? = some '-' ∨ text.head? = some '+' then text.tail else text

theorem number_eq {line text : List Char} (h : line.dropWhile isBlank = text) :
    number line = appendDigits (text.head? = some '-') 0 (unsigned text) := by
  unfold number
  rw [h]
  cases text with
  | nil => rfl
  | cons c digits =>
    by_cases hminus : c = '-'
    · subst hminus
      rfl
    by_cases hplus : c = '+'
    · subst hplus
      rfl
    · simp [unsigned, hminus, hplus]

/-- The number of a line in unbounded arithmetic. Behind the blanks stands a sign, which may be
missing, and then the digits, as many as follow; what they write counts as far as the range of a
cell goes. -/
theorem number_saturates (line : List Char) :
    let text := line.dropWhile isBlank
    let sign : Int := if text.head? = some '-' then -1 else 1
    let digits := (unsigned text).takeWhile Char.isDigit
    (number line).toInt =
      max (-2 ^ 63) (min (2 ^ 63 - 1) (sign * Nat.ofDigitChars 10 digits 0)) := by
  intro text sign digits
  have hsign : signOf (text.head? = some '-') = sign := by simp [signOf, sign]
  rw [number_eq rfl, ← hsign]
  exact toInt_appendDigits (unsigned text) (by simp)

example : number " -9223372036854775809 or so".toList = Int64.minValue := by decide

section Decimal

variable {rest : List Char}

theorem takeWhile_toDigits_append (n : Nat) (hrest : ∀ c ∈ rest.head?, c.isDigit = false) :
    (Nat.toDigits 10 n ++ rest).takeWhile Char.isDigit = Nat.toDigits 10 n := by
  have hdigits : ∀ c ∈ Nat.toDigits 10 n, c.isDigit = true := fun c hc =>
    Nat.isDigit_of_mem_toDigits (by decide) (by decide) hc
  have hstop : rest.takeWhile Char.isDigit = [] := by
    cases rest with
    | nil => rfl
    | cons c rest => simp [hrest c rfl]
  rw [List.takeWhile_append_of_pos hdigits, hstop, List.append_nil]

theorem toInt_appendDigits_toDigits (negative : Bool) (n : Nat)
    (hrest : ∀ c ∈ rest.head?, c.isDigit = false) :
    (appendDigits negative 0 (Nat.toDigits 10 n ++ rest)).toInt =
      Cell.nearest (signOf negative * n) := by
  rw [toInt_appendDigits (n := 0) _ (by simp), takeWhile_toDigits_append n hrest,
    Nat.ofDigitChars_toDigits (by decide) (by decide)]

theorem number_of_isDigit {c : Char} (hc : c.isDigit = true) (text : List Char) :
    number (c :: text) = appendDigits false 0 (c :: text) := by
  have hblank : isBlank c = false := by
    simp only [Char.isDigit, Bool.and_eq_true, decide_eq_true_eq] at hc
    have hlow : 0x30 ≤ c.toNat := UInt32.le_iff_toNat_le.mp hc.1
    have hhigh : c.toNat ≤ 0x39 := UInt32.le_iff_toNat_le.mp hc.2
    grind [isBlank]
  have hsign : c ≠ '-' ∧ c ≠ '+' := by
    constructor <;> rintro rfl <;> cases hc
  rw [number_eq (List.dropWhile_cons_of_neg (by simp [hblank]))]
  simp [unsigned, hsign]

theorem newline_not_mem_toDigits (n : Nat) : '\n' ∉ Nat.toDigits 10 n := by
  intro hmem
  cases Nat.isDigit_of_mem_toDigits (by decide) (by decide) hmem

theorem newline_not_mem_decimal (v : Cell) : '\n' ∉ v.decimal := by
  unfold Cell.decimal
  split
  · simpa using newline_not_mem_toDigits v.toInt.natAbs
  · exact newline_not_mem_toDigits v.toInt.natAbs

/-- A cell that was written out is read back, unless more digits stand behind it. -/
theorem number_decimal (v : Cell) (hrest : ∀ c ∈ rest.head?, c.isDigit = false) :
    number (v.decimal ++ rest) = v := by
  apply Int64.toInt_inj.mp
  rw [← Cell.nearest_toInt v, Cell.decimal]
  split
  · next hneg =>
    have hminus : number ('-' :: Nat.toDigits 10 v.toInt.natAbs ++ rest) =
        appendDigits true 0 (Nat.toDigits 10 v.toInt.natAbs ++ rest) := number_eq rfl
    rw [hminus, toInt_appendDigits_toDigits true _ hrest]
    congr 1
    simp only [signOf, if_true]
    omega
  · next hpos =>
    obtain ⟨c, digits, hdigits⟩ := List.exists_cons_of_ne_nil
      (Nat.toDigits_ne_nil (n := v.toInt.natAbs) (b := 10))
    have hc : c.isDigit = true := by
      apply Nat.isDigit_of_mem_toDigits (b := 10) (n := v.toInt.natAbs) (by decide) (by decide)
      rw [hdigits]
      exact List.mem_cons_self
    have hplain : number (Nat.toDigits 10 v.toInt.natAbs ++ rest) =
        appendDigits false 0 (Nat.toDigits 10 v.toInt.natAbs ++ rest) := by
      rw [hdigits]
      exact number_of_isDigit hc _
    rw [hplain, toInt_appendDigits_toDigits false _ hrest]
    congr 1
    simp only [signOf, Bool.false_eq_true, if_false]
    omega

end Decimal

end Text

end Befunge
