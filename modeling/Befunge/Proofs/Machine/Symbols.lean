import Befunge.Proofs.Machine.Transition
import Befunge.Proofs.Text.Scalar

/-!
# Symbols of instructions

Each instruction that does something is written by one character, and no other character writes it.
So the instruction that a cycle executes can be told from the cell under the cursor.
-/

namespace Befunge

namespace Instruction

/-- The character that writes an instruction; none for doing nothing. -/
def symbol? : Instruction → Option Char
  | .go .right => some '>'
  | .go .left => some '<'
  | .go .up => some '^'
  | .go .down => some 'v'
  | .horizontalIf => some '_'
  | .verticalIf => some '|'
  | .random => some '?'
  | .bridge => some '#'
  | .halt => some '@'
  | .digit d => if d ≤ 9 then some (Char.ofNat (d + '0'.toNat)) else none
  | .toggleString => some '\x22'
  | .inputNumber => some '&'
  | .inputChar => some '~'
  | .outputNumber => some '.'
  | .outputChar => some ','
  | .arith op => some op.symbol
  | .greater => some '\x60'
  | .not => some '!'
  | .duplicate => some ':'
  | .swap => some '\\'
  | .pop => some '$'
  | .get => some 'g'
  | .put => some 'p'
  | .dump => some '='
  | .nop => none

variable {i : Instruction} {c : Char}

theorem ofChar_of_symbol? (h : i.symbol? = some c) : ofChar c = i := by
  cases i with
  | go d => cases d <;> cases h <;> rfl
  | arith op => cases op <;> cases h <;> rfl
  | nop => cases h
  | digit d =>
    have hall : ∀ d ≤ 9, ofChar (Char.ofNat (d + '0'.toNat)) = .digit d := by decide
    simp only [symbol?] at h
    split at h
    · next hd =>
      obtain rfl := Option.some.inj h
      exact hall d hd
    · cases h
  | _ => cases h; rfl

theorem symbol?_ofChar (c : Char) : ofChar c = .nop ∨ (ofChar c).symbol? = some c := by
  unfold ofChar
  split
  case h_28 =>
    -- any other character than the symbols above: a digit, or nothing to do
    split
    · next hdigit =>
      have hrange : 48 ≤ c.toNat ∧ c.toNat ≤ 57 := by
        simpa [Char.isDigit, UInt32.le_iff_toNat_le] using hdigit
      have hd : c.toNat - '0'.toNat ≤ 9 := by
        change c.toNat - 48 ≤ 9
        omega
      have hc : c.toNat - '0'.toNat + '0'.toNat = c.toNat := Nat.sub_add_cancel hrange.1
      exact .inr (by rw [symbol?, if_pos hd, hc, Char.ofNat_toNat])
    · exact .inl rfl
  all_goals exact .inr rfl

theorem ofChar_eq_iff (h : i.symbol? = some c) {d : Char} : ofChar d = i ↔ d = c := by
  constructor
  · rintro rfl
    rcases symbol?_ofChar d with hnop | hd
    · rw [hnop] at h
      cases h
    · exact Option.some.inj (hd.symm.trans h)
  · rintro rfl
    exact ofChar_of_symbol? h

theorem decode_eq_iff (h : i.symbol? = some c) {v : Cell} :
    decode v = i ↔ v = Cell.ofChar c := by
  have hnop : i ≠ .nop := by
    rintro rfl
    cases h
  unfold decode
  constructor
  · intro hv
    cases hchar : v.toChar? with
    | none =>
      rw [hchar] at hv
      exact absurd hv.symm hnop
    | some d =>
      rw [hchar] at hv
      obtain rfl := (ofChar_eq_iff h).mp hv
      exact (Cell.toChar?_eq_some_iff.mp hchar).symm
  · rintro rfl
    rw [Cell.toChar?_eq_some_iff.mpr rfl]
    exact ofChar_of_symbol? h

end Instruction

/-- An instruction other than the quote is executed in normal mode only, and where its symbol is. -/
theorem State.instruction?_eq_some_iff {s : State} {i : Instruction} {c : Char}
    (h : i.symbol? = some c) (hi : i ≠ .toggleString) :
    s.instruction? = some i ↔ s.mode = .normal ∧ s.current = Cell.ofChar c := by
  have hquote : Cell.quote ≠ Cell.ofChar c := by
    intro hc
    have hdecode : Instruction.decode Cell.quote = .toggleString := by decide
    exact hi ((Instruction.decode_eq_iff h).mpr hc ▸ hdecode)
  unfold instruction?
  cases hmode : s.mode with
  | normal => simp [Instruction.decode_eq_iff h]
  | string =>
    by_cases hcurrent : s.current = Cell.quote
    · simp [hcurrent, Instruction.decode_eq_iff h, hquote]
    · simp [hcurrent]

end Befunge
