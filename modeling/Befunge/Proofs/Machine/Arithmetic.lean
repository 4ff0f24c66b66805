import Befunge.Console.Buffered
import Befunge.Machine
import Mathlib.Data.Int.ModEq

/-!
# Arithmetic on cells

The arithmetic instructions compute with integers and bring the result back into the range of a cell
modulo `2 ^ 64`. Quotients are rounded toward zero, and a remainder is what they leave. Only one
quotient of cells lies outside the range, that of the least cell by -1.
-/

namespace Befunge

namespace Cell

variable {v w x y : Cell} {n : Int}

/-- A cell is the only one in its residue class. -/
theorem modEq_iff (hv : v.toInt = n.bmod (2 ^ 64)) : w.toInt ≡ n [ZMOD 2 ^ 64] ↔ w = v := by
  rw [← Int64.toInt_inj, hv]
  constructor
  · intro h
    have hbmod : (w.toInt % (2 ^ 64 : Nat)).bmod (2 ^ 64) = (n % (2 ^ 64 : Nat)).bmod (2 ^ 64) :=
      congrArg (Int.bmod · (2 ^ 64)) h
    rw [Int.emod_bmod, Int.emod_bmod] at hbmod
    exact w.toInt_bmod_size.symm.trans hbmod
  · intro h
    rw [h]
    exact Int.bmod_emod

theorem natAbs_mod_lt (x : Cell) (hy : y ≠ 0) : (x % y).toInt.natAbs < y.toInt.natAbs := by
  have hpos : 0 < y.toInt.natAbs := by
    rw [Int.natAbs_pos]
    exact fun h => hy (Int64.toInt_inj.mp h)
  rw [Int64.toInt_mod, Int.natAbs_tmod]
  exact Nat.mod_lt _ hpos

theorem sign_mod (x y : Cell) : (x % y).toInt = 0 ∨ (x % y).toInt.sign = x.toInt.sign := by
  have hsign := Int.sign_tmod x.toInt y.toInt
  rw [← Int64.toInt_mod] at hsign
  split at hsign
  · exact .inl (Int.sign_eq_zero_iff_zero.mp hsign)
  · exact .inr hsign

theorem div_mul_add_mod_modEq (x y : Cell) :
    (x / y).toInt * y.toInt + (x % y).toInt ≡ x.toInt [ZMOD 2 ^ 64] := by
  have hquotient : (x / y).toInt ≡ x.toInt.tdiv y.toInt [ZMOD 2 ^ 64] :=
    (modEq_iff (Int64.toInt_div x y)).mpr rfl
  calc (x / y).toInt * y.toInt + (x % y).toInt
      ≡ x.toInt.tdiv y.toInt * y.toInt + (x % y).toInt [ZMOD 2 ^ 64] :=
        (hquotient.mul_right _).add_right _
    _ = x.toInt := by rw [Int64.toInt_mod, Int.tdiv_mul_add_tmod]

theorem div_mul_add_mod (h : x ≠ Int64.minValue ∨ y ≠ -1) :
    (x / y).toInt * y.toInt + (x % y).toInt = x.toInt := by
  have hquotient : (x / y).toInt = x.toInt.tdiv y.toInt := by
    cases h with
    | inl hx => exact Int64.toInt_div_of_ne_left x y hx
    | inr hy => exact Int64.toInt_div_of_ne_right x y hy
  rw [hquotient, Int64.toInt_mod, Int.tdiv_mul_add_tmod]

end Cell

namespace Machine

variable {π : Type} [Console π]

theorem execute_arith {op : Operator} {v : Cell} (debug : Bool) (m : Machine π)
    (h : op.value? (m.state.stack.values.getD 1 0) (m.state.stack.values.getD 0 0) = some v) :
    m.execute debug (.arith op) = (.ok (), { m with
      state := { m.state with stack := ⟨v :: m.state.stack.values.drop 2⟩ } }) := by
  have htop : m.state.stack.peek = m.state.stack.values.getD 0 0 :=
    Stack.peek_drop m.state.stack.values 0
  simp only [execute, arith, State.pop, Stack.discard_eq_drop, List.drop_drop, Stack.peek_drop,
    htop, h]
  rfl

/-- The arithmetic instructions take `y` and below it `x` off the stack, zeros where the stack has
no more, and push one cell in their place: for a sum, a difference or a product the only cell that
is congruent to it modulo `2 ^ 64`. For a divisor other than 0 the quotient is the only cell
congruent to the quotient of the integers rounded toward zero; the remainder is smaller than the
divisor and has the sign of `x` or none; and the two make up `x` again, modulo `2 ^ 64` if the least
cell is divided by -1 and exactly otherwise. Nothing else changes. -/
theorem arithmetic_wraps (debug : Bool) (m : Machine π) :
    let x := m.state.stack.values.getD 1 0
    let y := m.state.stack.values.getD 0 0
    let pushes (symbol : Char) (v : Cell) : Prop :=
      m.execute debug (.decode (Cell.ofChar symbol)) = (.ok (), { m with
        state := { m.state with stack := ⟨v :: m.state.stack.values.drop 2⟩ } })
    (∃ v, pushes '+' v ∧ ∀ w : Cell, w.toInt ≡ x.toInt + y.toInt [ZMOD 2 ^ 64] ↔ w = v) ∧
      (∃ v, pushes '-' v ∧ ∀ w : Cell, w.toInt ≡ x.toInt - y.toInt [ZMOD 2 ^ 64] ↔ w = v) ∧
      (∃ v, pushes '*' v ∧ ∀ w : Cell, w.toInt ≡ x.toInt * y.toInt [ZMOD 2 ^ 64] ↔ w = v) ∧
      (y ≠ 0 → ∃ q r : Cell, pushes '/' q ∧ pushes '%' r ∧
        (∀ w : Cell, w.toInt ≡ x.toInt.tdiv y.toInt [ZMOD 2 ^ 64] ↔ w = q) ∧
        r.toInt.natAbs < y.toInt.natAbs ∧ (r.toInt = 0 ∨ r.toInt.sign = x.toInt.sign) ∧
        q.toInt * y.toInt + r.toInt ≡ x.toInt [ZMOD 2 ^ 64] ∧
        (x ≠ Int64.minValue ∨ y ≠ -1 → q.toInt * y.toInt + r.toInt = x.toInt)) := by
  intro x y pushes
  refine ⟨?_, ?_, ?_, ?_⟩
  · exact ⟨x + y, execute_arith debug m rfl, fun w => Cell.modEq_iff (Int64.toInt_add x y)⟩
  · exact ⟨x - y, execute_arith debug m rfl, fun w => Cell.modEq_iff (Int64.toInt_sub x y)⟩
  · exact ⟨x * y, execute_arith debug m rfl, fun w => Cell.modEq_iff (Int64.toInt_mul x y)⟩
  · intro hy
    have hdiv : Operator.div.value? x y = some (x / y) := if_neg hy
    have hmod : Operator.mod.value? x y = some (x % y) := if_neg hy
    exact ⟨x / y, x % y, execute_arith debug m hdiv, execute_arith debug m hmod,
      fun w => Cell.modEq_iff (Int64.toInt_div x y), Cell.natAbs_mod_lt x hy, Cell.sign_mod x y,
      Cell.div_mul_add_mod_modEq x y, Cell.div_mul_add_mod⟩

/-- The one quotient that is out of range. -/
theorem arithmetic_wraps_least :
    let m : Machine Buffered :=
      ⟨{ State.initial .blank with stack := ⟨[-1, Int64.minValue, 7]⟩ }, {}, .ofScript [], .empty⟩
    (m.execute false (.decode (Cell.ofChar '/'))).2.state.stack.values = [Int64.minValue, 7] ∧
      (m.execute false (.decode (Cell.ofChar '%'))).2.state.stack.values = [0, 7] := by
  intro m
  obtain ⟨q, r, hdiv, hmod, hquotient, hlt, -⟩ := (arithmetic_wraps false m).2.2.2 (by decide)
  obtain rfl := (hquotient Int64.minValue).mp (by decide)
  have hr : r.toInt = 0 := Int.natAbs_eq_zero.mp (Nat.lt_one_iff.mp hlt)
  obtain rfl : r = 0 := Int64.toInt_inj.mp hr
  rw [hdiv, hmod]
  exact ⟨rfl, rfl⟩

end Machine

end Befunge
