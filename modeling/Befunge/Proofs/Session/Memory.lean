import Befunge.Console.Buffered
import Befunge.Proofs.Machine.Symbols
import Befunge.Proofs.Session.Calls
import Mathlib.Data.Int.ModEq

/-!
# The playfield as memory

`p` writes to the playfield and `g` reads from it. Both take coordinates that count modulo the
extents of the playing area, so a `p` is seen by just those `g` whose coordinates are congruent to
its own, and it changes nothing else that could be read.
-/

namespace Befunge

theorem Position.wrap_eq_iff {x y x' y' : Cell} :
    wrap x y = wrap x' y' ↔
      x.toInt ≡ x'.toInt [ZMOD 80] ∧ y.toInt ≡ y'.toInt [ZMOD 25] := by
  simp only [wrap, width, height, mk.injEq, Int.ModEq]
  omega

/-- A `g` over this field that finds `x` and, on top of it, `y` on the stack puts `v` in their place
and does nothing else. -/
def Playfield.Yields (field : Playfield) (x y v : Cell) : Prop :=
  ∀ {π : Type} [Console π] (debug : Bool) (m : Machine π), m.state.field = field →
    ({ m with state := (m.state.push x).push y } : Machine π).execute debug .get =
      (.ok (), { m with state := m.state.push v })

theorem Playfield.yields_iff {field : Playfield} {x y v : Cell} :
    field.Yields x y v ↔ v = field.cell (.wrap x y) := by
  constructor
  · intro h
    have hread := h (π := Buffered) false ⟨.initial field, {}, .ofScript [], .empty⟩ rfl
    rw [Machine.execute, Machine.get_eq_ok] at hread
    exact (congrArg (·.2.state.stack.peek) hread).symm
  · rintro rfl π _ debug m rfl
    rw [Machine.execute, Machine.get_eq_ok]
    rfl

theorem State.apply_put (s : State) :
    s.apply .put =
      { s with
        field := s.field.set (.wrap (s.stack.values.getD 1 0) (s.stack.values.getD 0 0))
          (s.stack.values.getD 2 0)
        edition := s.steps
        stack := ⟨s.stack.values.drop 3⟩ } := by
  have htop : s.stack.peek = s.stack.values.getD 0 0 := Stack.peek_drop s.stack.values 0
  simp only [apply, pop, Stack.discard_eq_drop, List.drop_drop, Stack.peek_drop, htop]

namespace Session

variable {π : Type} [Console π] {s : Session π}

theorem step_of_put (hrecord : s.config.record = false) (hdebug : s.config.debug = false)
    (hh : s.state.halted = false) (hi : s.state.instruction? = some .put) :
    s.step = (.ok .proceed, { s with machine := { s.machine with
      state := (s.state.tick.apply .put).advance
      profile := s.machine.profile.count s.state.cursor.position (s.state.steps + 1) } }) := by
  apply step_of_plain hrecord hh
  rw [hdebug]
  have hi' : s.machine.state.instruction? = some .put := hi
  rw [Machine.cycle_false, Machine.act_eq (s := s.machine.state) false rfl]
  simp only [hi', Machine.execute, Machine.put_eq_ok]
  rfl

/-- `p` and `g` are memory on the torus. A step at `p` takes three operands off the stack, zeros for
those that are missing: a row, a column and a value. It goes on, and a `g` pushes that value from
then on wherever its operands are congruent to the column and the row, and elsewhere what it would
have pushed before. The field written to is a new edition, the step is counted and the cursor
advances; all the rest is as it was. -/
theorem put_seen_by_congruent_get (hrecord : s.config.record = false)
    (hdebug : s.config.debug = false) (hh : s.state.halted = false)
    (hmode : s.state.mode = .normal) (hcell : s.state.current = Cell.ofChar 'p') :
    let operand (i : Nat) : Cell := s.state.stack.values.getD i 0
    ∃ field : Playfield,
      s.step = (.ok .proceed, { s with machine := { s.machine with
        state := { s.state with
          field
          edition := s.state.steps + 1
          stack := ⟨s.state.stack.values.drop 3⟩
          cursor := s.state.cursor.advance
          steps := s.state.steps + 1 }
        profile := s.machine.profile.count s.state.cursor.position (s.state.steps + 1) } }) ∧
      ∀ x y, ∃ before, s.state.field.Yields x y before ∧
        field.Yields x y
          (if x.toInt ≡ (operand 1).toInt [ZMOD 80] ∧ y.toInt ≡ (operand 0).toInt [ZMOD 25]
            then operand 2 else before) := by
  intro operand
  have hi : s.state.instruction? = some .put :=
    (State.instruction?_eq_some_iff (i := .put) rfl nofun).mpr ⟨hmode, hcell⟩
  refine ⟨s.state.field.set (.wrap (operand 1) (operand 0)) (operand 2), ?_, ?_⟩
  · rw [step_of_put hrecord hdebug hh hi, State.apply_put]
    rfl
  · intro x y
    refine ⟨_, Playfield.yields_iff.mpr rfl, Playfield.yields_iff.mpr ?_⟩
    rw [Playfield.cell_set _ (Position.wrap_inBounds _ _)]
    simp only [eq_comm (a := Position.wrap (operand 1) _), Position.wrap_eq_iff]

/-- The value is missing, and it is written over the cell in front of the cursor. Seen from one lap
to the right and one lap up it is the same cell; its left neighbour is still there. -/
theorem put_seen_by_congruent_get_ahead :
    let s : Session Buffered :=
      ((start (.load "30p@") (Buffered.ofInput []) (.ofScript []) {}).stepTimes 2).2
    s.step.1 = .ok .proceed ∧ s.step.2.state.field.Yields 83 (-25) 0 ∧
      s.step.2.state.field.Yields 2 0 (Cell.ofChar 'p') := by
  intro s
  obtain ⟨field, hstep, hmemory⟩ := put_seen_by_congruent_get (s := s) rfl rfl rfl rfl rfl
  obtain ⟨_, -, hahead⟩ := hmemory 83 (-25)
  obtain ⟨before, hbefore, hhere⟩ := hmemory 2 0
  obtain rfl : before = Cell.ofChar 'p' := Playfield.yields_iff.mp hbefore
  rw [if_pos (by decide)] at hahead
  rw [if_neg (by decide)] at hhere
  rw [hstep]
  exact ⟨rfl, hahead, hhere⟩

end Session

end Befunge
