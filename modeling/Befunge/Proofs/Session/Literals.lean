import Befunge.Proofs.Machine.Buffered
import Befunge.Proofs.Machine.Travel
import Befunge.Proofs.Session.Calls
import Mathlib.Data.Nat.Find

/-!
# String literals

A quote makes the cells after it data, whatever they would be as instructions, up to the next quote
on the cursor's way round the torus. The way comes back to where it began, so there is always a
closing quote, if need be the opening one.
-/

namespace Befunge

theorem Stack.push_ofList (values : List Cell) (v : Cell) :
    (ofList values).push v = ofList (values ++ [v]) := by
  simp [push, ofList]

namespace State

variable {s : State} {n : Nat} {mode : Mode} {values : List Cell}

/-- The state `n` cells further on its way, in this mode and with these values pushed. -/
def further (s : State) (n : Nat) (mode : Mode) (values : List Cell) : State :=
  { s with
    mode
    stack := .ofList (s.stack.toList ++ values)
    cursor := ⟨s.cursor.ahead n, s.cursor.direction⟩
    steps := s.steps + n }

theorem further_zero (hs : s.cursor.position.InBounds) : s.further 0 s.mode [] = s := by
  simp [further, Cursor.ahead_zero hs]

theorem inBounds_of_quote (h : s.current = Cell.quote) : s.cursor.position.InBounds := by
  by_contra hout
  rw [current, Playfield.cell, (s.field.get?_eq_none_iff _).mpr hout, Option.getD_none] at h
  exact absurd h (by decide)

theorem instruction?_of_quote (h : s.current = Cell.quote) :
    s.instruction? = some .toggleString := by
  have hdecode : Instruction.decode Cell.quote = .toggleString := by decide
  simp [instruction?, h, hdecode]

theorem transition_of_quote (h : s.field.cell (s.cursor.ahead n) = Cell.quote) :
    (s.further n mode values).Transition .proceed (s.further (n + 1) mode.toggle values) := by
  have hnext : ((s.further n mode values).tick.apply .toggleString).advance =
      s.further (n + 1) mode.toggle values := by
    simp [further, tick, apply, advance, Cursor.advance_ahead, Nat.add_assoc]
  rw [← hnext]
  exact .plain _ (instruction?_of_quote h) rfl

theorem instruction?_of_string (hmode : s.mode = .string) (h : s.current ≠ Cell.quote) :
    s.instruction? = none := if_pos ⟨hmode, h⟩

theorem transition_of_string (h : s.field.cell (s.cursor.ahead n) ≠ Cell.quote) :
    (s.further n .string values).Transition .proceed
      (s.further (n + 1) .string (values ++ [s.field.cell (s.cursor.ahead n)])) := by
  have hnext : ((s.further n .string values).tick.push
      (s.further n .string values).current).advance =
      s.further (n + 1) .string (values ++ [s.field.cell (s.cursor.ahead n)]) := by
    simp [further, tick, push, advance, current, Cursor.advance_ahead, Stack.push_ofList,
      Nat.add_assoc]
  rw [← hnext]
  exact .literal (instruction?_of_string rfl h)

/-- There is a next quote, one lap ahead at the latest. -/
theorem exists_next_quote (h : s.current = Cell.quote) :
    ∃ k < s.cursor.direction.lap, s.field.cell (s.cursor.ahead (k + 1)) = Cell.quote ∧
      ∀ i < k, s.field.cell (s.cursor.ahead (i + 1)) ≠ Cell.quote := by
  have hpos : 0 < s.cursor.direction.lap := by cases s.cursor.direction <;> decide
  have hlast : s.field.cell (s.cursor.ahead (s.cursor.direction.lap - 1 + 1)) = Cell.quote := by
    rw [Nat.sub_add_cancel hpos, Cursor.ahead_lap (inBounds_of_quote h)]
    exact h
  have hexists : ∃ k, s.field.cell (s.cursor.ahead (k + 1)) = Cell.quote := ⟨_, hlast⟩
  refine ⟨Nat.find hexists, ?_, Nat.find_spec hexists, fun i hi => Nat.find_min hexists hi⟩
  exact Nat.lt_of_le_of_lt (Nat.find_min' hexists hlast) (Nat.sub_one_lt_of_lt hpos)

end State

namespace Session

variable {s : Session Buffered} {n : Nat} {t t' : State}

/-- The first `n` steps go on and lead to the state `t`, and nobody is told or asked anything. -/
structure Passes (s : Session Buffered) (n : Nat) (t : State) : Prop where
  answers : (s.stepTimes n).1 = List.replicate n (.ok .proceed)
  arrives : ∃ m, (s.stepTimes n).2 = { s with machine := m } ∧ m.state = t ∧
    s.machine.Silent s.config.debug m

theorem passes_zero (s : Session Buffered) : s.Passes 0 s.state where
  answers := rfl
  arrives := ⟨s.machine, rfl, rfl, .refl _ _⟩

theorem Passes.next (h : s.Passes n t) (hrecord : s.config.record = false)
    (hh : t.halted = false) (hi : t.instruction? = none ∨ t.instruction? = some .toggleString)
    (ht : t.Transition .proceed t') : s.Passes (n + 1) t' := by
  obtain ⟨hanswers, m, hm, rfl, hsilent⟩ := h
  have hc : ¬m.state.Consults := by
    rcases hi with hi | hi <;> simp [State.Consults, hi]
  have he : m.state.emission = "" := by
    rcases hi with hi | hi <;> simp [State.emission, hi]
  obtain ⟨m', hcycle, hstate⟩ := Machine.cycle_of_transition s.config.debug hc ht
  have hnext := Machine.silent_cycle s.config.debug hc he
  rw [hcycle] at hnext
  have hstep := step_of_plain (p := { s with machine := m }) hrecord hh hcycle
  constructor
  · rw [stepTimes_succ, hm, hstep, hanswers, List.replicate_succ']
  · refine ⟨m', ?_, hstate, hsilent.trans hnext⟩
    rw [stepTimes_succ, hm, hstep]

theorem passes_string (hrecord : s.config.record = false) (hh : s.state.halted = false)
    (hmode : s.state.mode = .normal) (hquote : s.state.current = Cell.quote)
    (hcells : ∀ i < n, s.state.field.cell (s.state.cursor.ahead (i + 1)) ≠ Cell.quote) :
    s.Passes (n + 1) (s.state.further (n + 1) .string
      ((List.range n).map fun i => s.state.field.cell (s.state.cursor.ahead (i + 1)))) := by
  induction n with
  | zero =>
    have hs := State.inBounds_of_quote hquote
    have hopen : s.state.field.cell (s.state.cursor.ahead 0) = Cell.quote := by
      rw [Cursor.ahead_zero hs]
      exact hquote
    have ht : (s.state.further 0 s.state.mode []).Transition .proceed
        (s.state.further 1 s.state.mode.toggle []) := State.transition_of_quote hopen
    rw [State.further_zero hs, hmode] at ht
    exact (passes_zero s).next hrecord hh (.inr (State.instruction?_of_quote hquote)) ht
  | succ n ih =>
    have hbefore := ih fun i hi => hcells i (Nat.lt_succ_of_lt hi)
    have hcell := hcells n (Nat.lt_succ_self n)
    rw [List.range_succ, List.map_append, List.map_singleton]
    exact hbefore.next hrecord hh (.inl (State.instruction?_of_string rfl hcell))
      (State.transition_of_string hcell)

/-- A string literal pushes the cells between its quotes. From a quote in normal mode, let `k` be
the number of cells on the cursor's way before the next quote; there is one at the latest when the
way has gone round and is back at the opening quote. Then `k + 2` steps go on. They push the `k`
cells in the order met and leave the cursor one cell beyond the closing quote, on its way as before
and in normal mode. The input, the output, the source of directions and all the rest of the state
are as they were, and so are the diagnostics unless steps are traced. -/
theorem literal_pushes_cells (hrecord : s.config.record = false) (hh : s.state.halted = false)
    (hmode : s.state.mode = .normal) (hquote : s.state.current = Cell.quote) :
    let cell (i : Nat) : Cell := s.state.field.cell (s.state.cursor.ahead i)
    ∃ k < s.state.cursor.direction.lap,
      (∀ i, 1 ≤ i → i ≤ k → cell i ≠ Cell.quote) ∧ cell (k + 1) = Cell.quote ∧
      (s.stepTimes (k + 2)).1 = List.replicate (k + 2) (.ok .proceed) ∧
      ∃ m : Machine Buffered, (s.stepTimes (k + 2)).2 = { s with machine := m } ∧
        m.state = { s.state with
          stack := .ofList (s.state.stack.toList ++ (List.range k).map fun i => cell (i + 1))
          cursor := ⟨s.state.cursor.ahead (k + 2), s.state.cursor.direction⟩
          steps := s.state.steps + (k + 2) } ∧
        m.console.input = s.machine.console.input ∧
        m.console.output = s.machine.console.output ∧
        (s.config.debug = false → m.console.diagnostics = s.machine.console.diagnostics) ∧
        m.directions = s.machine.directions := by
  intro cell
  obtain ⟨k, hk, hclose, hbetween⟩ := State.exists_next_quote hquote
  have hstring := passes_string hrecord hh hmode hquote hbetween
  obtain ⟨hanswers, m, hm, hstate, hsilent⟩ :=
    hstring.next hrecord hh (.inr (State.instruction?_of_quote hclose))
      (State.transition_of_quote hclose)
  refine ⟨k, hk, ?_, hclose, hanswers, m, hm, ?_, hsilent.input, hsilent.output,
    hsilent.diagnostics, hsilent.directions⟩
  · intro i hi hle
    obtain ⟨j, rfl⟩ := Nat.exists_eq_add_of_le' hi
    exact hbetween j hle
  · rw [hstate, State.further, Mode.toggle, ← hmode]

/-- A row with a single quote: the literal goes over the instruction that would halt the program and
over a value that is no character, round the edge, and ends where it began. -/
theorem literal_pushes_cells_lap :
    let field : Playfield := ((Playfield.blank.set ⟨0, 0⟩ Cell.quote).set ⟨1, 0⟩ 64).set ⟨3, 0⟩ (-1)
    let s : Session Buffered := start field (Buffered.ofInput []) (.ofScript []) {}
    (s.stepTimes 81).1 = List.replicate 81 (.ok .proceed) ∧
      (s.stepTimes 81).2.state.stack.toList = 64 :: 32 :: -1 :: List.replicate 76 32 ∧
      (s.stepTimes 81).2.state.cursor = ⟨⟨1, 0⟩, .right⟩ := by
  intro field s
  obtain ⟨k, hk, -, hclose, hanswers, m, hm, hstate, -⟩ :=
    literal_pushes_cells (s := s) rfl rfl rfl rfl
  have hlast : ∀ k < 80, field.cell (Cursor.start.ahead (k + 1)) = Cell.quote → k = 79 := by
    decide +kernel
  obtain rfl := hlast k hk hclose
  have hafter : (s.stepTimes 81).2.state = m.state := by
    rw [hm]
    rfl
  rw [hafter, hstate]
  exact ⟨hanswers, by decide +kernel, by decide +kernel⟩

end Session

end Befunge
