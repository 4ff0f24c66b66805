import Befunge.Proofs.Machine.Place

/-!
# Cycles keep within the playing area

As long as the cursor is in the playing area a cycle finds its cell, and the cursor does not leave
it, even when a cycle fails half way. What is left for arithmetic to fail by is a zero divisor.
-/

namespace Befunge

theorem Operator.value?_eq_none_iff {op : Operator} {x y : Cell} :
    op.value? x y = none ↔ (op = .div ∨ op = .mod) ∧ y = 0 := by
  cases op <;> simp [value?]

example : Operator.div.value? Int64.minValue (-1) = some Int64.minValue := by decide

/-- The state keeps within the playing area: its field fills it, its cursor is in it, and there is a
cell to fetch. -/
structure State.Confined (s : State) : Prop where
  size : s.field.cells.toArray.size = 2000
  cursor : s.cursor.position.x < 80 ∧ s.cursor.position.y < 25
  found : s.fetch? = some s.current

theorem State.confined_of_inBounds {s : State} (hs : s.cursor.position.InBounds) : s.Confined where
  size := s.field.cells.size_toArray
  cursor := hs
  found := fetch?_eq_some_current hs

namespace Machine

variable {π : Type} {debug : Bool} {m m' : Machine π} {s : State} {f : Fault}

theorem fault_of_arith {op : Operator} (h : m.arith op = (.error f, m')) :
    f = .divisionByZero op m.state.cursor.position ∧ (op = .div ∨ op = .mod) ∧
      m.state.stack.peek = 0 := by
  obtain ⟨state, console, directions, profile⟩ := m
  simp only [arith] at h
  split at h
  · cases h
  · next hv =>
    cases h
    exact ⟨rfl, Operator.value?_eq_none_iff.mp hv⟩

variable [Console π]

theorem cursor_of_execute {i : Instruction} (h : m.execute debug i = (.error f, m')) :
    m'.state.cursor = m.state.cursor := by
  cases i with
  | dump =>
    simp only [execute] at h
    split at h
    · have hdump := state_diagnose m.state.field.dump m
      rw [h] at hdump
      exact congrArg State.cursor hdump
    · cases h
  | inputNumber | inputChar | outputNumber | outputChar | arith =>
    obtain ⟨state, console, directions, profile⟩ := m
    simp only [execute, inputNumber, inputChar, output, emit, arith] at h
    split at h
    · cases h
    · cases h
      rfl
  | _ =>
    simp only [execute, get_eq_ok, put_eq_ok] at h
    cases h

theorem cursor_of_act (hs : m.state = s.tick) (h : m.act debug s.current = (.error f, m')) :
    m'.state.cursor = s.cursor := by
  have hcursor : m.state.cursor = s.cursor := by
    rw [hs]
    rfl
  rw [act_eq debug hs] at h
  split at h
  · cases h
  · cases h
  · rcases Attempt.andThen_eq_error_iff.mp h with hexecute | ⟨_, _, _, hrest⟩
    · rw [cursor_of_execute hexecute, hcursor]
    · cases hrest

theorem cursor_of_cycle (h : m.cycle debug = (.error f, m')) :
    m'.state.cursor = m.state.cursor := by
  have htrace := state_trace debug m.state.current m.arrive
  rw [cycle_eq_attend] at h
  rcases Attempt.andThen_eq_error_iff.mp h with hrefused | ⟨_, m₁, htraced, hact⟩
  · rw [hrefused] at htrace
    exact (congrArg State.cursor htrace).trans rfl
  · rw [htraced] at htrace
    exact cursor_of_act htrace hact

theorem inBounds_cycle (debug : Bool) (hm : m.state.cursor.position.InBounds) :
    (m.cycle debug).2.state.cursor.position.InBounds := by
  rcases hcycle : m.cycle debug with ⟨f | o, m'⟩
  · rw [cursor_of_cycle hcycle]
    exact hm
  · exact (transition_of_cycle hcycle).inBounds hm

theorem fault_of_trace {cell : Cell} (h : m.trace debug cell = (.error f, m')) :
    debug = true ∧ ∃ e, f = .io m.state.cursor.position e := by
  obtain ⟨state, console, directions, profile⟩ := m
  unfold trace at h
  split at h
  · next hdebug =>
    refine ⟨hdebug, ?_⟩
    simp only [diagnose] at h
    rcases hwrite : Console.diagnose (state.traceLine cell) console with ⟨e | _, console'⟩
    · rw [hwrite] at h
      cases h
      exact ⟨e, rfl⟩
    · rw [hwrite] at h
      cases h
  · cases h

/-- A cycle that executes an arithmetic instruction fails by a zero divisor, or because its trace
was refused. -/
theorem fault_of_cycle_arith {op : Operator} (hi : m.state.instruction? = some (.arith op))
    (h : m.cycle debug = (.error f, m')) :
    (f = .divisionByZero op m.state.cursor.position ∧ (op = .div ∨ op = .mod) ∧
        m.state.stack.peek = 0) ∨
      debug = true ∧ ∃ e, f = .io m.state.cursor.position e := by
  have htrace := state_trace debug m.state.current m.arrive
  rw [cycle_eq_attend] at h
  rcases Attempt.andThen_eq_error_iff.mp h with hrefused | ⟨_, m₁, htraced, hact⟩
  · exact .inr (fault_of_trace (m := m.arrive) hrefused)
  · rw [htraced] at htrace
    have hs : m₁.state = m.state.tick := htrace
    rw [act_eq debug hs, hi] at hact
    rcases Attempt.andThen_eq_error_iff.mp hact with harith | ⟨_, _, _, hrest⟩
    · have hfault := fault_of_arith harith
      rw [hs] at hfault
      exact .inl hfault
    · cases hrest

end Machine

end Befunge
