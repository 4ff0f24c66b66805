import Befunge.Machine

/-!
# What a cycle does to a state

A cycle reads its instruction off the state. The transition relation says what a successful cycle
makes of the state, whatever the console and the source of directions answer. Only three
instructions ask them, and without those the next state is determined.
-/

namespace Befunge

/-- Instructions whose whole effect on a state is the one that `State.apply` gives. -/
def Instruction.isPlain : Instruction → Bool
  | .halt | .random | .inputNumber | .inputChar | .outputNumber | .outputChar | .arith _ => false
  | _ => true

namespace State

/-- The instruction that a cycle executes; none where the cell is pushed as part of a string. -/
def instruction? (s : State) : Option Instruction :=
  if s.mode = .string ∧ s.current ≠ Cell.quote then none else some (.decode s.current)

/-- The next cycle asks the console for input or the source of directions for a direction. -/
def Consults (s : State) : Prop :=
  s.instruction? ∈ [some .random, some .inputNumber, some .inputChar]

instance (s : State) : Decidable s.Consults := inferInstanceAs (Decidable (_ ∈ _))

/-- The text that the next cycle writes. -/
def emission (s : State) : String :=
  match s.instruction? with
  | some .outputNumber => s.stack.peek.toText
  | some .outputChar => s.stack.peek.glyph.toString
  | _ => ""

def tick (s : State) : State := { s with steps := s.steps + 1 }

/-- `s.Transition o t`: a cycle from `s` that succeeds may do so with outcome `o` in the state `t`.
Directions and inputs are left open. -/
inductive Transition (s : State) : Outcome → State → Prop
  | literal (hi : s.instruction? = none) :
      Transition s .proceed (s.tick.push s.current).advance
  | halt (hi : s.instruction? = some .halt) :
      Transition s .halt { s.tick with halted := true }
  | wander (d : Direction) (hi : s.instruction? = some .random) :
      Transition s .proceed (s.tick.turn d).advance
  | input (v : Cell) (hi : s.instruction? = some .inputNumber ∨ s.instruction? = some .inputChar) :
      Transition s .proceed (s.tick.push v).advance
  | output (hi : s.instruction? = some .outputNumber ∨ s.instruction? = some .outputChar) :
      Transition s .proceed { s.tick.pop.2 with
        cursor := s.cursor.advance
        outputLength := s.outputLength + s.emission.utf8ByteSize }
  | arith (op : Operator) (v : Cell) (hi : s.instruction? = some (.arith op))
      (hv : op.value? s.pop.2.stack.peek s.stack.peek = some v) :
      Transition s .proceed (s.tick.pop.2.pop.2.push v).advance
  | plain (i : Instruction) (hi : s.instruction? = some i) (hp : i.isPlain = true) :
      Transition s .proceed (s.tick.apply i).advance

theorem emission_of_plain {s : State} {i : Instruction} (hi : s.instruction? = some i)
    (hp : i.isPlain = true) : s.emission = "" := by
  cases i <;> simp_all [emission, Instruction.isPlain]

theorem not_consults_of_emission {s : State} (h : s.emission ≠ "") : ¬s.Consults := by
  intro hc
  apply h
  simp only [Consults, List.mem_cons, List.not_mem_nil, or_false] at hc
  rcases hc with hi | hi | hi <;> simp [emission, hi]

section Apply

variable (s : State) (i : Instruction)

theorem apply_steps : (s.apply i).steps = s.steps := by
  cases i <;> rfl

theorem apply_outputLength : (s.apply i).outputLength = s.outputLength := by
  cases i <;> rfl

theorem apply_halted : (s.apply i).halted = s.halted := by
  cases i <;> rfl

end Apply

namespace Transition

variable {s t t' : State} {o o' : Outcome}

theorem steps_eq (h : s.Transition o t) : t.steps = s.steps + 1 := by
  cases h with
  | plain i => exact apply_steps s.tick i
  | _ => rfl

theorem halted_iff (h : s.Transition o t) : t.halted = true ↔ s.halted = true ∨ o = .halt := by
  cases h with
  | halt => exact iff_of_true rfl (.inr rfl)
  | plain i =>
    rw [or_iff_left Outcome.noConfusion]
    exact Bool.eq_iff_iff.mp (apply_halted s.tick i)
  | _ => exact (or_iff_left Outcome.noConfusion).symm

theorem outputLength_eq (h : s.Transition o t) :
    t.outputLength = s.outputLength + s.emission.utf8ByteSize := by
  cases h with
  | output => rfl
  | plain i hi hp =>
    rw [emission_of_plain hi hp]
    exact apply_outputLength s.tick i
  | input v hi => rcases hi with hi | hi <;> simp [emission, hi, advance, push, tick]
  | literal hi | halt hi | wander _ hi | arith _ _ hi =>
    simp [emission, hi, advance, push, turn, pop, tick]

theorem unique (hc : ¬s.Consults) (h : s.Transition o t) (h' : s.Transition o' t') :
    o = o' ∧ t = t' := by
  simp only [Consults, List.mem_cons, List.not_mem_nil, or_false, not_or] at hc
  cases h with
  | wander _ hi => exact absurd hi hc.1
  | input _ hi => exact absurd hi (not_or.mpr hc.2)
  | literal hi | halt hi | output hi | arith _ _ hi | plain _ hi =>
    -- the instruction decides the rule, and the rule the state
    cases h' <;> grind [Instruction.isPlain]

end Transition

end State

namespace Attempt

variable {ε σ α β : Type}

theorem andThen_eq_ok_iff {r : Attempt ε σ α} {next : α → σ → Attempt ε σ β} {b : β} {t : σ} :
    r.andThen next = (.ok b, t) ↔ ∃ a s, r = (.ok a, s) ∧ next a s = (.ok b, t) := by
  obtain ⟨e | a, s⟩ := r
  · simp
  · simp [and_assoc]

theorem andThen_eq_error_iff {r : Attempt ε σ α} {next : α → σ → Attempt ε σ β} {e : ε} {t : σ} :
    r.andThen next = (.error e, t) ↔
      r = (.error e, t) ∨ ∃ a s, r = (.ok a, s) ∧ next a s = (.error e, t) := by
  obtain ⟨_ | a, s⟩ := r
  · simp
  · simp [and_assoc]

end Attempt

namespace Machine

variable {π : Type} [Console π] {debug : Bool} {m m' : Machine π} {o : Outcome}

@[simp]
theorem state_diagnose (text : String) (m : Machine π) :
    (m.diagnose text).2.state = m.state := by
  obtain ⟨state, console, directions, profile⟩ := m
  simp only [diagnose]
  obtain ⟨_ | _, console'⟩ := Console.diagnose text console <;> rfl

@[simp]
theorem state_trace (debug : Bool) (cell : Cell) (m : Machine π) :
    (m.trace debug cell).2.state = m.state := by
  unfold trace
  split
  · exact state_diagnose _ m
  · rfl

theorem state_of_output {toText : Cell → String} (h : m.output toText = (.ok (), m')) :
    m'.state = { m.state.pop.2 with
      outputLength := m.state.outputLength + (toText m.state.stack.peek).utf8ByteSize } := by
  obtain ⟨state, console, directions, profile⟩ := m
  simp only [output, emit] at h
  split at h
  · simp only [Prod.mk.injEq, true_and] at h
    rw [← h]
    rfl
  · cases h

theorem transition_of_execute {s : State} {i : Instruction} (hs : m.state = s.tick)
    (hi : s.instruction? = some i) (hne : i ≠ .halt) (h : m.execute debug i = (.ok (), m')) :
    s.Transition .proceed m'.state.advance := by
  obtain ⟨state, console, directions, profile⟩ := m
  obtain rfl : state = s.tick := hs
  cases i with
  | halt => exact absurd rfl hne
  | random =>
    simp only [execute, wander, Prod.mk.injEq, true_and] at h
    rw [← h]
    exact .wander _ hi
  | inputNumber =>
    simp only [execute, inputNumber] at h
    split at h
    · simp only [Prod.mk.injEq, true_and] at h
      rw [← h]
      exact .input _ (.inl hi)
    · cases h
  | inputChar =>
    simp only [execute, inputChar] at h
    split at h
    · simp only [Prod.mk.injEq, true_and] at h
      rw [← h]
      exact .input _ (.inr hi)
    · cases h
  | outputNumber =>
    have ht := State.Transition.output (.inl hi)
    rw [State.emission, hi] at ht
    simp only [execute] at h
    rw [state_of_output h]
    exact ht
  | outputChar =>
    have ht := State.Transition.output (.inr hi)
    rw [State.emission, hi] at ht
    simp only [execute] at h
    rw [state_of_output h]
    exact ht
  | arith op =>
    simp only [execute, arith] at h
    split at h
    · next v hv =>
      simp only [Prod.mk.injEq, true_and] at h
      rw [← h]
      exact .arith op v hi hv
    · cases h
  | dump =>
    have hm : m'.state = s.tick := by
      simp only [execute] at h
      split at h
      · have hd := state_diagnose s.tick.field.dump
          (⟨s.tick, console, directions, profile⟩ : Machine π)
        rwa [h] at hd
      · simp only [Prod.mk.injEq, true_and] at h
        rw [← h]
    rw [hm]
    exact .plain _ hi rfl
  | _ =>
    simp only [execute, get_eq_ok, put_eq_ok, Prod.mk.injEq, true_and] at h
    rw [← h]
    exact .plain _ hi rfl

/-- What a machine does whose step has been counted, by the instruction it stands at. -/
theorem act_eq {s : State} (debug : Bool) (hs : m.state = s.tick) :
    m.act debug s.current =
      match s.instruction? with
      | none => (.ok .proceed, { m with state := (m.state.push s.current).advance })
      | some .halt => (.ok .halt, { m with state := { m.state with halted := true } })
      | some i =>
        (m.execute debug i).andThen fun _ m =>
          (.ok .proceed, { m with state := m.state.advance }) := by
  have hmode : m.state.mode = s.mode := by rw [hs]; rfl
  simp only [act, State.instruction?, hmode]
  by_cases hstring : s.mode = .string ∧ s.current ≠ Cell.quote
  · rw [if_pos hstring, if_pos hstring]
  · rw [if_neg hstring, if_neg hstring]
    cases Instruction.decode s.current <;> rfl

theorem transition_of_act {s : State} (hs : m.state = s.tick)
    (h : m.act debug s.current = (.ok o, m')) : s.Transition o m'.state := by
  rw [act_eq debug hs] at h
  split at h
  · next hi =>
    simp only [Prod.mk.injEq, Except.ok.injEq] at h
    rw [← h.1, ← h.2, hs]
    exact .literal hi
  · next hi =>
    simp only [Prod.mk.injEq, Except.ok.injEq] at h
    rw [← h.1, ← h.2, hs]
    exact .halt hi
  · next i hne hi =>
    obtain ⟨_, m₁, hexecute, hrest⟩ := Attempt.andThen_eq_ok_iff.mp h
    simp only [Prod.mk.injEq, Except.ok.injEq] at hrest
    rw [← hrest.1, ← hrest.2]
    exact transition_of_execute hs hi hne hexecute

theorem transition_of_cycle (h : m.cycle debug = (.ok o, m')) : m.state.Transition o m'.state := by
  rw [cycle_eq_attend] at h
  obtain ⟨_, m₁, htrace, hact⟩ := Attempt.andThen_eq_ok_iff.mp h
  have hs : m₁.state = m.state.tick := by
    have hm := state_trace debug m.state.current m.arrive
    rw [htrace] at hm
    exact hm
  exact transition_of_act hs hact

end Machine

end Befunge
