import Befunge.Proofs.Console.Reading
import Befunge.Proofs.Machine.Transition

/-!
# Cycles over a console in memory

A console in memory takes every text, so a cycle fails there only by a zero divisor or by a line of
input that is no text, and what it writes is decided by the state alone. The transitions say what
becomes of a state where a cycle succeeds, the breakdowns what becomes of it where it fails.
-/

namespace Befunge

open Text

/-- A cycle from the state may fail: for sure with a zero divisor, and with an input whose next
line is no text. -/
def State.MayFail (s : State) : Prop :=
  (∃ op, s.instruction? = some (.arith op) ∧ op.value? s.pop.2.stack.peek s.stack.peek = none) ∨
    s.instruction? = some .inputNumber

theorem State.MayFail.emission_eq {s : State} (h : s.MayFail) : s.emission = "" := by
  rcases h with ⟨op, hi, -⟩ | hi <;> simp [emission, hi]

/-- `s.Breakdown input f t`: a cycle from `s` over this input fails by `f` and leaves the state
`t`. -/
inductive State.Breakdown (s : State) (input : List UInt8) : Fault → State → Prop
  | division (op : Operator) (hi : s.instruction? = some (.arith op))
      (hv : op.value? s.pop.2.stack.peek s.stack.peek = none) :
      Breakdown s input (.divisionByZero op s.cursor.position) s.tick.pop.2.pop.2
  | line (hi : s.instruction? = some .inputNumber)
      (hline : ∀ text, Utf8.encode text ≠ input.takeWhile (· ≠ 10)) :
      Breakdown s input (.io s.cursor.position .invalidText) s.tick

theorem State.Breakdown.mayFail {s t : State} {input : List UInt8} {f : Fault}
    (h : s.Breakdown input f t) : s.MayFail ∧ t.outputLength = s.outputLength := by
  cases h with
  | division op hi hv => exact ⟨.inl ⟨op, hi, hv⟩, rfl⟩
  | line hi => exact ⟨.inr hi, rfl⟩

namespace Machine

variable {debug : Bool} {m m' : Machine Buffered} {s t : State} {o : Outcome} {f : Fault}

theorem cycle_eq_act (debug : Bool) (m : Machine Buffered) :
    ∃ m₁ : Machine Buffered, m.cycle debug = m₁.act debug m.state.current ∧
      m₁.state = m.state.tick ∧ m₁.console.output = m.console.output ∧
      m₁.console.input = m.console.input := by
  cases debug with
  | false => exact ⟨m.arrive, m.cycle_false, rfl, rfl, rfl⟩
  | true =>
    let line := m.state.traceLine m.state.current
    exact ⟨{ m.arrive with console := m.console.diagnose line }, cycle_eq_attend true m, rfl, rfl,
      rfl⟩

theorem output_execute {i : Instruction} (debug : Bool) (hs : m.state = s.tick)
    (hi : s.instruction? = some i) :
    (m.execute debug i).2.console.output = m.console.output ++ s.emission := by
  obtain ⟨state, ⟨input, written, diagnostics⟩, directions, profile⟩ := m
  obtain rfl : state = s.tick := hs
  cases i with
  | outputNumber | outputChar =>
    simp only [State.emission, hi]
    rfl
  | inputNumber =>
    simp only [State.emission, hi, String.append_empty]
    simp only [execute, inputNumber, Console.readLine, Buffered.readLine]
    obtain ⟨_ | line, rest⟩ := Input.readLine input <;> rfl
  | arith op =>
    simp only [State.emission, hi, String.append_empty]
    simp only [execute, arith]
    split <;> rfl
  | dump =>
    simp only [State.emission, hi, String.append_empty]
    cases debug <;> rfl
  | get | put => simp [State.emission, hi, execute, get_eq_ok, put_eq_ok]
  | _ =>
    simp only [State.emission, hi, String.append_empty]
    rfl

theorem output_act (debug : Bool) (hs : m.state = s.tick) :
    (m.act debug s.current).2.console.output = m.console.output ++ s.emission := by
  rw [act_eq debug hs]
  split
  · next hi => simp [State.emission, hi]
  · next hi => simp [State.emission, hi]
  · next i _ hi =>
    rw [← output_execute debug hs hi]
    obtain ⟨_ | _, m₁⟩ := m.execute debug i <;> rfl

/-- A cycle appends the emission of its state to the output, whether or not it succeeds. -/
theorem output_cycle (debug : Bool) (m : Machine Buffered) :
    (m.cycle debug).2.console.output = m.console.output ++ m.state.emission := by
  obtain ⟨m₁, hcycle, hs, houtput, -⟩ := cycle_eq_act debug m
  rw [hcycle, output_act debug hs, houtput]

theorem breakdown_of_execute {i : Instruction} (hs : m.state = s.tick)
    (hi : s.instruction? = some i) (h : m.execute debug i = (.error f, m')) :
    s.Breakdown m.console.input f m'.state := by
  obtain ⟨state, ⟨input, written, diagnostics⟩, directions, profile⟩ := m
  obtain rfl : state = s.tick := hs
  cases i with
  | arith op =>
    simp only [execute, arith] at h
    split at h
    · cases h
    · next hv =>
      cases h
      exact .division op hi hv
  | inputNumber =>
    simp only [execute, inputNumber, Console.readLine, Buffered.readLine] at h
    rcases hread : Input.readLine input with ⟨e | line, rest⟩
    · rw [hread] at h
      obtain ⟨hline, rfl⟩ := Input.readLine_eq_error_iff.mp (congrArg Prod.fst hread)
      cases h
      exact .line hi hline
    · rw [hread] at h
      cases h
  | dump => cases debug <;> cases h
  | _ =>
    simp only [execute, get_eq_ok, put_eq_ok] at h
    cases h

theorem breakdown_of_cycle (h : m.cycle debug = (.error f, m')) :
    m.state.Breakdown m.console.input f m'.state := by
  obtain ⟨m₁, hcycle, hs, -, hinput⟩ := cycle_eq_act debug m
  rw [hcycle, act_eq debug hs] at h
  rw [← hinput]
  split at h
  · cases h
  · cases h
  · next hi =>
    rcases Attempt.andThen_eq_error_iff.mp h with hexecute | ⟨_, _, _, hrest⟩
    · exact breakdown_of_execute hs hi hexecute
    · cases hrest

theorem execute_of_breakdown (debug : Bool) (hs : m.state = s.tick)
    (h : s.Breakdown m.console.input f t) :
    ∃ i m', s.instruction? = some i ∧ m.execute debug i = (.error f, m') ∧ m'.state = t := by
  obtain ⟨state, ⟨input, written, diagnostics⟩, directions, profile⟩ := m
  obtain rfl : state = s.tick := hs
  cases h with
  | division op hi hv =>
    refine ⟨_, ⟨s.tick.pop.2.pop.2, ⟨input, written, diagnostics⟩, directions, profile⟩, hi, ?_,
      rfl⟩
    simp only [execute, arith]
    split
    · next hsome => cases hsome.symm.trans hv
    · rfl
  | line hi hline =>
    have hread : Input.readLine input = (.error .invalidText, (Input.readLine input).2) :=
      Prod.ext (Input.readLine_eq_error_iff.mpr ⟨hline, rfl⟩) rfl
    refine ⟨_, ⟨s.tick, ⟨(Input.readLine input).2, written, diagnostics⟩, directions, profile⟩, hi,
      ?_, rfl⟩
    simp only [execute, inputNumber, Console.readLine, Buffered.readLine]
    rw [hread]
    rfl

theorem cycle_of_breakdown (debug : Bool) (h : m.state.Breakdown m.console.input f t) :
    ∃ m', m.cycle debug = (.error f, m') ∧ m'.state = t := by
  obtain ⟨m₁, hcycle, hs, -, hinput⟩ := cycle_eq_act debug m
  rw [← hinput] at h
  obtain ⟨i, m', hi, hexecute, hstate⟩ := execute_of_breakdown debug hs h
  refine ⟨m', ?_, hstate⟩
  rw [hcycle, act_eq debug hs, hi]
  split
  · next hnone => cases hnone
  · next hhalt =>
    cases hhalt
    cases hexecute
  · next hi =>
    cases hi
    rw [hexecute, Attempt.andThen_error]

theorem fault_of_cycle (h : m.cycle debug = (.error f, m')) :
    m.state.MayFail ∧ m'.state.outputLength = m.state.outputLength :=
  (breakdown_of_cycle h).mayFail

theorem outputLength_cycle (debug : Bool) (m : Machine Buffered) :
    (m.cycle debug).2.state.outputLength =
      m.state.outputLength + m.state.emission.utf8ByteSize := by
  rcases hcycle : m.cycle debug with ⟨f | o, m'⟩
  · obtain ⟨hmay, hlength⟩ := fault_of_cycle hcycle
    rw [hmay.emission_eq, hlength]
    rfl
  · exact (transition_of_cycle hcycle).outputLength_eq

theorem cycle_of_transition {t : State} (debug : Bool) (hc : ¬m.state.Consults)
    (ht : m.state.Transition o t) : ∃ m', m.cycle debug = (.ok o, m') ∧ m'.state = t := by
  rcases hcycle : m.cycle debug with ⟨f | o', m'⟩
  · obtain ⟨⟨op, hi, hv⟩ | hi, -⟩ := fault_of_cycle hcycle
    · -- a zero divisor has no transition
      cases ht <;> simp_all [Instruction.isPlain]
    · exact absurd (by simp [State.Consults, hi]) hc
  · obtain ⟨rfl, rfl⟩ := (transition_of_cycle hcycle).unique hc ht
    exact ⟨m', rfl, rfl⟩

section Input

theorem input_execute {i : Instruction} (debug : Bool) (hline : i ≠ .inputNumber)
    (hchar : i ≠ .inputChar) (m : Machine Buffered) :
    (m.execute debug i).2.console.input = m.console.input := by
  obtain ⟨state, ⟨input, written, diagnostics⟩, directions, profile⟩ := m
  cases i with
  | inputNumber => exact absurd rfl hline
  | inputChar => exact absurd rfl hchar
  | arith op =>
    simp only [execute, arith]
    split <;> rfl
  | dump => cases debug <;> rfl
  | get | put => simp only [execute, get_eq_ok, put_eq_ok]
  | _ => rfl

/-- Only two instructions take from the input. -/
theorem input_cycle (debug : Bool) (hline : m.state.instruction? ≠ some .inputNumber)
    (hchar : m.state.instruction? ≠ some .inputChar) :
    (m.cycle debug).2.console.input = m.console.input := by
  obtain ⟨m₁, hcycle, hs, -, hinput⟩ := cycle_eq_act debug m
  rw [hcycle, act_eq debug hs, ← hinput]
  split
  · rfl
  · rfl
  · next i _ hi =>
    have hsame := input_execute debug (fun h => hline (h ▸ hi)) (fun h => hchar (h ▸ hi)) m₁
    rw [← hsame]
    obtain ⟨_ | _, m₂⟩ := m₁.execute debug i <;> rfl

theorem cycle_of_execute {i : Instruction} {v : Cell} {rest : List UInt8}
    (hi : m.state.instruction? = some i) (hne : i ≠ .halt)
    (hexecute : ∀ m₁ : Machine Buffered, m₁.console.input = m.console.input →
      ∃ m₂, m₁.execute debug i = (.ok (), m₂) ∧ m₂.state = m₁.state.push v ∧
        m₂.console.input = rest) :
    ∃ m', m.cycle debug = (.ok .proceed, m') ∧ m'.state = (m.state.tick.push v).advance ∧
      m'.console.input = rest := by
  obtain ⟨m₁, hcycle, hs, -, hinput⟩ := cycle_eq_act debug m
  obtain ⟨m₂, hread, hpushed, hrest⟩ := hexecute m₁ hinput
  refine ⟨{ m₂ with state := m₂.state.advance }, ?_, ?_, hrest⟩
  · rw [hcycle, act_eq debug hs]
    split
    · next hnone => simp [hi] at hnone
    · next hhalt => exact absurd (Option.some.inj (hi.symm.trans hhalt)) hne
    · next j _ hj =>
      obtain rfl := Option.some.inj (hi.symm.trans hj)
      rw [hread, Attempt.andThen_ok]
  · rw [← hs, ← hpushed]

theorem cycle_of_readLine (debug : Bool) {line : Option (List Char)} {rest : List UInt8}
    (hi : m.state.instruction? = some .inputNumber)
    (hread : Input.readLine m.console.input = (.ok line, rest)) :
    ∃ m', m.cycle debug = (.ok .proceed, m') ∧
      m'.state = (m.state.tick.push (line.elim 0 Text.number)).advance ∧
      m'.console.input = rest := by
  apply cycle_of_execute hi nofun
  rintro ⟨state, ⟨input, written, diagnostics⟩, directions, profile⟩ hinput
  obtain rfl : input = m.console.input := hinput
  simp [execute, inputNumber, Console.readLine, Buffered.readLine, hread]

theorem cycle_of_readChar (debug : Bool) {c : Option Char} {rest : List UInt8}
    (hi : m.state.instruction? = some .inputChar)
    (hread : Input.readChar m.console.input = (c, rest)) :
    ∃ m', m.cycle debug = (.ok .proceed, m') ∧
      m'.state = (m.state.tick.push (c.elim (-1) Cell.ofChar)).advance ∧
      m'.console.input = rest := by
  apply cycle_of_execute hi nofun
  rintro ⟨state, ⟨input, written, diagnostics⟩, directions, profile⟩ hinput
  obtain rfl : input = m.console.input := hinput
  simp [execute, inputChar, Console.readChar, Buffered.readChar, hread]

end Input

section Silent

/-- `m.Silent debug m'`: from `m` to `m'` the program has neither taken input nor written anything
nor asked for a direction. Only a trace may have been written. -/
structure Silent (debug : Bool) (m m' : Machine Buffered) : Prop where
  input : m'.console.input = m.console.input
  output : m'.console.output = m.console.output
  diagnostics : debug = false → m'.console.diagnostics = m.console.diagnostics
  directions : m'.directions = m.directions

theorem Silent.refl (debug : Bool) (m : Machine Buffered) : m.Silent debug m :=
  ⟨rfl, rfl, fun _ => rfl, rfl⟩

theorem Silent.trans {m'' : Machine Buffered} (h : m.Silent debug m') (h' : m'.Silent debug m'') :
    m.Silent debug m'' where
  input := h'.input.trans h.input
  output := h'.output.trans h.output
  diagnostics hdebug := (h'.diagnostics hdebug).trans (h.diagnostics hdebug)
  directions := h'.directions.trans h.directions

theorem untouched_execute {i : Instruction} (hi : i ≠ .random) (debug : Bool)
    (m : Machine Buffered) :
    (m.execute debug i).2.directions = m.directions ∧
      (debug = false → (m.execute debug i).2.console.diagnostics = m.console.diagnostics) := by
  obtain ⟨state, ⟨input, written, diagnostics⟩, directions, profile⟩ := m
  cases i with
  | random => exact absurd rfl hi
  | inputNumber =>
    simp only [execute, inputNumber, Console.readLine, Buffered.readLine]
    obtain ⟨_ | line, rest⟩ := Input.readLine input <;> exact ⟨rfl, fun _ => rfl⟩
  | arith op =>
    simp only [execute, arith]
    split <;> exact ⟨rfl, fun _ => rfl⟩
  | dump =>
    cases debug with
    | false => exact ⟨rfl, fun _ => rfl⟩
    | true => exact ⟨rfl, fun h => Bool.noConfusion h⟩
  | get | put => simp only [execute, get_eq_ok, put_eq_ok, implies_true, and_self]
  | _ => exact ⟨rfl, fun _ => rfl⟩

theorem untouched_act (debug : Bool) (hs : m.state = s.tick)
    (hi : s.instruction? ≠ some .random) :
    (m.act debug s.current).2.directions = m.directions ∧
      (debug = false →
        (m.act debug s.current).2.console.diagnostics = m.console.diagnostics) := by
  rw [act_eq debug hs]
  split
  · exact ⟨rfl, fun _ => rfl⟩
  · exact ⟨rfl, fun _ => rfl⟩
  · next i _ hsome =>
    have hexecute := untouched_execute (fun h => hi (h ▸ hsome)) debug m
    generalize m.execute debug i = r at hexecute ⊢
    obtain ⟨_ | _, m₁⟩ := r <;> exact hexecute

/-- A cycle that consults nobody and emits nothing is silent. -/
theorem silent_cycle (debug : Bool) (hc : ¬m.state.Consults) (he : m.state.emission = "") :
    m.Silent debug (m.cycle debug).2 := by
  simp only [State.Consults, List.mem_cons, List.not_mem_nil, or_false, not_or] at hc
  obtain ⟨hrandom, hline, hchar⟩ := hc
  have houtput := output_cycle debug m
  rw [he, String.append_empty] at houtput
  refine ⟨input_cycle debug hline hchar, houtput, ?_, ?_⟩
  · rintro rfl
    rw [cycle_false]
    exact (untouched_act (m := m.arrive) false rfl hrandom).2 rfl
  · rw [cycle_eq_attend]
    cases debug with
    | false => exact (untouched_act (m := m.arrive) false rfl hrandom).1
    | true =>
      let line := m.state.traceLine m.state.current
      let traced : Machine Buffered := { m.arrive with console := m.console.diagnose line }
      exact (untouched_act (m := traced) true rfl hrandom).1

end Silent

end Machine

end Befunge
