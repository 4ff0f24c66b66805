import Befunge.Proofs.Machine.Access
import Befunge.Proofs.Machine.Buffered
import Befunge.Proofs.Machine.Symbols
import Befunge.Proofs.Session.Iteration

/-!
# Where a step fails

Over a console in memory a step fails at two places only: at a division whose divisor is zero, and
at a request for a number whose line of input is the encoding of no text. Both leave the machine
at the cell where they happen.
-/

namespace Befunge

open Text

theorem Stack.peek_eq_zero_iff {s : Stack} :
    s.peek = 0 ↔ s.values = [] ∨ s.values.head? = some 0 := by
  obtain ⟨_ | ⟨v, rest⟩⟩ := s
  · exact iff_of_true rfl (.inl rfl)
  · simp [peek]

namespace State

variable {s t : State} {input : List UInt8} {f : Fault}

theorem instruction?_eq_arith_iff {op : Operator} :
    s.instruction? = some (.arith op) ↔ s.mode = .normal ∧ s.current = Cell.ofChar op.symbol :=
  instruction?_eq_some_iff (i := .arith op) rfl nofun

theorem instruction?_eq_inputNumber_iff :
    s.instruction? = some .inputNumber ↔ s.mode = .normal ∧ s.current = Cell.ofChar '&' :=
  instruction?_eq_some_iff (i := .inputNumber) rfl nofun

theorem exists_breakdown_iff :
    (∃ t, s.Breakdown input f t) ↔ s.mode = .normal ∧
      ((∃ op, (op = .div ∨ op = .mod) ∧ s.current = Cell.ofChar op.symbol ∧
          (s.stack.values = [] ∨ s.stack.values.head? = some 0) ∧
          f = .divisionByZero op s.cursor.position) ∨
        s.current = Cell.ofChar '&' ∧
          (∀ text, Utf8.encode text ≠ input.takeWhile (· ≠ 10)) ∧
          f = .io s.cursor.position .invalidText) := by
  constructor
  · rintro ⟨t, h⟩
    cases h with
    | division op hi hv =>
      obtain ⟨hop, hzero⟩ := Operator.value?_eq_none_iff.mp hv
      obtain ⟨hmode, hcell⟩ := instruction?_eq_arith_iff.mp hi
      exact ⟨hmode, .inl ⟨op, hop, hcell, Stack.peek_eq_zero_iff.mp hzero, rfl⟩⟩
    | line hi hline =>
      obtain ⟨hmode, hcell⟩ := instruction?_eq_inputNumber_iff.mp hi
      exact ⟨hmode, .inr ⟨hcell, hline, rfl⟩⟩
  · rintro ⟨hmode, ⟨op, hop, hcell, htop, rfl⟩ | ⟨hcell, hline, rfl⟩⟩
    · have hv : op.value? s.pop.2.stack.peek s.stack.peek = none :=
        Operator.value?_eq_none_iff.mpr ⟨hop, Stack.peek_eq_zero_iff.mpr htop⟩
      exact ⟨_, .division op (instruction?_eq_arith_iff.mpr ⟨hmode, hcell⟩) hv⟩
    · exact ⟨_, .line (instruction?_eq_inputNumber_iff.mpr ⟨hmode, hcell⟩) hline⟩

namespace Breakdown

theorem position_eq (h : s.Breakdown input f t) : f.position? = some s.cursor.position := by
  cases h <;> rfl

theorem state_eq (h : s.Breakdown input f t) :
    ∃ n ≤ 2, (s.current = Cell.ofChar '&' → n = 0) ∧
      t = { s with steps := s.steps + 1, stack := ⟨s.stack.values.drop n⟩ } := by
  cases h with
  | division op hi =>
    refine ⟨2, Nat.le_refl 2, ?_, ?_⟩
    · intro hcell
      obtain ⟨hmode, -⟩ := instruction?_eq_arith_iff.mp hi
      -- the same cell would hold another instruction
      cases hi.symm.trans (instruction?_eq_inputNumber_iff.mpr ⟨hmode, hcell⟩)
    · simp only [tick, pop, Stack.discard_eq_drop, List.drop_drop]
  | line => exact ⟨0, Nat.zero_le 2, fun _ => rfl, rfl⟩

end Breakdown

end State

namespace Session

variable {s : Session Buffered}

/-- A step fails exactly in two cases, both in normal mode: at `/` or `%` with nothing or a zero on
top of the stack, and at `&` with a line of input that encodes no text. The fault names the cell
under the cursor, and it leaves the machine there: a step has been counted, a division has taken its
operands off the stack, and the rest of the state and the output are as they were. Every other step
counts one step too, and it leaves the program halted exactly if it says so. -/
theorem step_faults_exactly (hrecord : s.config.record = false) (hh : s.state.halted = false) :
    let here := s.state.cursor.position
    let values := s.state.stack.values
    (∀ f, s.step.1 = .error f ↔ s.state.mode = .normal ∧
      ((∃ op, (op = .div ∨ op = .mod) ∧ s.state.current = Cell.ofChar op.symbol ∧
          (values = [] ∨ values.head? = some 0) ∧ f = .divisionByZero op here) ∨
        s.state.current = Cell.ofChar '&' ∧
          (∀ text, Utf8.encode text ≠ s.machine.console.input.takeWhile (· ≠ 10)) ∧
          f = .io here .invalidText)) ∧
    (∀ f, s.step.1 = .error f → f.position? = some here ∧
      s.step.2.machine.console.output = s.machine.console.output ∧
      ∃ n ≤ 2, (s.state.current = Cell.ofChar '&' → n = 0) ∧
        s.step.2.state =
          { s.state with steps := s.state.steps + 1, stack := ⟨values.drop n⟩ }) ∧
    ∀ o, s.step.1 = .ok o → s.step.2.state.steps = s.state.steps + 1 ∧
      (s.step.2.state.halted = true ↔ o = .halt) := by
  intro here values
  rcases hc : s.machine.cycle s.config.debug with ⟨r, m⟩
  rw [step_of_plain hrecord hh hc]
  refine ⟨fun f => ?_, ?_, ?_⟩
  · rw [← State.exists_breakdown_iff]
    constructor
    · rintro rfl
      exact ⟨_, Machine.breakdown_of_cycle hc⟩
    · rintro ⟨t, ht⟩
      obtain ⟨m', hm', -⟩ := Machine.cycle_of_breakdown s.config.debug ht
      exact congrArg Prod.fst (hc.symm.trans hm')
  · rintro f rfl
    have hbreakdown := Machine.breakdown_of_cycle hc
    refine ⟨hbreakdown.position_eq, ?_, hbreakdown.state_eq⟩
    have houtput := Machine.output_cycle s.config.debug s.machine
    rwa [hc, (Machine.fault_of_cycle hc).1.emission_eq, String.append_empty] at houtput
  · rintro o rfl
    have ht := Machine.transition_of_cycle hc
    refine ⟨ht.steps_eq, ht.halted_iff.trans (or_iff_right ?_)⟩
    exact Bool.eq_false_iff.mp hh

/-- A request meets a line that is no text and fails. The next one finds the input at its end and
supplies the zero by which the division then fails. -/
theorem step_faults_exactly_twice :
    let after (n : Nat) : Session Buffered :=
      ((start (.load "10&/") (Buffered.ofInput [0xff, 10]) (.ofScript []) {}).stepTimes n).2
    (after 2).step.1 = .error (.io ⟨2, 0⟩ .invalidText) ∧
      (after 2).step.2.state = { (after 2).state with steps := 3 } ∧
      (after 4).step.1 = .error (.divisionByZero .div ⟨3, 0⟩) ∧
      ∃ n ≤ 2, (after 4).step.2.state =
        { (after 4).state with steps := 5, stack := ⟨[(0 : Cell), 0, 1].drop n⟩ } := by
  intro after
  have hline : ∀ text, Utf8.encode text ≠ [(0xff : UInt8)] :=
    Utf8.decode?_eq_none_iff.mp (by decide +kernel)
  have hview : (after 4).state.halted = false ∧ (after 4).state.mode = .normal ∧
      (after 4).state.current = Cell.ofChar '/' ∧ (after 4).state.steps = 4 ∧
      (after 4).state.stack.values = [0, 0, 1] ∧
      (after 4).state.cursor.position = ⟨3, 0⟩ := by
    decide +kernel
  obtain ⟨hh, hmode, hcell, hsteps, hvalues, hhere⟩ := hview
  have hrecord : (after 4).config.record = false := congrArg Config.record (config_stepTimes 4 _)
  obtain ⟨hfirst, hleft, -⟩ := step_faults_exactly (s := after 2) rfl rfl
  obtain ⟨hsecond, hpopped, -⟩ := step_faults_exactly (s := after 4) hrecord hh
  have hio := (hfirst _).mpr ⟨rfl, .inr ⟨rfl, hline, rfl⟩⟩
  have hzero := (hsecond _).mpr
    ⟨hmode, .inl ⟨.div, .inl rfl, hcell, .inr (by rw [hvalues]; rfl), rfl⟩⟩
  obtain ⟨-, -, n, -, hn, hstate⟩ := hleft _ hio
  obtain ⟨-, -, k, hk, -, hstack⟩ := hpopped _ hzero
  obtain rfl := hn rfl
  rw [hhere] at hzero
  rw [hsteps, hvalues] at hstack
  exact ⟨hio, hstate, hzero, k, hk, hstack⟩

end Session

end Befunge
