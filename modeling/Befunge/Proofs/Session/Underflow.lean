import Befunge.Console.Buffered
import Befunge.Proofs.Session.Iteration

/-!
# Zeros below the stack

An empty stack answers like one of zeros. So zeros put below a stack are not noticed: no instruction
asks how deep the stack is, and those that want more operands than there are find the zeros that
they would have found anyway. At most some of the zeros are gone afterwards.
-/

namespace Befunge

namespace Stack

variable (k : Nat) (s : Stack)

/-- The stack with `k` more zeros at its bottom. -/
def padded : Stack := ⟨s.values ++ List.replicate k 0⟩

theorem peek_padded : (s.padded k).peek = s.peek := by
  obtain ⟨_ | ⟨v, rest⟩⟩ := s
  · cases k <;> rfl
  · rfl

theorem exists_discard_padded : ∃ j, (s.padded k).discard = s.discard.padded j := by
  obtain ⟨_ | ⟨v, rest⟩⟩ := s
  · -- one of the zeros goes, if there is one
    refine ⟨k - 1, ?_⟩
    cases k <;> rfl
  · exact ⟨k, rfl⟩

end Stack

namespace State

def padded (k : Nat) (s : State) : State := { s with stack := s.stack.padded k }

theorem exists_pop_padded (k : Nat) (s : State) :
    ∃ j, (s.padded k).pop = (s.pop.1, s.pop.2.padded j) := by
  obtain ⟨j, hj⟩ := s.stack.exists_discard_padded k
  refine ⟨j, ?_⟩
  simp only [pop, padded, Stack.peek_padded, hj]

theorem exists_apply_padded (k : Nat) (s : State) (i : Instruction) :
    ∃ j, (s.padded k).apply i = (s.apply i).padded j := by
  -- no instruction takes more than three operands, and each of them may be one of the zeros
  obtain ⟨j₁, h₁⟩ := s.exists_pop_padded k
  obtain ⟨j₂, h₂⟩ := s.pop.2.exists_pop_padded j₁
  obtain ⟨j₃, h₃⟩ := s.pop.2.pop.2.exists_pop_padded j₂
  cases i with
  | pop => exact ⟨j₁, congrArg Prod.snd h₁⟩
  | horizontalIf | verticalIf | not =>
    refine ⟨j₁, ?_⟩
    simp only [apply, h₁]
    rfl
  | greater | swap | get =>
    refine ⟨j₂, ?_⟩
    simp only [apply, h₁, h₂]
    rfl
  | put =>
    refine ⟨j₃, ?_⟩
    simp only [apply, h₁, h₂, h₃]
    rfl
  | duplicate =>
    refine ⟨k, ?_⟩
    simp only [apply, padded, Stack.peek_padded]
    rfl
  | _ => exact ⟨k, rfl⟩

end State

namespace Machine

variable {π : Type}

def padded (k : Nat) (m : Machine π) : Machine π := { m with state := m.state.padded k }

variable [Console π]

theorem exists_execute_padded (k : Nat) (m : Machine π) (i : Instruction) :
    ∃ j, (m.padded k).execute false i = (m.execute false i).within id (padded j) := by
  obtain ⟨state, console, directions, profile⟩ := m
  obtain ⟨j₁, h₁⟩ := state.exists_pop_padded k
  obtain ⟨j₂, h₂⟩ := state.pop.2.exists_pop_padded j₁
  obtain ⟨j, hj⟩ := state.exists_apply_padded k i
  cases i with
  | inputNumber | inputChar =>
    refine ⟨k, ?_⟩
    simp only [execute, inputNumber, inputChar, padded]
    split <;> rfl
  | outputNumber | outputChar =>
    refine ⟨j₁, ?_⟩
    simp only [execute, output, emit, padded, h₁]
    split <;> rfl
  | arith op =>
    refine ⟨j₂, ?_⟩
    simp only [execute, arith, padded, h₁, h₂]
    split <;> rfl
  | random | dump => exact ⟨k, rfl⟩
  | _ =>
    refine ⟨j, ?_⟩
    simp only [execute, get_eq_ok, put_eq_ok, padded, hj]
    rfl

theorem exists_act_padded (k : Nat) (cell : Cell) (m : Machine π) :
    ∃ j, (m.padded k).act false cell = (m.act false cell).within id (padded j) := by
  have hmode : (m.padded k).state.mode = m.state.mode := rfl
  simp only [act, hmode]
  split
  · exact ⟨k, rfl⟩
  · split
    · exact ⟨k, rfl⟩
    · obtain ⟨j, hj⟩ := m.exists_execute_padded k (.decode cell)
      refine ⟨j, ?_⟩
      rw [hj]
      exact Attempt.within_andThen fun _ _ => rfl

theorem exists_cycle_padded (k : Nat) (m : Machine π) :
    ∃ j, (m.padded k).cycle false = (m.cycle false).within id (padded j) := by
  rw [cycle_false, cycle_false]
  exact m.arrive.exists_act_padded k m.state.current

end Machine

namespace Session

variable {π : Type}

def padded (k : Nat) (s : Session π) : Session π := { s with machine := s.machine.padded k }

variable [Console π] {s : Session π}

theorem exists_step_padded (k : Nat) (hrecord : s.config.record = false)
    (hdebug : s.config.debug = false) :
    ∃ j, (s.padded k).step = s.step.within id (padded j) := by
  cases hh : s.state.halted with
  | true =>
    refine ⟨k, ?_⟩
    rw [step_of_halted hh, step_of_halted (s := s.padded k) hh]
    rfl
  | false =>
    obtain ⟨j, hj⟩ := s.machine.exists_cycle_padded k
    rw [← hdebug] at hj
    rcases hc : s.machine.cycle s.config.debug with ⟨r, m⟩
    rw [hc] at hj
    refine ⟨j, ?_⟩
    rw [step_of_plain hrecord hh hc, step_of_plain (p := s.padded k) hrecord hh hj]
    cases r <;> rfl

/-- An empty stack is as good as any number of zeros. Put some below the stack of a session that
neither records nor debugs: every step answers as it would have, faults included, and leaves what it
would have left, with zeros below the stack again. -/
theorem underflow_supplies_zeros (hrecord : s.config.record = false)
    (hdebug : s.config.debug = false) (k n : Nat) :
    ((s.padded k).stepTimes n).1 = (s.stepTimes n).1 ∧
      ∃ j, ((s.padded k).stepTimes n).2 = (s.stepTimes n).2.padded j := by
  induction n with
  | zero => exact ⟨rfl, k, rfl⟩
  | succ n ih =>
    obtain ⟨hanswers, j, hj⟩ := ih
    have hconfig := config_stepTimes n s
    obtain ⟨i, hi⟩ := exists_step_padded (s := (s.stepTimes n).2) j (hconfig ▸ hrecord)
      (hconfig ▸ hdebug)
    rw [stepTimes_succ, stepTimes_succ, hanswers, hj, hi]
    rw [Attempt.fst_within_id, Attempt.snd_within]
    exact ⟨rfl, i, rfl⟩

/-- An empty stack is copied from, written out and added up, and then divided by. Two zeros more
do not make the division come later. -/
theorem underflow_supplies_zeros_to_division :
    let s := start (.load ":.+/") (Buffered.ofInput []) (.ofScript []) {}
    ((s.padded 2).stepTimes 5).1 =
        [.ok .proceed, .ok .proceed, .ok .proceed, .error (.divisionByZero .div ⟨3, 0⟩),
          .error (.divisionByZero .div ⟨3, 0⟩)] ∧
      ∃ j, ((s.padded 2).stepTimes 5).2 = (s.stepTimes 5).2.padded j := by
  intro s
  have hanswers : (s.stepTimes 5).1 =
      [.ok .proceed, .ok .proceed, .ok .proceed, .error (.divisionByZero .div ⟨3, 0⟩),
        .error (.divisionByZero .div ⟨3, 0⟩)] := by
    rfl
  rw [← hanswers]
  exact underflow_supplies_zeros rfl rfl 2 5

end Session

end Befunge
