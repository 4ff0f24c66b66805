import Befunge.Console.Buffered
import Befunge.Proofs.Session.Recording

/-!
# Recording changes nothing

Two sessions of one program that differ only in whether they record take the same steps, until a
state does not fit into the record.
-/

namespace Befunge.Session

variable {π : Type}

/-- A session at the end of its record, and one that does not record, over the same machine. -/
structure Twins (s p : Session π) : Prop where
  record : s.config.record = true
  plain : p.config.record = false
  debug : s.config.debug = p.config.debug
  machine : s.machine = p.machine
  noFuture : s.hasFuture = false

variable [Console π]

theorem Twins.cycle {s p b : Session π} {r : Except Fault Outcome} {m : Machine π}
    (h : Twins s p) (hh : s.state.halted = false) (ho : s.opened = (.ok (), b))
    (hc : b.machine.cycle b.config.debug = (r, m)) {history : History} {position : Nat}
    (hend : ¬position + 1 < history.length) :
    p.step = (r, { p with machine := m }) ∧
      Twins { b with machine := m, history, position } { p with machine := m } := by
  have hmachine := (machine_of_opened h.noFuture ho).1
  have hconfig := (state_of_opened ho).2
  have hhalted : p.state.halted = false := by
    rw [state, ← h.machine]
    exact hh
  rw [hmachine, h.machine, hconfig, h.debug] at hc
  refine ⟨step_of_plain h.plain hhalted hc, ?_⟩
  exact {
    record := by rw [hconfig]; exact h.record
    plain := h.plain
    debug := by rw [hconfig]; exact h.debug
    machine := rfl
    noFuture := decide_eq_false hend }

theorem Twins.step {s p : Session π} (h : Twins s p) :
    (∃ overflow, s.step.1 = .error (.historyFull overflow)) ∨
      s.step.1 = p.step.1 ∧ Twins s.step.2 p.step.2 := by
  have hcases := recordedStep_step h.record
  generalize s.step = r at hcases ⊢
  cases hcases with
  | halted hh =>
    have hp : p.step = (.ok .halt, p) := by
      unfold Session.step
      rw [state, ← h.machine]
      exact if_pos hh
    rw [hp]
    exact .inr ⟨rfl, h⟩
  | unopened _ ho =>
    obtain ⟨-, overflow, rfl⟩ := eq_of_opened_error ho
    exact .inl ⟨overflow, rfl⟩
  | faulted hh ho hc =>
    have hend := (machine_of_opened h.noFuture ho).2
    obtain ⟨hp, htwins⟩ := h.cycle hh ho hc (of_decide_eq_false hend)
    rw [hp]
    exact .inr ⟨rfl, htwins⟩
  | refused => exact .inl ⟨_, rfl⟩
  | @recorded b o m k hh ho hc _ =>
    have hend : ¬k.length - 1 + 1 < k.length := by omega
    obtain ⟨hp, htwins⟩ := h.cycle hh ho hc hend
    rw [hp]
    exact .inr ⟨rfl, htwins⟩

theorem Twins.stepTimes {s p : Session π} (n : Nat) (h : Twins s p)
    (hfits : ∀ overflow, .error (.historyFull overflow) ∉ (s.stepTimes n).1) :
    (s.stepTimes n).1 = (p.stepTimes n).1 ∧ Twins (s.stepTimes n).2 (p.stepTimes n).2 := by
  induction n generalizing s p with
  | zero => exact ⟨rfl, h⟩
  | succ n ih =>
    simp only [Session.stepTimes, List.mem_cons, not_or] at hfits ⊢
    rcases h.step with ⟨overflow, hfull⟩ | ⟨hresult, hnext⟩
    · exact absurd hfull.symm (hfits overflow).1
    · obtain ⟨hresults, htwins⟩ := ih hnext fun overflow => (hfits overflow).2
      exact ⟨by rw [hresult, hresults], htwins⟩

/-- As long as the record has room, steps answer the same and lead to the same machine, whether or
not they are recorded. -/
theorem recording_transparent (field : Playfield) (console : π) (directions : Directions)
    (config : Config) (n : Nat)
    (hfits : ∀ overflow, .error (.historyFull overflow) ∉
      ((start field console directions { config with record := true }).stepTimes n).1) :
    ((start field console directions { config with record := true }).stepTimes n).1 =
        ((start field console directions { config with record := false }).stepTimes n).1 ∧
      ((start field console directions { config with record := true }).stepTimes n).2.machine =
      ((start field console directions { config with record := false }).stepTimes n).2.machine := by
  have htwins : Twins (start field console directions { config with record := true })
      (start field console directions { config with record := false }) :=
    ⟨rfl, rfl, rfl, rfl, rfl⟩
  obtain ⟨hresults, hend⟩ := htwins.stepTimes n hfits
  exact ⟨hresults, hend.machine⟩

/-- A division by zero, tried again and again. -/
theorem recording_transparent_faulty :
    ((start (.load "10/@") (Buffered.ofInput []) (.ofScript []) { record := true }).stepTimes 4).1 =
        [.ok .proceed, .ok .proceed, .error (.divisionByZero .div ⟨2, 0⟩),
          .error (.divisionByZero .div ⟨2, 0⟩)] ∧
      ((start (.load "10/@") (Buffered.ofInput []) (.ofScript [])
          { record := true }).stepTimes 4).2.machine =
        ((start (.load "10/@") (Buffered.ofInput []) (.ofScript [])
          { record := false }).stepTimes 4).2.machine := by
  have hresults : ((start (.load "10/@") (Buffered.ofInput []) (.ofScript [])
      { record := true }).stepTimes 4).1 =
      [.ok .proceed, .ok .proceed, .error (.divisionByZero .div ⟨2, 0⟩),
        .error (.divisionByZero .div ⟨2, 0⟩)] := rfl
  refine ⟨hresults, ?_⟩
  refine (recording_transparent _ _ _ {} 4 fun overflow => ?_).2
  rw [hresults]
  simp

end Befunge.Session
