import Befunge.Console.Buffered
import Befunge.Proofs.Session.Recording

/-!
# Debugging is only heard of

Debugging writes diagnostics and does nothing else. A session with its debugging switched off and
its diagnostics wiped out is called muted here: whatever a session does, the muted one does too, and
what it leaves is the muted form of what the other leaves.
-/

namespace Befunge

def Buffered.muted (b : Buffered) : Buffered := { b with diagnostics := "" }

namespace Machine

def muted (m : Machine Buffered) : Machine Buffered := { m with console := m.console.muted }

theorem execute_muted (debug : Bool) (i : Instruction) (m : Machine Buffered) :
    m.muted.execute false i = (m.execute debug i).within id muted := by
  obtain ⟨state, ⟨input, output, diagnostics⟩, directions, profile⟩ := m
  cases i with
  | inputNumber =>
    simp only [execute, inputNumber, Console.readLine, Buffered.readLine, muted, Buffered.muted]
    obtain ⟨_ | line, rest⟩ := Input.readLine input <;> rfl
  | arith op =>
    simp only [execute, arith, muted]
    split <;> rfl
  | dump => cases debug <;> rfl
  | _ =>
    simp only [execute, get_eq_ok, put_eq_ok]
    rfl

theorem trace_muted (debug : Bool) (cell : Cell) (m : Machine Buffered) :
    m.muted.trace false cell = (m.trace debug cell).within id muted := by
  cases debug <;> rfl

theorem act_muted (debug : Bool) (cell : Cell) (m : Machine Buffered) :
    m.muted.act false cell = (m.act debug cell).within id muted := by
  have hstate : m.muted.state = m.state := rfl
  simp only [act, hstate]
  split
  · rfl
  · split
    · rfl
    · rw [execute_muted debug]
      exact Attempt.within_andThen fun _ _ => rfl

theorem cycle_muted (debug : Bool) (m : Machine Buffered) :
    m.muted.cycle false = (m.cycle debug).within id muted := by
  have htrace : m.muted.arrive.trace false m.state.current =
      (m.arrive.trace debug m.state.current).within id muted :=
    trace_muted debug m.state.current m.arrive
  have hcurrent : m.muted.state.current = m.state.current := rfl
  rw [cycle_eq_attend, cycle_eq_attend, hcurrent]
  unfold attend
  rw [htrace]
  exact Attempt.within_andThen fun _ m' => act_muted debug m.state.current m'

end Machine

namespace Session

def muted (s : Session Buffered) : Session Buffered :=
  { s with config := { s.config with debug := false }, machine := s.machine.muted }

theorem discardFuture_muted (s : Session Buffered) :
    s.muted.discardFuture = s.discardFuture.muted := by
  cases hf : s.hasFuture with
  | true =>
    rw [discardFuture_of_hasFuture hf, discardFuture_of_hasFuture (s := s.muted) hf]
    rfl
  | false =>
    rw [discardFuture_of_not_hasFuture hf, discardFuture_of_not_hasFuture (s := s.muted) hf]

theorem record_muted (s : Session Buffered) : s.muted.record = s.record.within id muted := by
  obtain ⟨config, loaded, machine, history, position⟩ := s
  have hstate : machine.muted.state = machine.state := rfl
  simp only [record, muted, hstate]
  split <;> rfl

theorem recordStart_muted (s : Session Buffered) :
    s.muted.recordStart = s.recordStart.within id muted := by
  have hstart : s.muted.recordStart =
      if s.history.length = 0 then s.muted.record else (.ok (), s.muted) := rfl
  rw [hstart, recordStart]
  split
  · exact record_muted s
  · rfl

theorem cycle_muted (s : Session Buffered) : s.muted.cycle = s.cycle.within id muted := by
  obtain ⟨config, loaded, machine, history, position⟩ := s
  simp only [cycle, muted, Machine.cycle_muted config.debug]
  obtain ⟨_ | _, m⟩ := machine.cycle config.debug <;> rfl

theorem recordedStep_muted (s : Session Buffered) :
    s.muted.recordedStep = s.recordedStep.within id muted := by
  unfold recordedStep
  rw [discardFuture_muted, recordStart_muted]
  apply Attempt.within_andThen
  intro _ s
  rw [cycle_muted]
  apply Attempt.within_andThen
  intro _ s
  rw [record_muted]
  exact Attempt.within_andThen fun _ _ => rfl

theorem step_muted (s : Session Buffered) : s.muted.step = s.step.within id muted := by
  have hstep : s.muted.step =
      if s.state.halted then (.ok .halt, s.muted)
      else if s.config.record then s.muted.recordedStep
      else s.muted.cycle := rfl
  rw [hstep, step]
  split
  · rfl
  · split
    · exact recordedStep_muted s
    · exact cycle_muted s

theorem runFor_muted (fuel : Nat) (s : Session Buffered) :
    s.muted.runFor fuel = (s.runFor fuel).map (·.within id muted) := by
  induction fuel generalizing s with
  | zero => rfl
  | succ fuel ih =>
    have hexhausted : s.muted.exhausted? = s.exhausted? := rfl
    rw [runFor, runFor, hexhausted, step_muted]
    cases s.exhausted? with
    | some limit => rfl
    | none =>
      rcases s.step with ⟨f | (_ | _), t⟩
      · rfl
      · exact ih t
      · rfl

theorem run_muted (s : Session Buffered) :
    s.muted.run = s.run.map fun e => { e with session := e.session.muted } := by
  have hfuel : s.muted.fuel = s.fuel := rfl
  rw [run, run, hfuel, runFor_muted]
  cases s.runFor s.fuel with
  | none => rfl
  | some r => obtain ⟨_ | _, t⟩ := r <;> rfl

theorem restore_muted (i : Nat) (s : Session Buffered) :
    s.muted.restore i = (s.restore i).map muted := by
  have hget : s.muted.history.get? i = s.history.get? i := rfl
  rw [restore, restore, hget]
  cases s.history.get? i <;> rfl

theorem navigation_muted (s : Session Buffered) (refused : Prop) [Decidable refused] (f : Fault)
    (i : Nat) :
    s.muted.orStay (if refused then .error f else s.muted.restore i) =
      (s.orStay (if refused then .error f else s.restore i)).within id muted := by
  split
  · rfl
  · rw [restore_muted]
    cases s.restore i <;> rfl

theorem perform_muted (s : Session Buffered) (c : Call) :
    s.muted.perform c = (s.perform c).map (·.within id muted) := by
  cases c with
  | step =>
    simp only [perform, step_muted]
    obtain ⟨_ | _, t⟩ := s.step <;> rfl
  | run =>
    simp only [perform, run_muted]
    rcases s.run with _ | ⟨_ | _, _ | _, t⟩ <;> rfl
  | stepBackward | stepForward | rewind | jumpToEnd =>
    exact congrArg some (navigation_muted s _ _ _)

theorem performAll_muted (s : Session Buffered) (calls : List Call) :
    s.muted.performAll calls = (s.performAll calls).map muted := by
  unfold performAll
  induction calls generalizing s with
  | nil => rfl
  | cons c calls ih =>
    rw [List.foldlM_cons, List.foldlM_cons, perform_muted]
    rcases s.perform c with _ | ⟨_ | _, t⟩
    · rfl
    · exact ih t
    · exact ih t

/-- Debugging changes nothing but the diagnostics, and without it there are none. Whatever calls two
sessions of one program are given, if one of them debugs and the other does not, both come to the
same end and stand alike, and what is asked of them next they answer alike. -/
theorem debug_changes_diagnostics_only (field : Playfield) (input : List UInt8)
    (directions : Directions) (config : Config) (calls : List Call) :
    let plain := start field (Buffered.ofInput input) directions { config with debug := false }
    let traced := start field (Buffered.ofInput input) directions { config with debug := true }
    (plain.performAll calls = none ∧ traced.performAll calls = none) ∨
      ∃ s t, plain.performAll calls = some s ∧ traced.performAll calls = some t ∧
        s.state = t.state ∧ s.loaded = t.loaded ∧ s.machine.profile = t.machine.profile ∧
        s.machine.directions = t.machine.directions ∧
        s.machine.console.output = t.machine.console.output ∧
        s.machine.console.input = t.machine.console.input ∧
        s.history = t.history ∧ s.position = t.position ∧
        s.machine.console.diagnostics = "" ∧
        s.step.1 = t.step.1 ∧ ∀ c, (s.perform c).map Prod.fst = (t.perform c).map Prod.fst := by
  intro plain traced
  have hmuted : plain.performAll calls = (traced.performAll calls).map muted :=
    performAll_muted traced calls
  cases htraced : traced.performAll calls with
  | none =>
    rw [htraced] at hmuted
    exact .inl ⟨hmuted, rfl⟩
  | some t =>
    rw [htraced] at hmuted
    refine .inr ⟨t.muted, t, hmuted, rfl, rfl, rfl, rfl, rfl, rfl, rfl, rfl, rfl, rfl, ?_, ?_⟩
    · rw [step_muted, Attempt.fst_within_id]
    · intro c
      rw [perform_muted]
      rcases t.perform c with _ | ⟨_ | _, t'⟩ <;> rfl

end Session

end Befunge
