import Befunge.Console.Buffered
import Befunge.Proofs.Session.Recording

/-!
# A run is repeated stepping

A run takes steps as long as they go on and the step budget lasts. So it ends with the first step
that halts or fails, if that one still lies within the budget, and otherwise where the budget is
used up. The budget is looked at before a step and not after it: a program may halt with its last
step.
-/

namespace Befunge.Session

variable {π : Type} {s s' : Session π} {o : Outcome} {r : Except Fault Outcome}
  {limit fuel m n : Nat}

theorem exhausted?_of_halted (hh : s.state.halted = true) : s.exhausted? = none := by
  unfold exhausted?
  cases s.config.maxSteps <;> simp [Option.filter, hh]

theorem exhausted?_of_le (hlimit : s.config.maxSteps = some limit)
    (hle : limit ≤ s.state.steps) (hh : s.state.halted = false) : s.exhausted? = some limit := by
  simp [exhausted?, hlimit, Option.filter, hle, hh]

/-- The step budget, if there is one, lasts for `n` more steps. -/
def Affords (s : Session π) (n : Nat) : Prop :=
  ∀ limit, s.config.maxSteps = some limit → n ≤ limit - s.state.steps

theorem Affords.exhausted?_eq_none (h : s.Affords (n + 1)) : s.exhausted? = none := by
  unfold exhausted?
  cases hlimit : s.config.maxSteps with
  | none => rfl
  | some limit =>
    have hroom := h limit hlimit
    have hnot : ¬limit ≤ s.state.steps := by omega
    simp [Option.filter, hnot]

theorem affords_of_limit (hlimit : s.config.maxSteps = some limit)
    (hle : n ≤ limit - s.state.steps) : s.Affords n := by
  intro other hother
  obtain rfl := Option.some.inj (hlimit.symm.trans hother)
  exact hle

theorem Affords.mono (h : s.Affords n) (hmn : m ≤ n) : s.Affords m := by
  intro limit hlimit
  exact Nat.le_trans hmn (h limit hlimit)

theorem fuel_of_limit (hlimit : s.config.maxSteps = some limit) :
    s.fuel = limit - s.state.steps + 1 := by
  rw [Session.fuel, hlimit]

variable [Console π]

theorem config_step (s : Session π) : s.step.2.config = s.config := by
  cases hrecord : s.config.record with
  | true =>
    have hcases := recordedStep_step hrecord
    generalize s.step = r at hcases ⊢
    cases hcases with
    | halted => rfl
    | unopened _ ho =>
      obtain ⟨rfl, -⟩ := eq_of_opened_error ho
      rfl
    | faulted _ ho | refused _ ho | recorded _ ho => exact (state_of_opened ho).2
  | false =>
    cases hh : s.state.halted with
    | true => rw [step_of_halted hh]
    | false => rw [step_of_plain hrecord hh rfl]

theorem transition_of_step (hh : s.state.halted = false) (hstep : s.step = (.ok o, s')) :
    s.state.Transition o s'.state := by
  cases hrecord : s.config.record with
  | true =>
    have hcases := recordedStep_step hrecord
    rw [hstep] at hcases
    cases hcases with
    | halted halted =>
      rw [hh] at halted
      cases halted
    | recorded _ ho hc =>
      rw [← (state_of_opened ho).1]
      exact Machine.transition_of_cycle hc
  | false =>
    rcases hc : s.machine.cycle s.config.debug with ⟨r, m⟩
    rw [step_of_plain hrecord hh hc] at hstep
    cases hstep
    exact Machine.transition_of_cycle hc

/-- A step that goes on counts one step, neither from a halted state nor to one. -/
theorem of_step_proceed (hstep : s.step = (.ok .proceed, s')) :
    s.state.halted = false ∧ s'.state.halted = false ∧ s'.state.steps = s.state.steps + 1 ∧
      s'.config = s.config := by
  have hconfig := config_step s
  cases hh : s.state.halted with
  | true =>
    rw [step_of_halted hh] at hstep
    cases hstep
  | false =>
    have ht := transition_of_step hh hstep
    have hnot : ¬s'.state.halted = true := by
      rw [ht.halted_iff, hh]
      simp
    rw [hstep] at hconfig
    exact ⟨rfl, Bool.not_eq_true _ ▸ hnot, ht.steps_eq, hconfig⟩

theorem stepTimes_add (m n : Nat) (s : Session π) :
    s.stepTimes (m + n) =
      ((s.stepTimes m).1 ++ ((s.stepTimes m).2.stepTimes n).1,
        ((s.stepTimes m).2.stepTimes n).2) := by
  induction n with
  | zero => simp [stepTimes]
  | succ n ih =>
    rw [← Nat.add_assoc, stepTimes_succ, ih, stepTimes_succ n, List.append_assoc]

theorem step_stepTimes (h : (s.stepTimes n).2.step.1 = r) :
    (s.stepTimes n).2.step = (r, (s.stepTimes (n + 1)).2) := by
  rw [stepTimes_succ]
  exact Prod.ext h rfl

theorem config_stepTimes (n : Nat) (s : Session π) : (s.stepTimes n).2.config = s.config := by
  induction n with
  | zero => rfl
  | succ n ih => rw [stepTimes_succ, config_step, ih]

theorem stepTimes_of_halted (hh : s.state.halted = true) (n : Nat) : (s.stepTimes n).2 = s := by
  induction n with
  | zero => rfl
  | succ n ih => rw [stepTimes_succ, ih, step_of_halted hh]

/-- The first `n` steps go on. -/
def Proceeds (s : Session π) (n : Nat) : Prop := ∀ r ∈ (s.stepTimes n).1, r = .ok .proceed

/-- The first `n` steps go on, and the next one answers `r` and does not. -/
structure StopsAfter (s : Session π) (n : Nat) (r : Except Fault Outcome) : Prop where
  proceeds : s.Proceeds n
  answers : (s.stepTimes n).2.step.1 = r
  stops : r ≠ .ok .proceed

theorem proceeds_zero (s : Session π) : s.Proceeds 0 := by
  intro r hr
  cases hr

theorem proceeds_succ_iff :
    s.Proceeds (n + 1) ↔ s.Proceeds n ∧ (s.stepTimes n).2.step.1 = .ok .proceed := by
  unfold Proceeds
  rw [stepTimes_succ]
  simp only [List.mem_append, List.mem_singleton, or_imp, forall_and, forall_eq]

theorem proceeds_or_stopsAfter (s : Session π) (n : Nat) :
    s.Proceeds n ∨ ∃ k r, k < n ∧ s.StopsAfter k r := by
  induction n with
  | zero => exact .inl (proceeds_zero s)
  | succ n ih =>
    rcases ih with hgo | ⟨k, r, hk, hstop⟩
    · by_cases hlast : (s.stepTimes n).2.step.1 = .ok .proceed
      · exact .inl (proceeds_succ_iff.mpr ⟨hgo, hlast⟩)
      · exact .inr ⟨n, _, Nat.lt_succ_self n, hgo, rfl, hlast⟩
    · exact .inr ⟨k, r, Nat.lt_succ_of_lt hk, hstop⟩

/-- What each step that goes on keeps, steps that go on keep. -/
theorem Proceeds.induction_on {P : Nat → Session π → Prop} (hgo : s.Proceeds n) (hstart : P 0 s)
    (hstep : ∀ i t t', P i t → t.step = (.ok .proceed, t') → P (i + 1) t') :
    P n (s.stepTimes n).2 := by
  induction n with
  | zero => exact hstart
  | succ n ih =>
    obtain ⟨hbefore, hlast⟩ := proceeds_succ_iff.mp hgo
    exact hstep n _ _ (ih hbefore) (step_stepTimes hlast)

theorem Proceeds.steps_eq (hgo : s.Proceeds n) :
    (s.stepTimes n).2.state.steps = s.state.steps + n := by
  refine hgo.induction_on (P := fun n t => t.state.steps = s.state.steps + n) rfl ?_
  intro i t t' ht hstep
  rw [(of_step_proceed hstep).2.2.1, ht, Nat.add_assoc]

theorem Proceeds.not_halted (hgo : s.Proceeds n) (hh : s.state.halted = false) :
    (s.stepTimes n).2.state.halted = false := by
  refine hgo.induction_on (P := fun _ t => t.state.halted = false) hh ?_
  intro i t t' _ hstep
  exact (of_step_proceed hstep).2.1

theorem Affords.stepTimes (h : s.Affords (n + m)) (hgo : s.Proceeds n) :
    (s.stepTimes n).2.Affords m := by
  intro limit hlimit
  rw [config_stepTimes] at hlimit
  have hroom := h limit hlimit
  have hsteps := hgo.steps_eq
  omega

/-- Steps that go on within the budget are the beginning of a run. -/
theorem runFor_add (hgo : s.Proceeds n) (hroom : s.Affords n) (fuel : Nat) :
    s.runFor (n + fuel) = (s.stepTimes n).2.runFor fuel := by
  induction n generalizing fuel with
  | zero => rw [Nat.zero_add]; rfl
  | succ n ih =>
    obtain ⟨hbefore, hlast⟩ := proceeds_succ_iff.mp hgo
    have hnext : (s.stepTimes n).2.exhausted? = none :=
      (hroom.stepTimes hbefore).exhausted?_eq_none
    rw [Nat.add_right_comm, Nat.add_assoc, ih hbefore (hroom.mono (Nat.le_succ n)), runFor, hnext,
      step_stepTimes hlast]

theorem runFor_of_halted (hh : s.state.halted = true) (hfuel : 0 < fuel) :
    s.runFor fuel = some (.ok (), s) := by
  obtain ⟨fuel, rfl⟩ := Nat.exists_eq_succ_of_ne_zero (Nat.ne_of_gt hfuel)
  rw [runFor, exhausted?_of_halted hh, step_of_halted hh]

theorem runFor_of_stopsAfter (hstop : s.StopsAfter n r) (hroom : s.Affords (n + 1))
    (hfuel : n < fuel) :
    s.runFor fuel = some (r.map fun _ => (), (s.stepTimes (n + 1)).2) := by
  obtain ⟨rest, rfl⟩ := Nat.exists_eq_add_of_lt hfuel
  have hnext := (hroom.stepTimes hstop.proceeds).exhausted?_eq_none
  rw [Nat.add_assoc, runFor_add hstop.proceeds (hroom.mono (Nat.le_succ n)), runFor, hnext,
    step_stepTimes hstop.answers]
  rcases r with f | (_ | _)
  · rfl
  · exact absurd rfl hstop.stops
  · rfl

theorem runFor_of_proceeds (hlimit : s.config.maxSteps = some limit)
    (hh : s.state.halted = false) (hgo : s.Proceeds (limit - s.state.steps))
    (hfuel : limit - s.state.steps < fuel) :
    s.runFor fuel =
      some (.error (.stepLimit limit), (s.stepTimes (limit - s.state.steps)).2) := by
  obtain ⟨rest, rfl⟩ := Nat.exists_eq_add_of_lt hfuel
  have hroom := affords_of_limit hlimit (Nat.le_refl _)
  have hused : limit ≤ (s.stepTimes (limit - s.state.steps)).2.state.steps := by
    rw [hgo.steps_eq]
    omega
  have hend := exhausted?_of_le ((config_stepTimes _ s).symm ▸ hlimit) hused (hgo.not_halted hh)
  rw [Nat.add_assoc, runFor_add hgo hroom, runFor, hend]

theorem StopsAfter.halted (hstop : s.StopsAfter n (.ok .halt)) :
    (s.stepTimes (n + 1)).2.state.halted = true := by
  have hstep := step_stepTimes hstop.answers
  cases hh : (s.stepTimes n).2.state.halted with
  | true =>
    rw [step_of_halted hh] at hstep
    rw [← (Prod.mk.inj hstep).2, hh]
  | false => exact (transition_of_step hh hstep).halted_iff.mpr (.inr rfl)

theorem exists_runFor_of_limit (hlimit : s.config.maxSteps = some limit) :
    ∃ r t, s.runFor s.fuel = some (r, t) := by
  rw [fuel_of_limit hlimit]
  cases hh : s.state.halted with
  | true => exact ⟨_, _, runFor_of_halted hh (Nat.succ_pos _)⟩
  | false =>
    rcases s.proceeds_or_stopsAfter (limit - s.state.steps) with hgo | ⟨n, r, hn, hstop⟩
    · exact ⟨_, _, runFor_of_proceeds hlimit hh hgo (Nat.lt_succ_self _)⟩
    · exact ⟨_, _, runFor_of_stopsAfter hstop (affords_of_limit hlimit hn) (by omega)⟩

section Buffered

variable {s t : Session Buffered} {r : Except Fault Unit}

theorem run_of_runFor (h : s.runFor s.fuel = some (r, t)) : s.run = some ⟨r, .ok (), t⟩ := by
  rw [run, h]
  rfl

theorem run_of_halted (hlimit : s.config.maxSteps = some limit) (hh : s.state.halted = true) :
    s.run = some ⟨.ok (), .ok (), s⟩ := by
  apply run_of_runFor
  rw [fuel_of_limit hlimit]
  exact runFor_of_halted hh (Nat.succ_pos _)

theorem run_of_stopsAfter {r : Except Fault Outcome} (hlimit : s.config.maxSteps = some limit)
    (hn : n < limit - s.state.steps) (hstop : s.StopsAfter n r) :
    s.run = some ⟨r.map fun _ => (), .ok (), (s.stepTimes (n + 1)).2⟩ := by
  apply run_of_runFor
  rw [fuel_of_limit hlimit]
  exact runFor_of_stopsAfter hstop (affords_of_limit hlimit hn) (by omega)

theorem run_stepTimes (hlimit : s.config.maxSteps = some limit)
    (hn : n ≤ limit - s.state.steps) (hok : ∀ r ∈ (s.stepTimes n).1, r.isOk = true) :
    (s.stepTimes n).2.run = s.run := by
  have hlimit' : (s.stepTimes n).2.config.maxSteps = some limit := by
    rw [config_stepTimes, hlimit]
  rcases s.proceeds_or_stopsAfter n with hgo | ⟨k, r, hk, hstop⟩
  · have hfuel : s.fuel = n + (s.stepTimes n).2.fuel := by
      rw [fuel_of_limit hlimit, fuel_of_limit hlimit', hgo.steps_eq]
      omega
    rw [run, run, hfuel, runFor_add hgo (affords_of_limit hlimit hn)]
  · -- one of the steps halts, and the others after it find a program that has halted
    obtain ⟨rest, rfl⟩ := Nat.exists_eq_add_of_le (Nat.succ_le_of_lt hk)
    have hmem : r ∈ (s.stepTimes (k + 1 + rest)).1 := by
      rw [stepTimes_add, stepTimes_succ, hstop.answers]
      simp
    obtain rfl : r = .ok .halt := by
      have hokr := hok r hmem
      rcases r with f | (_ | _)
      · cases hokr
      · exact absurd rfl hstop.stops
      · rfl
    have hsame : (s.stepTimes (k + 1 + rest)).2 = (s.stepTimes (k + 1)).2 := by
      rw [stepTimes_add]
      exact stepTimes_of_halted hstop.halted rest
    rw [run_of_stopsAfter hlimit (by omega) hstop, run_of_halted hlimit' (hsame ▸ hstop.halted),
      hsame]
    rfl

/-- A run with a step budget is as many steps as the budget allows. It ends with the first of them
that halts or fails, and with an exceeded limit after the last one if there is no such step. The
last step may be the one that halts, and steps taken before the run are steps that it does not
take. -/
theorem run_eq_steps_within_limit (hlimit : s.config.maxSteps = some limit)
    (hh : s.state.halted = false) :
    (∀ n r, n < limit - s.state.steps → s.StopsAfter n r →
        s.run = some ⟨r.map fun _ => (), .ok (), (s.stepTimes (n + 1)).2⟩) ∧
      ((∀ n r, n < limit - s.state.steps → ¬s.StopsAfter n r) →
        s.Proceeds (limit - s.state.steps) ∧
        s.run = some ⟨.error (.stepLimit limit), .ok (),
          (s.stepTimes (limit - s.state.steps)).2⟩ ∧
        (s.stepTimes (limit - s.state.steps)).2.state.steps = max s.state.steps limit) ∧
      (∀ n, s.state.steps + n + 1 = limit → s.StopsAfter n (.ok .halt) →
        s.run = some ⟨.ok (), .ok (), (s.stepTimes (n + 1)).2⟩ ∧
        (s.stepTimes (n + 1)).2.state.steps = limit) ∧
      ∀ n, n ≤ limit - s.state.steps → (∀ r ∈ (s.stepTimes n).1, r.isOk = true) →
        (s.stepTimes n).2.run = s.run := by
  refine ⟨?_, ?_, ?_, ?_⟩
  · intro n r hn hstop
    exact run_of_stopsAfter hlimit hn hstop
  · intro hnone
    have hgo : s.Proceeds (limit - s.state.steps) := by
      rcases s.proceeds_or_stopsAfter (limit - s.state.steps) with hgo | ⟨n, r, hn, hstop⟩
      · exact hgo
      · exact absurd hstop (hnone n r hn)
    refine ⟨hgo, ?_, ?_⟩
    · apply run_of_runFor
      rw [fuel_of_limit hlimit]
      exact runFor_of_proceeds hlimit hh hgo (Nat.lt_succ_self _)
    · rw [hgo.steps_eq]
      omega
  · intro n hlast hstop
    have ht := transition_of_step (hstop.proceeds.not_halted hh) (step_stepTimes hstop.answers)
    refine ⟨run_of_stopsAfter hlimit (by omega) hstop, ?_⟩
    rw [ht.steps_eq, hstop.proceeds.steps_eq, hlast]
  · intro n hn hok
    exact run_stepTimes hlimit hn hok

/-- A recorded program that halts with the last step of its budget, taken back and run again from
its second state. -/
theorem run_eq_steps_within_limit_last :
    ∃ t : Trail Buffered,
      (start (.load "1.@") (Buffered.ofInput []) (.ofScript [])
        { record := true, maxSteps := some 3 }).replay [.run, .rewind, .stepForward] = some t ∧
      t.session.state.steps = 1 ∧
      t.session.run = some ⟨.ok (), .ok (), (t.session.stepTimes 2).2⟩ := by
  have hview : ((start (.load "1.@") (Buffered.ofInput []) (.ofScript [])
      { record := true, maxSteps := some 3 }).replay [.run, .rewind, .stepForward]).map
      (fun t => (t.session.config.maxSteps, t.session.state.halted, t.session.state.steps,
        (t.session.stepTimes 1).1, (t.session.stepTimes 1).2.step.1)) =
      some (some 3, false, 1, [.ok .proceed], .ok .halt) := rfl
  obtain ⟨t, ht, heq⟩ := Option.map_eq_some_iff.mp hview
  simp only [Prod.mk.injEq] at heq
  obtain ⟨hlimit, hh, hsteps, hgo, hlast⟩ := heq
  have hstop : t.session.StopsAfter 1 (.ok .halt) := by
    refine ⟨?_, hlast, nofun⟩
    simp [Proceeds, hgo]
  have hend := (run_eq_steps_within_limit hlimit hh).2.2.1 1 (by omega) hstop
  exact ⟨t, ht, hsteps, hend.1⟩

end Buffered

end Befunge.Session
