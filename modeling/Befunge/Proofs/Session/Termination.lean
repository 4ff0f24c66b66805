import Befunge.Console.Buffered
import Befunge.Proofs.Session.Budget
import Befunge.Proofs.Session.Iteration

/-!
# Recorded runs end

A program may go on forever, but its record may not. Each step that goes on leaves the record one
state longer than the place where the step was taken, and a record has room for a limited number of
states. What has failed before does not matter here: the place in the record and the account of it
are kept by calls of every kind.
-/

namespace Befunge.Session

open History (Built)

variable {π : Type} {config : Config} {s s' b : Session π} {n : Nat}

/-- What all calls keep of a session with these settings that records. -/
structure Recording (config : Config) (s : Session π) : Prop where
  settings : s.config = config
  built : Built config.historyLimit s.history
  position : s.position < s.history.length ∨ s.position = 0 ∧ s.history.length = 0

theorem recording_start (field : Playfield) (console : π) (directions : Directions)
    (config : Config) : Recording config (start field console directions config) where
  settings := rfl
  built := .empty
  position := .inr ⟨rfl, rfl⟩

namespace Recording

theorem restore {i : Nat} (hs : Recording config s) (hr : s.restore i = .ok s') :
    Recording config s' := by
  unfold Session.restore at hr
  split at hr
  · cases hr
  · next t ht =>
    cases hr
    exact ⟨hs.settings, hs.built, .inl (History.lt_length_of_get? ht)⟩

theorem fuel_of_unlimited (hs : Recording config s) (hrecord : config.record = true)
    (hlimit : config.maxSteps = none) : s.fuel = config.historyLimit / 80 + 2 := by
  unfold Session.fuel
  simp only [hs.settings, hlimit, hrecord, hs.built.limit_eq, if_true]

variable [Console π]

theorem step (hs : Recording config s) (hrecord : config.record = true) :
    Recording config s.step.2 where
  settings := by rw [config_step, hs.settings]
  built := built_step hs.built (hs.settings ▸ hrecord)
  position := by
    cases hh : s.state.halted with
    | true =>
      rw [step_of_halted hh]
      exact hs.position
    | false =>
      rcases ho : s.opened with ⟨f | _, b⟩
      · rw [step_of_unopened (hs.settings ▸ hrecord) hh ho]
        exact hs.position
      · have hplace := place_of_step (hs.settings ▸ hrecord) hh ho hs.position
        omega

theorem lasting (hrecord : config.record = true) : Lasting (π := π) (Recording config) where
  step _ hs := hs.step hrecord
  flush _ _ hs := ⟨hs.settings, hs.built, hs.position⟩
  restore _ _ _ hs hr := hs.restore hr

/-- A step that goes on is recorded right after the place where it was taken. -/
theorem place_of_proceed (hs : Recording config s) (hrecord : config.record = true)
    (hstep : s.step = (.ok .proceed, s')) :
    s'.position = s.position + 1 ∧ s'.history.length = s'.position + 1 := by
  have hh := (of_step_proceed hstep).1
  rcases ho : s.opened with ⟨f | _, b⟩
  · rw [step_of_unopened (hs.settings ▸ hrecord) hh ho] at hstep
    cases hstep
  · have hplace := place_of_step (hs.settings ▸ hrecord) hh ho hs.position
    rw [hstep] at hplace
    exact hplace

theorem of_proceeds (hs : Recording config s) (hrecord : config.record = true)
    (hgo : s.Proceeds n) :
    Recording config (s.stepTimes n).2 ∧ (s.stepTimes n).2.position = s.position + n ∧
      (n = 0 ∨ (s.stepTimes n).2.history.length = s.position + n + 1) := by
  refine hgo.induction_on (P := fun n t => Recording config t ∧ t.position = s.position + n ∧
    (n = 0 ∨ t.history.length = s.position + n + 1)) ⟨hs, rfl, .inl rfl⟩ ?_
  rintro i t t' ⟨ht, hposition, -⟩ hstep
  obtain ⟨hnext, hlength⟩ := ht.place_of_proceed hrecord hstep
  refine ⟨?_, by omega, .inr (by omega)⟩
  have hkept := ht.step hrecord
  rw [hstep] at hkept
  exact hkept

theorem room_of_proceeds (hs : Recording config s) (hrecord : config.record = true)
    (hgo : s.Proceeds n) : n = 0 ∨ 16000 + 80 * (s.position + n + 1) ≤ config.historyLimit := by
  obtain ⟨hend, -, hzero | hlength⟩ := hs.of_proceeds hrecord hgo
  · exact .inl hzero
  · have hroom := hend.built.length_le_limit (by omega)
    rw [hlength] at hroom
    exact .inr hroom

theorem exists_stopsAfter (hs : Recording config s) (hrecord : config.record = true) :
    ∃ n r, s.StopsAfter n r ∧ n < config.historyLimit / 80 + 1 := by
  rcases s.proceeds_or_stopsAfter (config.historyLimit / 80 + 1) with hgo | ⟨n, r, hn, hstop⟩
  · -- so many steps would leave a record that its budget has no room for
    have hroom := hs.room_of_proceeds hrecord hgo
    omega
  · exact ⟨n, r, hstop, hn⟩

theorem exists_runFor_of_unlimited (hs : Recording config s) (hrecord : config.record = true)
    (hlimit : config.maxSteps = none) :
    ∃ n r, s.StopsAfter n r ∧
      s.runFor s.fuel = some (r.map fun _ => (), (s.stepTimes (n + 1)).2) := by
  obtain ⟨n, r, hstop, hn⟩ := hs.exists_stopsAfter hrecord
  refine ⟨n, r, hstop, ?_⟩
  apply runFor_of_stopsAfter hstop
  · intro limit hsome
    rw [hs.settings, hlimit] at hsome
    cases hsome
  · rw [hs.fuel_of_unlimited hrecord hlimit]
    omega

theorem exists_runFor (hs : Recording config s) (hrecord : config.record = true) :
    ∃ r t, s.runFor s.fuel = some (r, t) := by
  cases hlimit : config.maxSteps with
  | none =>
    obtain ⟨n, r, -, hrun⟩ := hs.exists_runFor_of_unlimited hrecord hlimit
    exact ⟨_, _, hrun⟩
  | some limit => exact exists_runFor_of_limit (hs.settings ▸ hlimit)

end Recording

variable [Console π]

/-- A recording session ends every run that it is asked for. Its record has room for a limited
number of states, a step that goes on at the end of the record adds one, and so after finitely many
steps there is one that halts or fails. -/
theorem recorded_run_ends {field : Playfield} {console : π} {directions : Directions}
    {calls : List Call} (hrecord : config.record = true) (hlimit : config.maxSteps = none)
    (h : (start field console directions config).performAll calls = some s) :
    (0 < s.history.length → 16000 + 80 * s.history.length ≤ config.historyLimit) ∧
      (∀ s', s.position + 1 = s.history.length → s.step = (.ok .proceed, s') →
        s'.history.length = s.history.length + 1 ∧ s'.position + 1 = s'.history.length) ∧
      ∃ n r, (n = 0 ∨ 16000 + 80 * (s.position + n + 1) ≤ config.historyLimit) ∧
        s.StopsAfter n r ∧
        s.run = some ((s.stepTimes (n + 1)).2.finish (r.map fun _ => ())) := by
  have hs := (Recording.lasting hrecord).performAll
    (recording_start field console directions config) h
  refine ⟨hs.built.length_le_limit, ?_, ?_⟩
  · intro s' hend hstep
    obtain ⟨hposition, hlength⟩ := hs.place_of_proceed hrecord hstep
    constructor
    · omega
    · omega
  · obtain ⟨n, r, hstop, hrun⟩ := hs.exists_runFor_of_unlimited hrecord hlimit
    refine ⟨n, r, hs.room_of_proceeds hrecord hstop.proceeds, hstop, ?_⟩
    rw [run, hrun]
    rfl

/-- An empty program goes on forever. Its record has room for four states: a run fills it, a further
step is refused, and a second run from the start ends again. -/
theorem recorded_run_ends_empty :
    ∃ s : Session Buffered,
      (start (.load "") (Buffered.ofInput []) (.ofScript [])
        { record := true, historyLimit := 16320 }).performAll [.run, .step, .rewind] = some s ∧
      s.history.length = 4 ∧ s.position = 0 ∧
      ∃ n r, (n = 0 ∨ 16000 + 80 * (0 + n + 1) ≤ 16320) ∧ s.StopsAfter n r ∧
        s.run = some ((s.stepTimes (n + 1)).2.finish (r.map fun _ => ())) := by
  have hview : ((start (.load "") (Buffered.ofInput []) (.ofScript [])
      { record := true, historyLimit := 16320 }).performAll [.run, .step, .rewind]).map
      (fun s => (s.history.length, s.position)) = some (4, 0) := by
    decide +kernel
  obtain ⟨s, hs, heq⟩ := Option.map_eq_some_iff.mp hview
  obtain ⟨hlength, hposition⟩ := Prod.mk.inj heq
  have hends := (recorded_run_ends rfl rfl hs).2.2
  rw [hposition] at hends
  exact ⟨s, hs, hlength, hposition, hends⟩

end Befunge.Session
