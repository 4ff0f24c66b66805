import Befunge.Proofs.Session.Termination
import Befunge.Proofs.Session.Transcript

/-!
# The way back

The record is what a user falls back on. A step that fails leaves the machine somewhere in the
middle, but the record ends with the state before that step, so that going to its end takes the
failure back. A run leaves the start on record, unless it was not allowed to take a single step.
-/

namespace Befunge.Session

variable {π : Type} {field : Playfield} {executed : List State} {settled : Bool}
  {config : Config}

section Record

variable [Console π] {s s' b : Session π}

theorem transcript_of_opened (ho : s.opened = (.ok (), b))
    (hposition : s.position < s.history.length ∨ s.position = 0 ∧ s.history.length = 0) :
    b.history.transcript s.position = s.history.transcript s.position := by
  apply History.transcript_congr
  intro i hi
  rcases opened_cases ho with ⟨hlength, -⟩ | ⟨-, rfl⟩
  · omega
  · cases hf : s.hasFuture with
    | true =>
      rw [discardFuture_of_hasFuture hf]
      simp only [History.get?_truncate]
      rw [if_pos (by omega)]
    | false => rw [discardFuture_of_not_hasFuture hf]

/-- After a step that failed in its cycle, or whose state was refused, the record ends with the
state in which the step was taken. -/
theorem Coherent.last_of_failed {f : Fault} (hs : Coherent field executed true s)
    (hstep : s.step = (.error f, s')) (hpos : 0 < s'.history.length) :
    s'.history.length = s.position + 1 ∧ s'.history.get? s.position = some s.state ∧
      s'.history.transcript s.position = s.history.transcript s.position := by
  have hcases := recordedStep_step hs.record
  rw [hstep] at hcases
  cases hcases with
  | unopened _ ho =>
    obtain ⟨rfl, -⟩ := eq_of_opened_error ho
    have := length_of_opened_error ho
    omega
  | faulted _ ho | refused _ ho =>
    obtain ⟨hposition, hlength⟩ := position_of_opened ho hs.position
    have hlast := (hs.atEnd_of_opened ho).last
    rw [hposition, (state_of_opened ho).1] at hlast
    have hsame := transcript_of_opened ho hs.position
    exact ⟨hlength, hlast, hsame⟩

theorem Recording.lasting_length_pos (hrecord : config.record = true) :
    Lasting fun s : Session π => Recording config s ∧ 0 < s.history.length where
  step s hs := by
    refine ⟨hs.1.step hrecord, ?_⟩
    cases hh : s.state.halted with
    | true =>
      rw [step_of_halted hh]
      exact hs.2
    | false =>
      have hplace := place_of_step (hs.1.settings ▸ hrecord) hh (opened_of_length_pos hs.2)
        hs.1.position
      omega
  flush s stopped hs := ⟨(Recording.lasting hrecord).flush s stopped hs.1, hs.2⟩
  restore i s s' hs hr := ⟨hs.1.restore hr, (history_of_restore hr).symm ▸ hs.2⟩

theorem charge_start (field : Playfield) : History.charge #[] (.initial field) = 16080 := by
  have hdepth : (State.initial field).stack.depth = 0 := rfl
  simp [History.charge, State.size, hdepth, Playfield.size, width, height]

theorem opened_start (field : Playfield) (console : π) (directions : Directions)
    (hroom : 16080 ≤ config.historyLimit) :
    ∃ b, (start field console directions config).opened = (.ok (), b) := by
  rcases opened_of_length_eq_zero (s := start field console directions config) rfl with
    ⟨h, -, ho⟩ | ⟨overflow, hp, -⟩
  · exact ⟨_, ho⟩
  · have hover : config.historyLimit < 0 + History.charge #[] (.initial field) :=
      (History.push_eq_error_iff.mp hp).1
    rw [charge_start] at hover
    omega

theorem length_pos_of_run (field : Playfield) (console : π) (directions : Directions)
    (hrecord : config.record = true) (hroom : 16080 ≤ config.historyLimit)
    (hlimit : config.maxSteps ≠ some 0) {r : Except Fault Unit}
    (hrun : (start field console directions config).runFor
      (start field console directions config).fuel = some (r, s)) : 0 < s.history.length := by
  -- the first step records the start, and no step after it empties the record
  have hstart := recording_start field console directions config
  obtain ⟨b, ho⟩ := opened_start field console directions hroom
  have hafford : (start field console directions config).Affords 1 := by
    intro limit hsome
    have hne : limit ≠ 0 := by
      rintro rfl
      exact hlimit hsome
    exact Nat.pos_of_ne_zero hne
  have hfirst : 0 < (start field console directions config).step.2.history.length := by
    have hplace := place_of_step hrecord rfl ho hstart.position
    omega
  exact ((Recording.lasting_length_pos hrecord).runFor_of_step hafford.exhausted?_eq_none
    ⟨hstart.step hrecord, hfirst⟩ hrun).2

end Record

variable {input : List UInt8} {directions : Directions} {s s' : Session Buffered}

theorem Faithful.exists_restore {i : Nat} {t : State} (hs : Faithful field executed settled s)
    (hi : s.history.get? i = some t) :
    ∃ s', s.restore i = .ok s' ∧ s'.state = t ∧ s'.position = i ∧
      s'.visibleOutput = s.history.transcript i := by
  have hr : s.restore i =
      .ok { s with machine := { s.machine with state := t }, position := i } := by
    unfold Session.restore
    rw [hi]
  have hs' := hs.restore hr
  obtain ⟨rest, houtput, hlength⟩ := exists_rest_of_get? hs'.coherent.chronicle hs'.kept hi
  exact ⟨_, hr, rfl, rfl, visibleOutput_of_append houtput hlength⟩

theorem Faithful.visibleOutput_eq (hs : Faithful field executed true s) :
    s.visibleOutput = s.history.transcript s.position := by
  rcases Nat.eq_zero_or_pos s.history.length with hzero | hpos
  · obtain ⟨front, rest, houtput, hlength⟩ := hs.cuts
    have hempty := hs.kept.empty hzero
    rw [houtput, String.append_eq_empty_iff] at hempty
    have hposition : s.position = 0 := by
      have := hs.coherent.position
      omega
    rw [visibleOutput_of_append houtput hlength, hempty.1, hposition, History.transcript_zero]
  · have hshown := hs.coherent.shown hpos
    obtain ⟨rest, houtput, hlength⟩ := exists_rest_of_get? hs.coherent.chronicle hs.kept hshown
    exact visibleOutput_of_append houtput hlength

/-- A failure can be undone: after a step that failed, whatever it had done by then, the record ends
at the place of the step, and going there shows the state and the output from before it. Only where
not even the start could be recorded is there nowhere to go. -/
theorem failure_undone (hrecord : config.record = true)
    (h : Reach (start field (Buffered.ofInput input) directions config) executed true s)
    {f : Fault} (hstep : s.step = (.error f, s')) (hpos : 0 < s'.history.length) :
    s'.history.length = s.position + 1 ∧
      ∃ back, s'.jumpToEnd = .ok back ∧ back.state = s.state ∧ back.position = s.position ∧
        back.visibleOutput = s.visibleOutput := by
  have hs := h.faithful hrecord
  obtain ⟨hlength, hlast, hsame⟩ := hs.coherent.last_of_failed hstep hpos
  have hs' := hs.step
  rw [hstep] at hs'
  obtain ⟨back, hrestore, hstate, hposition, houtput⟩ := hs'.exists_restore hlast
  refine ⟨hlength, back, ?_, hstate, hposition, ?_⟩
  · rw [jumpToEnd, if_neg (by omega), hlength, Nat.add_sub_cancel]
    exact hrestore
  · rw [houtput, hs.visibleOutput_eq]
    exact hsame

/-- A number is read and printed, both steps are taken back, and the next line of input is no text:
the step that reads it fails after the future and its output have been dropped. -/
theorem failure_undone_input :
    ∃ t : Trail Buffered, ∃ f s' back,
      (start (.load "&.@") (Buffered.ofInput [0x31, 0x0a, 0xff]) (.ofScript [])
        { record := true }).replay [.step, .step, .stepBackward, .stepBackward] = some t ∧
      t.session.history.length = 3 ∧
      t.session.step = (.error f, s') ∧
      s'.history.length = t.session.position + 1 ∧ s'.jumpToEnd = .ok back ∧
      back.state = t.session.state ∧ back.visibleOutput = t.session.visibleOutput := by
  have hview : ((start (.load "&.@") (Buffered.ofInput [0x31, 0x0a, 0xff]) (.ofScript [])
      { record := true }).replay [.step, .step, .stepBackward, .stepBackward]).map
      (fun t => (t.settled, t.session.history.length, t.session.step.1.isOk,
        t.session.step.2.history.length)) = some (true, 3, false, 1) := by
    decide +kernel
  obtain ⟨⟨s, settled, executed⟩, ht, heq⟩ := Option.map_eq_some_iff.mp hview
  simp only [Prod.mk.injEq] at heq
  obtain ⟨rfl, hlength, hfails, hleft⟩ := heq
  have hreach := reach_iff_replay.mpr ⟨_, ht⟩
  rcases hstep : s.step with ⟨f | o, s'⟩
  · rw [hstep] at hleft
    have hpos : 0 < s'.history.length := hleft ▸ Nat.one_pos
    obtain ⟨hend, back, hjump, hstate, -, houtput⟩ := failure_undone rfl hreach hstep hpos
    exact ⟨_, f, s', back, ht, hlength, hstep, hend, hjump, hstate, houtput⟩
  · rw [hstep] at hfails
    cases hfails

/-- A run leaves the start of the program on record, whatever ended it, so that it can be taken back
to its start. Only a step budget of zero ends a run before anything is recorded. -/
theorem rewind_after_run (field : Playfield) (input : List UInt8) (directions : Directions)
    (config : Config) (hrecord : config.record = true) (hroom : 16080 ≤ config.historyLimit) :
    ∃ e, (start field (Buffered.ofInput input) directions config).run = some e ∧
      (config.maxSteps ≠ some 0 → 1 ≤ e.session.history.length ∧
        ∃ back, e.session.rewind = .ok back ∧ back.state = .initial field ∧ back.position = 0 ∧
          back.visibleOutput = "") ∧
      (config.maxSteps = some 0 → e.result = .error (.stepLimit 0) ∧
        e.session.history.length = 0 ∧ e.session.rewind = .error .nothingRecorded) := by
  have hstart := recording_start field (Buffered.ofInput input) directions config
  obtain ⟨r, t, hfor⟩ := hstart.exists_runFor hrecord
  have hrun := run_of_runFor hfor
  refine ⟨_, hrun, ?_, ?_⟩
  · intro hlimit
    have hpos := length_pos_of_run field (Buffered.ofInput input) directions hrecord hroom hlimit
      hfor
    have hreach : Reach (start field (Buffered.ofInput input) directions config) _ _ t :=
      .execute .refl (c := .run) rfl (by rw [perform, hrun]; rfl)
    have hs := hreach.faithful hrecord
    obtain ⟨first, hfirst⟩ := History.exists_get?_of_lt hpos
    obtain rfl := hs.coherent.chronicle.first first hfirst
    obtain ⟨back, hrestore, hstate, hposition, houtput⟩ := hs.exists_restore hfirst
    refine ⟨hpos, back, ?_, hstate, hposition, ?_⟩
    · rw [rewind, if_neg (Nat.ne_of_gt hpos)]
      exact hrestore
    · rw [houtput, History.transcript_zero]
  · intro hlimit
    have hzero := runFor_of_proceeds (s := start field (Buffered.ofInput input) directions config)
      hlimit rfl (proceeds_zero _) (Nat.lt_succ_self _)
    rw [fuel_of_limit hlimit, hzero] at hfor
    cases hfor
    exact ⟨rfl, rfl, rfl⟩

/-- Room for the start alone and a budget of one step: the run fails, and the start is on record. -/
theorem rewind_after_run_refused :
    ∃ e, (start (.load "1.@") (Buffered.ofInput []) (.ofScript [])
        { record := true, historyLimit := 16080, maxSteps := some 1 }).run = some e ∧
      e.result.isOk = false ∧ 1 ≤ e.session.history.length ∧
      ∃ back, e.session.rewind = .ok back ∧ back.state = .initial (.load "1.@") ∧
        back.visibleOutput = "" := by
  have hview : (start (.load "1.@") (Buffered.ofInput []) (.ofScript [])
      { record := true, historyLimit := 16080, maxSteps := some 1 }).run.map (·.result.isOk) =
      some false := by
    decide +kernel
  obtain ⟨e, hrun, hfails⟩ := Option.map_eq_some_iff.mp hview
  obtain ⟨e', hrun', hsome, -⟩ := rewind_after_run (.load "1.@") [] (.ofScript [])
    { record := true, historyLimit := 16080, maxSteps := some 1 } rfl (by decide)
  obtain rfl := Option.some.inj (hrun.symm.trans hrun')
  obtain ⟨hlength, back, hrewind, hstate, -, houtput⟩ := hsome (by decide)
  exact ⟨e, hrun, hfails, hlength, back, hrewind, hstate, houtput⟩

/-- With a step budget of zero a run ends before anything is recorded, and there is no way back. -/
theorem rewind_refused_of_no_steps :
    ∃ e, (start (.load "1.@") (Buffered.ofInput []) (.ofScript [])
        { record := true, maxSteps := some 0 }).run = some e ∧
      16080 ≤ e.session.config.historyLimit ∧ e.session.history.length = 0 ∧
      e.session.rewind = .error .nothingRecorded := by
  refine ⟨_, rfl, ?_, rfl, rfl⟩
  decide

end Befunge.Session
