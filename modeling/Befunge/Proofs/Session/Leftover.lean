import Befunge.Proofs.Machine.Place
import Befunge.Proofs.Session.Transcript

/-!
# Output that is not shown

A step that the record refuses has written its text already. Going back to the end of the record
hides that text, and it is cut off with the next future that is dropped. But a step from the end of
the record drops no future: it writes behind the hidden text. If it is refused as well, the console
is left with more than the session shows.
-/

namespace Befunge.Session

variable {field : Playfield} {executed : List State} {settled : Bool} {s b : Session Buffered}

def ShowsAll (s : Session Buffered) : Prop := s.machine.console.output = s.visibleOutput

instance (s : Session Buffered) : Decidable s.ShowsAll := inferInstanceAs (Decidable (_ = _))

theorem showsAll_iff_of_append {front rest : String}
    (houtput : s.machine.console.output = front ++ rest)
    (hlength : s.state.outputLength = front.utf8ByteSize) : s.ShowsAll ↔ rest = "" := by
  unfold ShowsAll
  rw [visibleOutput_of_append houtput hlength, houtput]
  exact String.append_eq_left_iff

theorem CutsOutput.showsAll_discardFuture (hs : s.CutsOutput) (hf : s.hasFuture = true) :
    s.discardFuture.ShowsAll := by
  obtain ⟨front, rest, houtput, hlength⟩ := hs
  have hcut : s.discardFuture.machine.console.output = front ++ "" := by
    rw [discardFuture_of_hasFuture hf, String.append_empty, hlength]
    exact truncate_output houtput
  have hsame : s.discardFuture.state.outputLength = front.utf8ByteSize := by
    rw [discardFuture_of_hasFuture hf]
    exact hlength
  exact (showsAll_iff_of_append hcut hsame).mpr rfl

theorem showsAll_opened_iff (hs : s.CutsOutput) (ho : s.opened = (.ok (), b)) :
    b.ShowsAll ↔ s.ShowsAll ∨ s.hasFuture = true := by
  rcases opened_cases ho with ⟨hlength, h, -, rfl⟩ | ⟨-, rfl⟩
  · have hf : ¬s.hasFuture = true := by
      rw [hasFuture_iff]
      omega
    exact (or_iff_left hf).symm
  · cases hf : s.hasFuture with
    | true => exact iff_of_true (hs.showsAll_discardFuture hf) (.inr rfl)
    | false =>
      rw [discardFuture_of_not_hasFuture hf]
      simp

theorem join_replicate_empty (k : Nat) : String.join (List.replicate k "") = "" := by
  induction k with
  | zero => rfl
  | succ k ih => rw [History.Kept.join_replicate_succ, ih, String.append_empty]

section Cycle

variable {r : Except Fault Outcome} {m : Machine Buffered} {history : History} {position : Nat}

/-- A cycle hides nothing and brings nothing to light: one copy of its text is shown, and those
that stood there before are pushed behind it. -/
theorem showsAll_cycle_iff (hb : AtEnd field executed b)
    (hk : b.history.Kept b.machine.console.output)
    (hc : b.machine.cycle b.config.debug = (r, m)) :
    ShowsAll { b with machine := m, history, position } ↔ b.ShowsAll := by
  obtain ⟨k, hold, -⟩ := hk.tail _ _ hb.position hb.last
  have hlast := hb.chronicle.outputLength_eq rfl hb.last
  have houtput := Machine.output_cycle b.config.debug b.machine
  have hlength := Machine.outputLength_cycle b.config.debug b.machine
  rw [hc] at houtput hlength
  have hnew : m.console.output = b.history.transcript b.position ++ b.state.emission ++
      String.join (List.replicate k b.state.emission) := by
    rw [houtput, hold, String.append_assoc, String.append_assoc, ← String.join_cons,
      ← List.replicate_succ, History.Kept.join_replicate_succ]
    rfl
  rw [showsAll_iff_of_append hold hlast]
  apply showsAll_iff_of_append hnew
  rw [String.utf8ByteSize_append, ← hlast]
  exact hlength

theorem showsAll_of_fault {f : Fault} (hb : AtEnd field executed b)
    (hk : b.history.Kept b.machine.console.output)
    (hc : b.machine.cycle b.config.debug = (.error f, m)) : b.ShowsAll := by
  obtain ⟨k, hold, -⟩ := hk.tail _ _ hb.position hb.last
  rw [showsAll_iff_of_append hold (hb.chronicle.outputLength_eq rfl hb.last), state,
    (Machine.fault_of_cycle hc).1.emission_eq]
  exact join_replicate_empty k

theorem showsAll_of_recorded {o : Outcome} {h : History} (hb : AtEnd field executed b)
    (hk : b.history.Kept b.machine.console.output)
    (hc : b.machine.cycle b.config.debug = (.ok o, m))
    (hp : b.history.push m.state = (.ok (), h)) : b.ShowsAll := by
  -- text of refused cycles is left only where every cycle is refused, and this one was not
  obtain ⟨k, hold, hzero | hfull⟩ := hk.tail _ _ hb.position hb.last
  · rw [showsAll_iff_of_append hold (hb.chronicle.outputLength_eq rfl hb.last), hzero]
    rfl
  · obtain ⟨overflow, hrefused⟩ := hfull o m.state (Machine.transition_of_cycle hc)
    rw [hrefused] at hp
    cases hp

end Cycle

theorem Faithful.showsAll_of_length_eq_zero (hs : Faithful field executed settled s)
    (hlength : s.history.length = 0) : s.ShowsAll := by
  obtain ⟨front, rest, houtput, hfront⟩ := hs.cuts
  have hempty := hs.kept.empty hlength
  rw [houtput, String.append_eq_empty_iff] at hempty
  exact (showsAll_iff_of_append houtput hfront).mpr hempty.2

theorem Faithful.showsAll_step_iff (hs : Faithful field executed true s)
    (hh : s.state.halted = false) :
    s.step.2.ShowsAll ↔ s.ShowsAll ∨ s.hasFuture = true ∨
      ∀ overflow, s.step.1 ≠ .error (.historyFull overflow) := by
  have hcases := recordedStep_step hs.coherent.record
  generalize s.step = r at hcases ⊢
  cases hcases with
  | halted halted =>
    rw [hh] at halted
    cases halted
  | unopened _ ho =>
    obtain ⟨rfl, -⟩ := eq_of_opened_error ho
    have hshows := hs.showsAll_of_length_eq_zero (length_of_opened_error ho)
    exact iff_of_true hshows (.inl hshows)
  | faulted _ ho hc =>
    have hb := hs.coherent.atEnd_of_opened ho
    have hk := hs.kept_of_opened ho
    refine iff_of_true ((showsAll_cycle_iff hb hk hc).mpr (showsAll_of_fault hb hk hc)) ?_
    refine .inr (.inr ?_)
    rintro overflow ⟨⟩
    cases Machine.position_of_cycle hc
  | refused _ ho hc hp =>
    have hb := hs.coherent.atEnd_of_opened ho
    have hk := hs.kept_of_opened ho
    rw [showsAll_cycle_iff hb hk hc, showsAll_opened_iff hs.cuts ho]
    constructor
    · rintro (hshows | hf)
      · exact .inl hshows
      · exact .inr (.inl hf)
    · rintro (hshows | hf | hnot)
      · exact .inl hshows
      · exact .inr hf
      · exact absurd rfl (hnot _)
  | recorded _ ho hc hp =>
    have hb := hs.coherent.atEnd_of_opened ho
    have hk := hs.kept_of_opened ho
    refine iff_of_true ?_ (.inr (.inr nofun))
    exact (showsAll_cycle_iff hb hk hc).mpr (showsAll_of_recorded hb hk hc hp)

/-- After a step of a program that has not halted, all the output is shown, unless the step was
refused at the end of the record and output was hidden before it. -/
theorem output_shown_after_step_iff {input : List UInt8} {directions : Directions}
    {config : Config} (hrecord : config.record = true)
    (h : Reach (start field (Buffered.ofInput input) directions config) executed true s)
    (hh : s.state.halted = false) :
    s.step.2.machine.console.output = s.step.2.visibleOutput ↔
      s.machine.console.output = s.visibleOutput ∨ s.hasFuture = true ∨
        ∀ overflow, s.step.1 ≠ .error (.historyFull overflow) :=
  (h.faithful hrecord).showsAll_step_iff hh

/-- The first step that is refused leaves nothing behind that is not shown. -/
theorem output_shown_after_step_iff_refused :
    ∃ t : Trail Buffered,
      (start (.load "1.@") (Buffered.ofInput []) (.ofScript [])
        { record := true, historyLimit := 16180 }).replay [.step] = some t ∧
      t.session.step.1.isOk = false ∧
      t.session.step.2.machine.console.output = t.session.step.2.visibleOutput := by
  have hview : ((start (.load "1.@") (Buffered.ofInput []) (.ofScript [])
      { record := true, historyLimit := 16180 }).replay [.step]).map
      (fun t => (t.settled, t.session.state.halted, decide t.session.ShowsAll,
        t.session.step.1.isOk)) = some (true, false, true, false) := by
    decide +kernel
  obtain ⟨⟨s, settled, executed⟩, ht, heq⟩ := Option.map_eq_some_iff.mp hview
  simp only [Prod.mk.injEq, decide_eq_true_eq] at heq
  obtain ⟨rfl, hh, hshows, hrefused⟩ := heq
  have hreach := reach_iff_replay.mpr ⟨_, ht⟩
  exact ⟨_, ht, hrefused, (output_shown_after_step_iff rfl hreach hh).mpr (.inl hshows)⟩

/-- A step that is refused, taken back and refused again: its text is kept twice and shown once. -/
theorem output_kept_of_refused_step :
    ∃ t : Trail Buffered,
      (start (.load "1.@") (Buffered.ofInput []) (.ofScript [])
        { record := true, historyLimit := 16180 }).replay [.step, .step, .jumpToEnd] = some t ∧
      t.settled = true ∧ t.session.state.halted = false ∧
      t.session.step.2.machine.console.output = "11" ∧
      t.session.step.2.visibleOutput = "1" := by
  have hview : ((start (.load "1.@") (Buffered.ofInput []) (.ofScript [])
      { record := true, historyLimit := 16180 }).replay [.step, .step, .jumpToEnd]).map
      (fun t => (t.settled, t.session.state.halted, t.session.step.2.machine.console.output,
        t.session.step.2.visibleOutput)) = some (true, false, "11", "1") := by
    decide +kernel
  obtain ⟨t, ht, heq⟩ := Option.map_eq_some_iff.mp hview
  simp only [Prod.mk.injEq] at heq
  exact ⟨t, ht, heq⟩

end Befunge.Session
