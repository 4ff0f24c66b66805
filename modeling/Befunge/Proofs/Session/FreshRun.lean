import Befunge.Proofs.Session.Transcript

/-!
# The record against a fresh run

Whatever calls led to a session, as long as no cycle asked for input or for a direction, its record
is the one run that the program has: each recorded state is reached again, in as many steps, by a
session that starts anew and records nothing.
-/

namespace Befunge.Session

theorem step_of_transition {p : Session Buffered} {o : Outcome} {t : State}
    (hplain : p.config.record = false) (halted : p.state.halted = false)
    (hc : ¬p.state.Consults) (ht : p.state.Transition o t) :
    ∃ m, p.step = (.ok o, { p with machine := m }) ∧ m.state = t ∧
      m.console.output = p.machine.console.output ++ p.state.emission := by
  obtain ⟨m, hcycle, hm⟩ := Machine.cycle_of_transition p.config.debug hc ht
  have houtput := Machine.output_cycle p.config.debug p.machine
  rw [hcycle] at houtput
  exact ⟨m, step_of_plain hplain halted hcycle, hm, houtput⟩

/-- `Retraces p h i t`: after `i` successful steps from `p` the state is `t`, and the output is what
the history says. -/
structure Retraces (p : Session Buffered) (h : History) (i : Nat) (t : State) : Prop where
  plain : (p.stepTimes i).2.config.record = false
  succeeds : ∀ r ∈ (p.stepTimes i).1, r.isOk = true
  state : (p.stepTimes i).2.state = t
  output : (p.stepTimes i).2.machine.console.output = h.transcript i

theorem Retraces.next {p : Session Buffered} {h : History} {i : Nat} {a b : State} {o : Outcome}
    (hp : Retraces p h i a) (ha : h.get? i = some a) (halted : a.halted = false)
    (hc : ¬a.Consults) (ht : a.Transition o b) : Retraces p h (i + 1) b := by
  obtain ⟨hplain, hsucceeds, rfl, houtput⟩ := hp
  obtain ⟨m, hstep, hm, hm'⟩ := step_of_transition hplain halted hc ht
  have hsucc := stepTimes_succ i p
  rw [hstep] at hsucc
  exact {
    plain := by
      rw [hsucc]
      exact hplain
    succeeds := by
      rw [hsucc]
      intro r hr
      rcases List.mem_append.mp hr with hr | hr
      · exact hsucceeds r hr
      · rw [List.mem_singleton.mp hr]
        rfl
    state := by
      rw [hsucc]
      exact hm
    output := by
      rw [hsucc, History.transcript_succ ha, ← houtput]
      exact hm' }

theorem retraces_of_chronicle {field : Playfield} {executed : List State} {h : History}
    (hc : Chronicle executed (.initial field) h) (hquiet : ∀ t ∈ executed, ¬t.Consults)
    (input : List UInt8) (directions : Directions) {config : Config}
    (hplain : config.record = false) {i : Nat} {t : State} (hi : h.get? i = some t) :
    Retraces (start field (Buffered.ofInput input) directions config) h i t := by
  have hstart : Retraces (start field (Buffered.ofInput input) directions config) h 0
      (.initial field) :=
    ⟨hplain, nofun, rfl, h.transcript_zero.symm⟩
  refine hc.induction_on hstart ?_ i t hi
  intro i a b o ha hp halted hmem ht
  exact hp.next ha halted (hquiet a hmem) ht

/-- Going through a record is going through a fresh run: the state at each index is the one that a
session without a record has after that many successful steps, and there the output shown is all
that the other session has written. -/
theorem time_travel_eq_fresh_run {field : Playfield} {input : List UInt8} {directions : Directions}
    {config : Config} {executed : List State} {settled : Bool} {s : Session Buffered}
    (hrecord : config.record = true)
    (h : Reach (start field (Buffered.ofInput input) directions config) executed settled s)
    (hquiet : ∀ t ∈ executed, ¬t.Consults) {i : Nat} (hi : i < s.history.length)
    (input' : List UInt8) (directions' : Directions) {config' : Config}
    (hplain : config'.record = false) :
    ∃ results fresh,
      (start field (Buffered.ofInput input') directions' config').stepTimes i = (results, fresh) ∧
      (∀ r ∈ results, r.isOk = true) ∧ s.history.get? i = some fresh.state ∧
      ∃ s', s.restore i = .ok s' ∧ s'.visibleOutput = fresh.machine.console.output := by
  have hs := h.faithful hrecord
  obtain ⟨t, ht⟩ := History.exists_get?_of_lt hi
  have hp := retraces_of_chronicle hs.coherent.chronicle hquiet input' directions' hplain ht
  refine ⟨_, _, rfl, hp.succeeds, by rw [hp.state, ht], ?_⟩
  have hr : s.restore i =
      .ok { s with machine := { s.machine with state := t }, position := i } := by
    unfold Session.restore
    rw [ht]
  refine ⟨_, hr, ?_⟩
  have hs' := hs.restore hr
  obtain ⟨rest, houtput, hlength⟩ := exists_rest_of_get? hs'.coherent.chronicle hs'.kept ht
  rw [hp.output]
  exact visibleOutput_of_append houtput hlength

/-- A program that rewrites itself, run, taken back to its second state and run again. -/
theorem time_travel_eq_fresh_run_rewritten :
    ∃ t : Trail Buffered,
      (start (.load "88*80p1.5") (Buffered.ofInput []) (.ofScript []) { record := true }).replay
        [.run, .rewind, .stepForward, .run] = some t ∧
      ∃ results fresh,
        (start (.load "88*80p1.5") (Buffered.ofInput []) (.ofScript []) {}).stepTimes 9 =
          (results, fresh) ∧
        (∀ r ∈ results, r.isOk = true) ∧ t.session.history.get? 9 = some fresh.state ∧
        ∃ s', t.session.restore 9 = .ok s' ∧
          s'.visibleOutput = fresh.machine.console.output := by
  have hview : ((start (.load "88*80p1.5") (Buffered.ofInput []) (.ofScript [])
      { record := true }).replay [.run, .rewind, .stepForward, .run]).map
      (fun t => (t.executed.all fun u => !decide u.Consults, t.session.history.length)) =
      some (true, 10) := by
    decide +kernel
  obtain ⟨t, ht, heq⟩ := Option.map_eq_some_iff.mp hview
  simp only [Prod.mk.injEq, List.all_eq_true, Bool.not_eq_true', decide_eq_false_iff_not] at heq
  have hreach := reach_iff_replay.mpr ⟨_, ht⟩
  exact ⟨t, ht, time_travel_eq_fresh_run rfl hreach heq.1 (by omega) [] (.ofScript []) rfl⟩

end Befunge.Session
