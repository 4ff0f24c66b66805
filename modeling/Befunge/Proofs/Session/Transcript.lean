import Befunge.Proofs.Machine.Buffered
import Befunge.Proofs.Session.Coherence
import Befunge.Proofs.Text.Lines

/-!
# The output that a session shows

A console in memory keeps one text for the whole session, and the record holds only lengths into
it. The text begins with what the recorded steps wrote. Beyond that it can hold copies of what the
next step writes, left behind by steps that were refused by the record. Such a step will be refused
again, so that its text never becomes part of what a recorded step wrote.
-/

namespace Befunge

namespace History

/-- Nothing that can follow the state fits into the history. -/
def Full (h : History) (a : State) : Prop :=
  ∀ o t, a.Transition o t → ∃ overflow, h.push t = (.error overflow, h)

/-- The output that was kept along a history. -/
structure Kept (h : History) (output : String) : Prop where
  empty : h.length = 0 → output = ""
  tail : ∀ n a, n + 1 = h.length → h.get? n = some a →
    ∃ k, output = h.transcript n ++ String.join (List.replicate k a.emission) ∧ (k = 0 ∨ h.Full a)

namespace Kept

variable {h h' : History} {output : String} {a t : State} {o : Outcome} {overflow : Overflow}
  {n : Nat}

theorem of_length_eq_zero (hlength : h.length = 0) : Kept h "" where
  empty _ := rfl
  tail n a hn _ := absurd hn (by omega)

theorem of_eq (hn : n + 1 = h.length) (heq : output = h.transcript n) : Kept h output where
  empty hlength := absurd hn (by omega)
  tail m a hm _ := by
    obtain rfl : m = n := by omega
    exact ⟨0, by simp [heq], .inl rfl⟩

theorem exists_rest (hk : Kept h output) (hn : n < h.length) :
    ∃ rest, output = h.transcript n ++ rest := by
  obtain ⟨a, ha⟩ := History.exists_get?_of_lt (h := h) (i := h.length - 1) (by omega)
  obtain ⟨k, houtput, -⟩ := hk.tail (h.length - 1) a (by omega) ha
  obtain ⟨rest, hrest⟩ := h.transcript_prefix (m := n) (n := h.length - 1) (by omega)
  exact ⟨_, by rw [houtput, hrest, String.append_assoc]⟩

theorem full_of_refused (hne : a.emission ≠ "") (ht : a.Transition o t)
    (hp : h.push t = (.error overflow, h)) : h.Full a := by
  intro o' t' ht'
  obtain ⟨-, rfl⟩ := ht.unique (State.not_consults_of_emission hne) ht'
  exact ⟨overflow, hp⟩

theorem join_replicate_succ (k : Nat) (text : String) :
    String.join (List.replicate (k + 1) text) = String.join (List.replicate k text) ++ text := by
  rw [List.replicate_succ', String.join_append]
  simp

/-- One more copy of the text can be taken for the first one. -/
theorem exists_rest_append (hk : Kept h output) (hn : n + 1 = h.length)
    (ha : h.get? n = some a) :
    ∃ rest, output ++ a.emission = h.transcript n ++ a.emission ++ rest := by
  obtain ⟨k, houtput, -⟩ := hk.tail n a hn ha
  refine ⟨String.join (List.replicate k a.emission), ?_⟩
  rw [houtput, String.append_assoc, ← join_replicate_succ, List.replicate_succ, String.join_cons,
    String.append_assoc]

theorem refused (hk : Kept h output) (hn : n + 1 = h.length) (ha : h.get? n = some a)
    (ht : a.Transition o t) (hp : h.push t = (.error overflow, h)) :
    Kept h (output ++ a.emission) where
  empty hlength := absurd hn (by omega)
  tail m b hm hb := by
    obtain rfl : m = n := by omega
    obtain rfl := Option.some.inj (ha.symm.trans hb)
    obtain ⟨k, houtput, hfull⟩ := hk.tail m a hm hb
    by_cases hne : a.emission = ""
    · exact ⟨k, by simp [hne, houtput], hfull⟩
    · refine ⟨k + 1, ?_, .inr (full_of_refused hne ht hp)⟩
      rw [houtput, join_replicate_succ, String.append_assoc]

theorem recorded (hk : Kept h output) (hn : n + 1 = h.length) (ha : h.get? n = some a)
    (ht : a.Transition o t) (hp : h.push t = (.ok (), h')) : Kept h' (output ++ a.emission) := by
  obtain ⟨k, houtput, hzero | hfull⟩ := hk.tail n a hn ha
  · have hsame : h'.transcript (n + 1) = h.transcript (n + 1) := by
      apply transcript_congr
      intro i hi
      rw [get?_of_push hp, if_neg (by omega)]
    refine of_eq (n := n + 1) (by rw [length_of_push hp, hn]) ?_
    rw [hsame, transcript_succ ha, houtput, hzero]
    simp
  · obtain ⟨overflow, hrefused⟩ := hfull o t ht
    rw [hrefused] at hp
    cases hp

end Kept

end History

namespace Session

/-- The output length of the session cuts its output between two characters. -/
def CutsOutput (s : Session Buffered) : Prop :=
  ∃ front rest, s.machine.console.output = front ++ rest ∧
    s.state.outputLength = front.utf8ByteSize

/-- What calls keep of a recording session over a console in memory. -/
structure Faithful (field : Playfield) (executed : List State) (settled : Bool)
    (s : Session Buffered) : Prop where
  coherent : Coherent field executed settled s
  kept : s.history.Kept s.machine.console.output
  cuts : s.CutsOutput

variable {field : Playfield} {executed : List State} {settled : Bool} {s b : Session Buffered}

theorem exists_rest_of_get? {i : Nat} (hc : Chronicle executed (.initial field) s.history)
    (hk : s.history.Kept s.machine.console.output) (hi : s.history.get? i = some s.state) :
    ∃ rest, s.machine.console.output = s.history.transcript i ++ rest ∧
      s.state.outputLength = (s.history.transcript i).utf8ByteSize := by
  obtain ⟨rest, hrest⟩ := hk.exists_rest (History.lt_length_of_get? hi)
  exact ⟨rest, hrest, hc.outputLength_eq rfl hi⟩

theorem truncate_output {front rest : String} {console : Buffered}
    (h : console.output = front ++ rest) :
    (console.truncate front.utf8ByteSize).output = front := by
  simp [Buffered.truncate, h, Text.takeBytes?_append]

namespace Faithful

theorem kept_discardFuture (hs : Faithful field executed true s)
    (hlength : 0 < s.history.length) :
    s.discardFuture.history.Kept s.discardFuture.machine.console.output := by
  have hshown := hs.coherent.shown hlength
  cases hf : s.hasFuture with
  | false =>
    rw [discardFuture_of_not_hasFuture hf]
    exact hs.kept
  | true =>
    have hposition := hasFuture_iff.mp hf
    obtain ⟨rest, houtput, hout⟩ := exists_rest_of_get? hs.coherent.chronicle hs.kept hshown
    have hsame : (s.history.truncate (s.position + 1)).transcript s.position =
        s.history.transcript s.position := by
      apply History.transcript_congr
      intro i hi
      rw [History.get?_truncate, if_pos (by omega)]
    rw [discardFuture_of_hasFuture hf]
    refine .of_eq (n := s.position) (by rw [History.length_truncate]; omega) ?_
    rw [hsame, hout]
    exact truncate_output houtput

theorem kept_of_opened (hs : Faithful field executed true s) (ho : s.opened = (.ok (), b)) :
    b.history.Kept b.machine.console.output := by
  rcases opened_cases ho with ⟨hlength, h, hp, rfl⟩ | ⟨hlength, rfl⟩
  · refine .of_eq (n := 0) (by rw [History.length_of_push hp, hlength]) ?_
    rw [History.transcript_zero]
    exact hs.kept.empty hlength
  · exact hs.kept_discardFuture hlength

theorem of_cycle {r : Except Fault Outcome} {m : Machine Buffered} {history : History}
    {position : Nat} (hb : AtEnd field executed b)
    (hk : b.history.Kept b.machine.console.output)
    (hc : b.machine.cycle b.config.debug = (r, m)) {executed' : List State}
    (hnext : Coherent field executed' settled { b with machine := m, history, position })
    (hkept : history.Kept (b.machine.console.output ++ b.state.emission)) :
    Faithful field executed' settled { b with machine := m, history, position } := by
  have houtput := Machine.output_cycle b.config.debug b.machine
  have hlength := Machine.outputLength_cycle b.config.debug b.machine
  rw [hc] at houtput hlength
  refine ⟨hnext, houtput.symm ▸ hkept, ?_⟩
  obtain ⟨rest, hrest⟩ := hk.exists_rest_append hb.position hb.last
  refine ⟨_, rest, houtput.trans hrest, hlength.trans ?_⟩
  rw [String.utf8ByteSize_append, ← hb.chronicle.outputLength_eq rfl hb.last]
  rfl

theorem step (hs : Faithful field executed true s) :
    Faithful field (executed ++ s.executedByStep) s.step.1.isOk s.step.2 := by
  have hnext := hs.coherent.step
  have hcases := recordedStep_step hs.coherent.record
  generalize s.step = r at hcases hnext ⊢
  cases hcases with
  | halted => exact ⟨hnext, hs.kept, hs.cuts⟩
  | unopened _ ho =>
    obtain ⟨rfl, -⟩ := eq_of_opened_error ho
    exact ⟨hnext, hs.kept, hs.cuts⟩
  | faulted _ ho hc =>
    have hb := hs.coherent.atEnd_of_opened ho
    have hk := hs.kept_of_opened ho
    refine of_cycle hb hk hc hnext ?_
    -- a cycle that fails has written nothing
    rw [state, (Machine.fault_of_cycle hc).1.emission_eq, String.append_empty]
    exact hk
  | refused _ ho hc hp =>
    have hb := hs.coherent.atEnd_of_opened ho
    have hk := hs.kept_of_opened ho
    have ht := Machine.transition_of_cycle hc
    exact of_cycle hb hk hc hnext (hk.refused hb.position hb.last ht hp)
  | recorded _ ho hc hp =>
    have hb := hs.coherent.atEnd_of_opened ho
    have hk := hs.kept_of_opened ho
    have ht := Machine.transition_of_cycle hc
    exact of_cycle hb hk hc hnext (hk.recorded hb.position hb.last ht hp)

theorem restore {s' : Session Buffered} {i : Nat} (hs : Faithful field executed settled s)
    (hr : s.restore i = .ok s') : Faithful field executed true s' := by
  have hnext := hs.coherent.restore hr
  unfold Session.restore at hr
  split at hr
  · cases hr
  · next t ht =>
    cases hr
    obtain ⟨rest, hrest, hlength⟩ := exists_rest_of_get? hnext.chronicle hs.kept ht
    exact ⟨hnext, hs.kept, _, rest, hrest, hlength⟩

end Faithful

theorem faithful_invariant (field : Playfield) : Invariant (Faithful field) where
  step _ _ hs := hs.step
  unsettle _ _ hs := ⟨hs.coherent.unsettle, hs.kept, hs.cuts⟩
  flush _ _ _ stopped hs :=
    ⟨(coherent_invariant field).flush _ _ _ stopped hs.coherent, hs.kept, hs.cuts⟩
  restore _ _ _ _ _ hs hr := hs.restore hr

theorem faithful_start (field : Playfield) (input : List UInt8) (directions : Directions)
    {config : Config} (hrecord : config.record = true) :
    Faithful field [] true (start field (Buffered.ofInput input) directions config) where
  coherent := coherent_start field _ directions hrecord
  kept := .of_length_eq_zero rfl
  cuts := ⟨"", "", rfl, rfl⟩

theorem Reach.faithful {input : List UInt8} {directions : Directions} {config : Config}
    (h : Reach (start field (Buffered.ofInput input) directions config) executed settled s)
    (hrecord : config.record = true) : Faithful field executed settled s :=
  (faithful_invariant field).reach (faithful_start field input directions hrecord) h

theorem visibleOutput_of_append {front rest : String}
    (houtput : s.machine.console.output = front ++ rest)
    (hlength : s.state.outputLength = front.utf8ByteSize) : s.visibleOutput = front := by
  have hvisible : s.visibleOutput =
      (Text.takeBytes? s.machine.console.output s.state.outputLength).getD
        s.machine.console.output := rfl
  rw [hvisible, houtput, hlength, Text.takeBytes?_append, Option.getD_some]

/-- The output length always marks a place between two characters of the output, so that what is
shown is never the whole output by default and a cut is never refused; and at a recorded state
exactly that is shown which the recorded steps up to it wrote. -/
theorem visibleOutput_eq_transcript {input : List UInt8} {directions : Directions}
    {config : Config} (hrecord : config.record = true)
    (h : Reach (start field (Buffered.ofInput input) directions config) executed settled s) :
    s.state.outputLength ≤ s.machine.console.output.utf8ByteSize ∧
      (⟨s.state.outputLength⟩ : String.Pos.Raw).IsValid s.machine.console.output ∧
      Text.takeBytes? s.machine.console.output s.state.outputLength = some s.visibleOutput ∧
      (s.machine.console.truncate s.state.outputLength).output = s.visibleOutput ∧
      ∀ i, s.history.get? i = some s.state → s.visibleOutput = s.history.transcript i := by
  have hs := h.faithful hrecord
  obtain ⟨front, rest, houtput, hlength⟩ := hs.cuts
  have hvisible := visibleOutput_of_append houtput hlength
  refine ⟨?_, ?_, ?_, ?_, ?_⟩
  · rw [hlength, houtput, String.utf8ByteSize_append]
    omega
  · exact String.Pos.Raw.isValid_iff_exists_append.mpr
      ⟨front, rest, houtput, String.Pos.Raw.ext hlength⟩
  · rw [hvisible, houtput, hlength, Text.takeBytes?_append]
  · rw [hvisible, hlength]
    exact truncate_output houtput
  · intro i hi
    obtain ⟨rest, hrest, hlength⟩ := exists_rest_of_get? hs.coherent.chronicle hs.kept hi
    exact visibleOutput_of_append hrest hlength

/-- A character of two bytes written twice by a step that is refused twice, and shown never. -/
theorem visibleOutput_eq_transcript_refused :
    ∃ t : Trail Buffered,
      (start (.load "\"é\",@") (Buffered.ofInput []) (.ofScript [])
        { record := true, historyLimit := 16400 }).replay [.run, .jumpToEnd, .step, .jumpToEnd] =
          some t ∧
      t.session.machine.console.output = "éé" ∧
      t.session.history.get? 3 = some t.session.state ∧
      t.session.visibleOutput = t.session.history.transcript 3 := by
  have hview : ((start (.load "\"é\",@") (Buffered.ofInput []) (.ofScript [])
      { record := true, historyLimit := 16400 }).replay [.run, .jumpToEnd, .step, .jumpToEnd]).map
      (fun t => (t.session.machine.console.output, t.settled, t.session.position,
        t.session.history.length)) = some ("éé", true, 3, 4) := by
    decide +kernel
  obtain ⟨⟨s, settled, executed⟩, ht, heq⟩ := Option.map_eq_some_iff.mp hview
  simp only [Prod.mk.injEq] at heq
  obtain ⟨houtput, rfl, hposition, hlength⟩ := heq
  have hreach := reach_iff_replay.mpr ⟨_, ht⟩
  have hlive := (hreach.coherent rfl).shown (by omega)
  rw [hposition] at hlive
  exact ⟨_, ht, houtput, hlive, (visibleOutput_eq_transcript rfl hreach).2.2.2.2 3 hlive⟩

end Session

end Befunge
