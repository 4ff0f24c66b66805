import Befunge.Proofs.History.Editions
import Befunge.Proofs.Session.Coherence

/-!
# What a record costs

A session only ever adds states to its record and cuts it, so that its account stays exact. Since
the record is a chronicle, the playfields it pays for can be told from what was executed: one as
loaded, and one more for every `p` on record.
-/

namespace Befunge.Session

open History (Built)

variable {π : Type} {field : Playfield} {executed : List State} {settled : Bool} {limit : Nat}
  {s b : Session π}

theorem history_of_restore {s' : Session π} {i : Nat} (hr : s.restore i = .ok s') :
    s'.history = s.history := by
  unfold Session.restore at hr
  split at hr
  · cases hr
  · cases hr
    rfl

variable [Console π]

theorem built_discardFuture (hs : Built limit s.history) : Built limit s.discardFuture.history := by
  cases hf : s.hasFuture with
  | true =>
    rw [discardFuture_of_hasFuture hf]
    exact hs.truncate _
  | false =>
    rw [discardFuture_of_not_hasFuture hf]
    exact hs

theorem built_of_opened (hs : Built limit s.history) (ho : s.opened = (.ok (), b)) :
    Built limit b.history := by
  rcases opened_cases ho with ⟨-, h, hp, rfl⟩ | ⟨-, rfl⟩
  · exact hs.push hp
  · exact built_discardFuture hs

theorem built_step (hs : Built limit s.history) (hrecord : s.config.record = true) :
    Built limit s.step.2.history := by
  have hcases := recordedStep_step hrecord
  generalize s.step = r at hcases ⊢
  cases hcases with
  | halted => exact hs
  | unopened _ ho =>
    obtain ⟨rfl, -⟩ := eq_of_opened_error ho
    exact hs
  | faulted _ ho | refused _ ho =>
    have hb := built_of_opened hs ho
    exact hb
  | recorded _ ho _ hp => exact (built_of_opened hs ho).push hp

theorem built_invariant (field : Playfield) (limit : Nat) :
    Invariant (π := π) fun e settled s => Coherent field e settled s ∧ Built limit s.history where
  step _ _ hs := ⟨hs.1.step, built_step hs.2 hs.1.record⟩
  unsettle _ _ hs := ⟨hs.1.unsettle, hs.2⟩
  flush e settled s stopped hs :=
    ⟨(coherent_invariant field).flush e settled s stopped hs.1, hs.2⟩
  restore _ _ _ _ _ hs hr := ⟨hs.1.restore hr, history_of_restore hr ▸ hs.2⟩

theorem Reach.built {console : π} {directions : Directions} {config : Config}
    (h : Reach (start field console directions config) executed settled s)
    (hrecord : config.record = true) : Built config.historyLimit s.history := by
  have hstart := coherent_start field console directions hrecord
  exact ((built_invariant field config.historyLimit).reach ⟨hstart, .empty⟩ h).2

/-- A `p` leaves a playfield with a number that no recorded state has. Whether it wrote to a copy or
in place, its field is shared with none of them. -/
theorem AtEnd.edition_ne_of_writes {o : Outcome} {m : Machine π} (hb : AtEnd field executed b)
    (hw : b.state.Writes) (hc : b.machine.cycle b.config.debug = (.ok o, m)) {i : Nat} {t : State}
    (ht : b.history.get? i = some t) : t.edition ≠ m.state.edition := by
  have hnew : m.state.edition = b.state.steps + 1 :=
    (Machine.transition_of_cycle hc).edition_of_writes hw
  have hsteps := hb.chronicle.steps_eq rfl hb.last
  have hold := hb.chronicle.edition_le_index rfl rfl ht
  have hi := History.lt_length_of_get? ht
  have hend := hb.position
  omega

/-- From any settled session, and so after any careful calls: once a step has executed a `p`, the
one recorded state that shares the live playfield is the one that the step has recorded. -/
theorem Reach.field_unshared_after_put {console : π} {directions : Directions} {config : Config}
    {o : Outcome} (hrecord : config.record = true)
    (h : Reach (start field console directions config) executed true s)
    (hh : s.state.halted = false) (hw : s.state.Writes) (hstep : s.step.1 = .ok o) {i : Nat}
    {t : State} (ht : s.step.2.history.get? i = some t)
    (hshared : t.edition = s.step.2.state.edition) : t = s.step.2.state := by
  have hs := h.coherent hrecord
  have hcases := recordedStep_step hs.record
  generalize s.step = r at hcases hstep ht hshared ⊢
  cases hcases with
  | halted halted =>
    rw [hh] at halted
    cases halted
  | unopened | faulted | refused => cases hstep
  | recorded _ ho hc hp =>
    rw [History.get?_of_push hp] at ht
    split at ht
    · exact (Option.some.inj ht).symm
    · have hb := hs.atEnd_of_opened ho
      rw [State.Writes, ← (state_of_opened ho).1] at hw
      exact absurd hshared (hb.edition_ne_of_writes hw hc ht)

/-- A record pays for every state and for every playfield once: for the one as loaded and for what
each `p` on record made, even where it changed nothing. States share a playfield exactly if no `p`
lies between them, so that those with one playfield stand side by side. -/
theorem fields_charged_once {console : π} {directions : Directions} {config : Config}
    (hrecord : config.record = true)
    (h : Reach (start field console directions config) executed settled s)
    (hpos : 0 < s.history.length) :
    s.history.used = History.sizes s.history.states.toList + 16000 * (1 + s.history.writes) ∧
      (∀ i j a b, i ≤ j → s.history.get? i = some a → s.history.get? j = some b →
        (a.edition = b.edition ↔
          ∀ k u, i ≤ k → k < j → s.history.get? k = some u → u.instruction? ≠ some .put) ∧
        (a.edition = b.edition → a.field = b.field)) ∧
      ∀ i j k a b c, i ≤ j → j ≤ k → s.history.get? i = some a → s.history.get? j = some b →
        s.history.get? k = some c → a.edition = c.edition → b.edition = a.edition := by
  have hc := (h.coherent hrecord).chronicle
  refine ⟨?_, ?_, ?_⟩
  · rw [(h.built hrecord).used_eq_cost, hc.cost_eq rfl rfl hpos]
  · intro i j a b hij ha hb
    have hiff := hc.edition_eq_iff rfl rfl hij ha hb
    refine ⟨hiff, ?_⟩
    intro heq
    exact (hc.field_eq_of_not_writes hij ha hb (hiff.mp heq)).2.symm
  · intro i j k a b c hij hjk ha hb hc' heq
    have hab := hc.edition_mono rfl rfl hij ha hb
    have hbc := hc.edition_mono rfl rfl hjk hb hc'
    omega

/-- A `p` that writes what stands there already, executed twice and on record once. -/
theorem fields_charged_once_unchanged :
    ∃ t : Trail Buffered,
      (start (.load "00g00p@") (Buffered.ofInput []) (.ofScript []) { record := true }).replay
        [.run, .stepBackward, .stepBackward, .stepBackward, .run] = some t ∧
      t.session.history.length = 8 ∧ t.session.history.writes = 1 ∧
      t.session.history.used =
        History.sizes t.session.history.states.toList + 16000 * (1 + 1) := by
  have hview : ((start (.load "00g00p@") (Buffered.ofInput []) (.ofScript [])
      { record := true }).replay
        [.run, .stepBackward, .stepBackward, .stepBackward, .run]).map
      (fun t => (t.session.history.length, t.session.history.writes)) = some (8, 1) := by
    decide +kernel
  obtain ⟨t, ht, heq⟩ := Option.map_eq_some_iff.mp hview
  obtain ⟨hlength, hwrites⟩ := Prod.mk.inj heq
  have hreach := reach_iff_replay.mpr ⟨_, ht⟩
  have hused := (fields_charged_once rfl hreach (by omega)).1
  rw [hwrites] at hused
  exact ⟨t, ht, hlength, hwrites, hused⟩

end Befunge.Session
