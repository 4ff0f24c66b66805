import Befunge.Console.Buffered
import Befunge.Proofs.History.Chronicle
import Befunge.Proofs.Session.Recording

/-!
# The record agrees with the session

In every session that calls reach, the record is a chronicle of the program, the position lies in
it, and a settled session shows exactly the state recorded at its position.
-/

namespace Befunge.Session

variable {π : Type}

/-- What calls keep of a recording session of the program on `field`. -/
structure Coherent (field : Playfield) (executed : List State) (settled : Bool)
    (s : Session π) : Prop where
  record : s.config.record = true
  chronicle : Chronicle executed (.initial field) s.history
  position : s.position < s.history.length ∨ s.position = 0 ∧ s.history.length = 0
  live : settled = true → s.state = (s.history.get? s.position).getD (.initial field)

/-- What holds of a session that is about to execute a cycle: it is at the end of its record. -/
structure AtEnd (field : Playfield) (executed : List State) (s : Session π) : Prop where
  record : s.config.record = true
  chronicle : Chronicle executed (.initial field) s.history
  position : s.position + 1 = s.history.length
  last : s.history.get? s.position = some s.state

namespace Coherent

variable {field : Playfield} {executed : List State} {settled : Bool} {s b : Session π}

theorem shown (hs : Coherent field executed true s) (hlength : 0 < s.history.length) :
    s.history.get? s.position = some s.state := by
  have hposition : s.position < s.history.length := by
    rcases hs.position with h | h <;> omega
  obtain ⟨t, ht⟩ := History.exists_get?_of_lt hposition
  rw [ht, hs.live rfl, ht, Option.getD_some]

theorem live_of_length_eq_zero (hs : Coherent field executed true s)
    (hlength : s.history.length = 0) : s.state = .initial field := by
  have hnone : s.history.get? s.position = none := by
    apply Option.not_isSome_iff_eq_none.mp
    rw [History.get?_isSome_iff]
    omega
  rw [hs.live rfl, hnone, Option.getD_none]

theorem mono (hs : Coherent field executed settled s) (more : List State) :
    Coherent field (executed ++ more) settled s where
  record := hs.record
  chronicle := hs.chronicle.mono (List.subset_append_left _ _)
  position := hs.position
  live := hs.live

theorem unsettle (hs : Coherent field executed true s) : Coherent field executed false s where
  record := hs.record
  chronicle := hs.chronicle
  position := hs.position
  live := nofun

theorem restore {s' : Session π} {i : Nat} (hs : Coherent field executed settled s)
    (hr : s.restore i = .ok s') : Coherent field executed true s' := by
  unfold Session.restore at hr
  split at hr
  · cases hr
  · next t ht =>
    cases hr
    exact {
      record := hs.record
      chronicle := hs.chronicle
      position := .inl (History.lt_length_of_get? ht)
      live := fun _ => by simp only [ht, Option.getD_some]; rfl }

theorem atEnd_of_push {h : History} (hs : Coherent field executed true s)
    (hlength : s.history.length = 0) (hp : s.history.push s.state = (.ok (), h)) :
    AtEnd field executed { s with history := h, position := 0 } where
  record := hs.record
  chronicle := by
    rw [hs.live_of_length_eq_zero hlength] at hp
    exact .push_first hlength hp
  position := by rw [History.length_of_push hp, hlength]
  last := by
    simp only [History.get?_of_push hp, hlength]
    rfl

variable [Console π]

theorem atEnd_discardFuture (hs : Coherent field executed true s)
    (hlength : 0 < s.history.length) : AtEnd field executed s.discardFuture := by
  have hshown := hs.shown hlength
  have hposition := History.lt_length_of_get? hshown
  cases hf : s.hasFuture with
  | true =>
    rw [discardFuture_of_hasFuture hf]
    exact {
      record := hs.record
      chronicle := hs.chronicle.truncate (s.position + 1)
      position := by
        simp only [History.length_truncate]
        omega
      last := by
        simp only [History.get?_truncate, Nat.lt_succ_self, if_true]
        exact hshown }
  | false =>
    rw [discardFuture_of_not_hasFuture hf]
    have hend := length_le_of_not_hasFuture hf
    exact {
      record := hs.record
      chronicle := hs.chronicle
      position := by omega
      last := hshown }

theorem atEnd_of_opened (hs : Coherent field executed true s) (ho : s.opened = (.ok (), b)) :
    AtEnd field executed b := by
  rcases opened_cases ho with ⟨hlength, h, hp, rfl⟩ | ⟨hlength, rfl⟩
  · exact hs.atEnd_of_push hlength hp
  · exact hs.atEnd_discardFuture hlength

end Coherent

namespace AtEnd

variable {field : Playfield} {executed : List State} {b : Session π} {o : Outcome}
  {m : Machine π} {h : History}

theorem coherent_of_failed (hb : AtEnd field executed b) (m : Machine π) (more : List State) :
    Coherent field (executed ++ more) false { b with machine := m } where
  record := hb.record
  chronicle := hb.chronicle.mono (List.subset_append_left _ _)
  position := by
    have := hb.position
    exact .inl (by simp only; omega)
  live := nofun

theorem coherent_of_recorded [Console π] (hb : AtEnd field executed b)
    (halted : b.state.halted = false) (hc : b.machine.cycle b.config.debug = (.ok o, m))
    (hp : b.history.push m.state = (.ok (), h)) :
    Coherent field (executed ++ [b.state]) true
      { b with machine := m, history := h, position := h.length - 1 } where
  record := hb.record
  chronicle := by
    have hlast : b.history.get? (b.history.length - 1) = some b.state := by
      rw [← hb.position, Nat.add_sub_cancel]
      exact hb.last
    exact (hb.chronicle.mono (List.subset_append_left _ _)).push hlast halted
      (List.mem_append_right _ (List.mem_singleton_self _)) (Machine.transition_of_cycle hc) hp
  position := by
    have := History.length_of_push hp
    exact .inl (by simp only; omega)
  live := by
    intro _
    have hlength : h.length - 1 = b.history.length := by
      have := History.length_of_push hp
      omega
    simp only [History.get?_of_push hp, hlength, if_true, Option.getD_some]
    rfl

end AtEnd

theorem Coherent.step [Console π] {field : Playfield} {executed : List State} {s : Session π}
    (hs : Coherent field executed true s) :
    Coherent field (executed ++ s.executedByStep) s.step.1.isOk s.step.2 := by
  have hcases := recordedStep_step hs.record
  generalize s.step = r at hcases ⊢
  cases hcases with
  | halted => exact hs.mono _
  | unopened _ ho =>
    obtain ⟨rfl, -⟩ := eq_of_opened_error ho
    exact hs.unsettle.mono _
  | faulted _ ho => exact (hs.atEnd_of_opened ho).coherent_of_failed _ _
  | refused _ ho => exact (hs.atEnd_of_opened ho).coherent_of_failed _ _
  | recorded hh ho hc hp =>
    rw [executedByStep_of_opened hs.record hh ho]
    have halted := (state_of_opened ho).1 ▸ hh
    exact (hs.atEnd_of_opened ho).coherent_of_recorded halted hc hp

theorem coherent_invariant [Console π] (field : Playfield) :
    Invariant (π := π) (Coherent field) where
  step _ _ hs := hs.step
  unsettle _ _ hs := hs.unsettle
  flush _ _ _ _ hs := ⟨hs.record, hs.chronicle, hs.position, hs.live⟩
  restore _ _ _ _ _ hs hr := hs.restore hr

theorem coherent_start (field : Playfield) (console : π) (directions : Directions)
    {config : Config} (hrecord : config.record = true) :
    Coherent field [] true (start field console directions config) where
  record := hrecord
  chronicle := .of_length_eq_zero rfl
  position := .inr ⟨rfl, rfl⟩
  live _ := rfl

theorem Reach.coherent [Console π] {field : Playfield} {console : π} {directions : Directions}
    {config : Config} {executed : List State} {settled : Bool} {s : Session π}
    (h : Reach (start field console directions config) executed settled s)
    (hrecord : config.record = true) : Coherent field executed settled s :=
  (coherent_invariant field).reach (coherent_start field console directions hrecord) h

/-- The record tells one run of the program from its start, halted at the end at most, and a settled
session with a record stands at one of its states. -/
theorem history_integrity [Console π] {field : Playfield} {console : π} {directions : Directions}
    {config : Config} {executed : List State} {settled : Bool} {s : Session π}
    (hrecord : config.record = true)
    (h : Reach (start field console directions config) executed settled s) :
    (s.position < s.history.length ∨ s.position = 0 ∧ s.history.length = 0) ∧
      (∀ t, s.history.get? 0 = some t → t = .initial field) ∧
      (∀ i t, s.history.get? i = some t → t.steps = i) ∧
      (∀ i j a b, i ≤ j → s.history.get? i = some a → s.history.get? j = some b →
        a.outputLength ≤ b.outputLength) ∧
      (∀ i t, s.history.get? i = some t → t.halted = true → i + 1 = s.history.length) ∧
      (0 < s.history.length → settled = true → s.history.get? s.position = some s.state) := by
  have hs := h.coherent hrecord
  refine ⟨hs.position, hs.chronicle.first, ?_, ?_, ?_, ?_⟩
  · intro i t hi
    exact hs.chronicle.steps_eq rfl hi
  · intro i j a b hij hi hj
    exact hs.chronicle.outputLength_mono rfl hij hi hj
  · intro i t hi halted
    exact hs.chronicle.eq_length_of_halted hi halted
  · rintro hlength rfl
    exact hs.shown hlength

/-- A run to the end, a way back to the start and one step from there. -/
theorem history_integrity_rerun :
    ∃ t : Trail Buffered,
      (start (.load "1.@") (Buffered.ofInput []) (.ofScript []) { record := true }).replay
        [.run, .rewind, .step] = some t ∧ t.settled = true ∧ t.session.history.length = 2 ∧
      t.session.history.get? t.session.position = some t.session.state := by
  have hview : ((start (.load "1.@") (Buffered.ofInput []) (.ofScript []) { record := true }).replay
      [.run, .rewind, .step]).map (fun t => (t.settled, t.session.history.length)) =
      some (true, 2) := by decide +kernel
  obtain ⟨t, ht, heq⟩ := Option.map_eq_some_iff.mp hview
  obtain ⟨hsettled, hlength⟩ := Prod.mk.inj heq
  have hreach := reach_iff_replay.mpr ⟨_, ht⟩
  have hlive := (history_integrity rfl hreach).2.2.2.2.2 (by omega) hsettled
  exact ⟨t, ht, hsettled, hlength, hlive⟩

end Befunge.Session
