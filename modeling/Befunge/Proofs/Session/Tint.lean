import Befunge.Proofs.History.FirstVisits
import Befunge.Proofs.Machine.Place
import Befunge.Proofs.Session.Visits
import Befunge.Viewer.Basic

/-!
# The tint of visited cells

A viewer tints the cells that were executed before the moment it shows. The profile it asks is not
part of the record: it is kept through every move, cut when a future is dropped, and steps that
failed or were refused leave their entry in it. Its dates are right all the same.
-/

namespace Befunge

namespace Session

variable {π : Type} {field : Playfield} {executed : List State} {settled : Bool} {s b : Session π}

/-- What calls keep of a recording session and its profile. -/
structure Dated (field : Playfield) (executed : List State) (settled : Bool)
    (s : Session π) : Prop where
  coherent : Coherent field executed settled s
  dates : s.history.Dates (s.history.length - 1) s.machine.profile

theorem dated_start (field : Playfield) (console : π) (directions : Directions)
    {config : Config} (hrecord : config.record = true) :
    Dated field [] true (start field console directions config) where
  coherent := coherent_start field console directions hrecord
  dates := .empty _

theorem Dated.restore {s' : Session π} {i : Nat} (hs : Dated field executed settled s)
    (hr : s.restore i = .ok s') : Dated field executed true s' := by
  have hnext := hs.coherent.restore hr
  unfold Session.restore at hr
  split at hr
  · cases hr
  · cases hr
    exact ⟨hnext, hs.dates⟩

variable [Console π]

theorem Dated.dates_of_opened (hs : Dated field executed true s) (ho : s.opened = (.ok (), b)) :
    b.history.Dates b.position b.machine.profile := by
  have hdates := hs.dates
  rcases opened_cases ho with ⟨hlength, h, hp, rfl⟩ | ⟨hlength, rfl⟩
  · exact (hdates.mono (Nat.zero_le _)).push (Nat.zero_le _) hp
  · have hshown := hs.coherent.shown hlength
    have hposition := History.lt_length_of_get? hshown
    have hsteps := hs.coherent.chronicle.steps_eq rfl hshown
    cases hf : s.hasFuture with
    | true =>
      rw [discardFuture_of_hasFuture hf, hsteps]
      exact hdates.forget (by omega)
    | false =>
      rw [discardFuture_of_not_hasFuture hf]
      exact hdates.mono (by omega)

/-- A cycle dates its cell whether or not it succeeds. -/
theorem AtEnd.dates_of_cycle {r : Except Fault Outcome} {m : Machine π}
    (hb : AtEnd field executed b) (hdates : b.history.Dates b.position b.machine.profile)
    (hc : b.machine.cycle b.config.debug = (r, m)) :
    b.history.Dates b.history.length m.profile := by
  have hbounds := hb.chronicle.inBounds (State.initial_inBounds field) hb.last
  have hsteps : b.machine.state.steps = b.position := hb.chronicle.steps_eq rfl hb.last
  have hprofile : m.profile =
      b.machine.profile.count b.state.cursor.position (b.position + 1) := by
    have hcount := Machine.profile_cycle b.config.debug b.machine
    rw [hc, hsteps] at hcount
    exact hcount
  rw [hprofile, ← hb.position]
  exact hdates.count hb.last hbounds

theorem Dated.step (hs : Dated field executed true s) :
    Dated field (executed ++ s.executedByStep) s.step.1.isOk s.step.2 := by
  have hnext := hs.coherent.step
  have hcases := recordedStep_step hs.coherent.record
  generalize s.step = r at hcases hnext ⊢
  cases hcases with
  | halted => exact ⟨hnext, hs.dates⟩
  | unopened _ ho =>
    obtain ⟨rfl, -⟩ := eq_of_opened_error ho
    exact ⟨hnext, hs.dates⟩
  | faulted _ ho hc | refused _ ho hc =>
    have hb := hs.coherent.atEnd_of_opened ho
    have hdates := hb.dates_of_cycle (hs.dates_of_opened ho) hc
    exact ⟨hnext, hdates.mono (Nat.sub_le _ 1)⟩
  | recorded _ ho hc hp =>
    have hb := hs.coherent.atEnd_of_opened ho
    have hdates := hb.dates_of_cycle (hs.dates_of_opened ho) hc
    refine ⟨hnext, (hdates.push (Nat.le_refl _) hp).mono ?_⟩
    exact Nat.sub_le_of_le_add (Nat.le_of_eq (History.length_of_push hp))

theorem dated_invariant (field : Playfield) : Invariant (π := π) (Dated field) where
  step _ _ hs := hs.step
  unsettle _ _ hs := ⟨hs.coherent.unsettle, hs.dates⟩
  flush _ _ _ stopped hs :=
    ⟨(coherent_invariant field).flush _ _ _ stopped hs.coherent, hs.dates⟩
  restore _ _ _ _ _ hs hr := hs.restore hr

theorem Reach.dated {console : π} {directions : Directions} {config : Config}
    (h : Reach (start field console directions config) executed settled s)
    (hrecord : config.record = true) : Dated field executed settled s :=
  (dated_invariant field).reach (dated_start field console directions hrecord) h

end Session

theorem Viewer.isVisited_iff {viewer : Viewer} {p : Position} :
    viewer.fieldView.isVisited p = true ↔
      ∃ v, viewer.session.machine.profile.visit? p = some v ∧
        v.firstStep ≤ viewer.session.state.steps := by
  simp only [FieldView.isVisited, fieldView]
  cases viewer.session.machine.profile.visit? p with
  | none => simp
  | some v =>
    simp only [Option.any_some, Option.some.injEq, exists_eq_left']
    exact decide_eq_true_iff

/-- Wherever in the record a session stands, the profile dates a cell at or before that moment, and
a viewer tints it, exactly if one of the recorded steps before executed it; and the date is that of
the first of these. -/
theorem Session.visited_tint_exact {field : Playfield} {input : List UInt8}
    {directions : Directions} {config : Config} {executed : List State} {settled : Bool}
    {s : Session Buffered} {i : Nat} (hrecord : config.record = true)
    (h : Reach (start field (Buffered.ofInput input) directions config) executed settled s)
    (hi : s.history.get? i = some s.state) (p : Position) :
    ((∃ v, s.machine.profile.visit? p = some v ∧ v.firstStep ≤ s.state.steps) ↔
        ∃ j a, j < i ∧ s.history.get? j = some a ∧ a.cursor.position = p) ∧
      (∀ v, s.machine.profile.visit? p = some v → v.firstStep ≤ s.state.steps →
        ∃ j, j < i ∧ v.firstStep = 1 + j ∧
          (∃ a, s.history.get? j = some a ∧ a.cursor.position = p) ∧
          ∀ k a, k < j → s.history.get? k = some a → a.cursor.position ≠ p) ∧
      ∀ viewer : Viewer, viewer.session = s → (viewer.fieldView.isVisited p = true ↔
        ∃ j a, j < i ∧ s.history.get? j = some a ∧ a.cursor.position = p) := by
  have hs := h.dated hrecord
  obtain rfl := hs.coherent.chronicle.steps_eq rfl hi
  have hlt := History.lt_length_of_get? hi
  have hiff := hs.dates.exists_visit_iff (p := p) (i := s.state.steps) (by omega)
  refine ⟨hiff, ?_, ?_⟩
  · intro v hv hle
    obtain ⟨j, hj, hfirst⟩ := hs.dates.dated p v hv
    exact ⟨j, by omega, by omega, hfirst.here, hfirst.notBefore⟩
  · rintro viewer rfl
    rw [Viewer.isVisited_iff]
    exact hiff

/-- Two states fit behind the start, and the step from the second one is refused, before and after a
way back to the start. At the end of the record the cell of that step does not count as visited, and
the cell before it does. -/
theorem Session.visited_tint_exact_refused :
    ∃ t : Trail Buffered,
      (start (.load ">1.<") (Buffered.ofInput []) (.ofScript [])
        { record := true, historyLimit := 16260 }).replay
        [.run, .rewind, .step, .run, .jumpToEnd] = some t ∧
      t.session.history.get? 2 = some t.session.state ∧
      (∃ v, t.session.machine.profile.visit? ⟨1, 0⟩ = some v ∧
        v.firstStep ≤ t.session.state.steps) ∧
      ¬∃ v, t.session.machine.profile.visit? ⟨2, 0⟩ = some v ∧
        v.firstStep ≤ t.session.state.steps := by
  have hview : ((start (.load ">1.<") (Buffered.ofInput []) (.ofScript [])
      { record := true, historyLimit := 16260 }).replay
        [.run, .rewind, .step, .run, .jumpToEnd]).map
      (fun t => (t.settled, t.session.position, t.session.history.length,
        (t.session.history.get? 0).map (·.cursor.position),
        (t.session.history.get? 1).map (·.cursor.position))) =
      some (true, 2, 3, some ⟨0, 0⟩, some ⟨1, 0⟩) := by
    decide +kernel
  obtain ⟨⟨s, settled, executed⟩, ht, heq⟩ := Option.map_eq_some_iff.mp hview
  simp only [Prod.mk.injEq] at heq
  obtain ⟨rfl, hposition, hlength, hfirst, hsecond⟩ := heq
  have hreach := reach_iff_replay.mpr ⟨_, ht⟩
  have hlive := (hreach.coherent rfl).shown (by omega)
  rw [hposition] at hlive
  refine ⟨_, ht, hlive, ?_, ?_⟩
  · obtain ⟨a, ha, hat⟩ := Option.map_eq_some_iff.mp hsecond
    exact (visited_tint_exact rfl hreach hlive ⟨1, 0⟩).1.mpr ⟨1, a, by omega, ha, hat⟩
  · intro hdated
    obtain ⟨j, a, hj, ha, hat⟩ := (visited_tint_exact rfl hreach hlive ⟨2, 0⟩).1.mp hdated
    obtain rfl | rfl : j = 0 ∨ j = 1 := by omega
    · simp [ha, hat] at hfirst
    · simp [ha, hat] at hsecond

end Befunge
