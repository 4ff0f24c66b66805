import Befunge.Console.Buffered
import Befunge.Proofs.History.Chronicle
import Befunge.Proofs.Machine.Access
import Befunge.Proofs.Session.Recording

/-!
# Sessions keep within the playing area

Whatever is asked of a session, in whatever order and whatever failed before, every state that it
stands at or has on record keeps within the playing area, no cell off the field is ever read or
written, and the playfield as it was loaded is not touched. So there is nothing that arithmetic
could fail by but a zero divisor.
-/

namespace Befunge.Session

variable {π : Type} {field : Playfield} {s s' b : Session π}

/-- What all calls keep of a session of the program on `field`. -/
structure Contained (field : Playfield) (s : Session π) : Prop where
  loaded : s.loaded = field
  live : s.state.cursor.position.InBounds
  recorded : ∀ i t, s.history.get? i = some t → t.cursor.position.InBounds

theorem contained_start (field : Playfield) (console : π) (directions : Directions)
    (config : Config) : Contained field (start field console directions config) where
  loaded := rfl
  live := State.initial_inBounds field
  recorded i _ hi := absurd (History.lt_length_of_get? hi) (Nat.not_lt_zero i)

namespace Contained

theorem restore {i : Nat} (hs : Contained field s) (hr : s.restore i = .ok s') :
    Contained field s' := by
  unfold Session.restore at hr
  split at hr
  · cases hr
  · next t ht =>
    cases hr
    exact ⟨hs.loaded, hs.recorded i t ht, hs.recorded⟩

theorem push {h : History} {t : State} {position : Nat} (hs : Contained field s)
    (ht : t.cursor.position.InBounds) (hp : s.history.push t = (.ok (), h)) :
    Contained field { s with history := h, position } where
  loaded := hs.loaded
  live := hs.live
  recorded i u hi := by
    simp only [History.get?_of_push hp] at hi
    split at hi
    · exact Option.some.inj hi ▸ ht
    · exact hs.recorded i u hi

variable [Console π]

theorem discardFuture (hs : Contained field s) : Contained field s.discardFuture := by
  cases hf : s.hasFuture with
  | false =>
    rw [discardFuture_of_not_hasFuture hf]
    exact hs
  | true =>
    rw [discardFuture_of_hasFuture hf]
    refine ⟨hs.loaded, hs.live, ?_⟩
    intro i t hi
    simp only [History.get?_truncate] at hi
    split at hi
    · exact hs.recorded i t hi
    · cases hi

theorem of_opened (hs : Contained field s) (ho : s.opened = (.ok (), b)) : Contained field b := by
  rcases opened_cases ho with ⟨-, h, hp, rfl⟩ | ⟨-, rfl⟩
  · exact hs.push hs.live hp
  · exact hs.discardFuture

theorem of_cycle {r : Except Fault Outcome} {m : Machine π} (hb : Contained field b)
    (hc : b.machine.cycle b.config.debug = (r, m)) : Contained field { b with machine := m } := by
  have hlive := Machine.inBounds_cycle b.config.debug hb.live
  rw [hc] at hlive
  exact ⟨hb.loaded, hlive, hb.recorded⟩

theorem step (hs : Contained field s) : Contained field s.step.2 := by
  cases hrecord : s.config.record with
  | false =>
    cases hh : s.state.halted with
    | true =>
      rw [step_of_halted hh]
      exact hs
    | false =>
      rw [step_of_plain hrecord hh rfl]
      exact hs.of_cycle rfl
  | true =>
    have hcases := recordedStep_step hrecord
    generalize s.step = r at hcases ⊢
    cases hcases with
    | halted => exact hs
    | unopened _ ho =>
      obtain ⟨rfl, -⟩ := eq_of_opened_error ho
      exact hs
    | faulted _ ho hc | refused _ ho hc => exact (hs.of_opened ho).of_cycle hc
    | recorded _ ho hc hp =>
      have hnext := (hs.of_opened ho).of_cycle hc
      exact hnext.push hnext.live hp

theorem lasting (field : Playfield) : Lasting (π := π) (Contained field) where
  step _ hs := hs.step
  flush _ _ hs := ⟨hs.loaded, hs.live, hs.recorded⟩
  restore _ _ _ hs hr := hs.restore hr

end Contained

variable [Console π]

/-- A step fails because its state has no room in the record, or by what its cycle fails by. -/
theorem fault_of_step {f : Fault} (hf : s.step.1 = .error f) :
    (∃ overflow, f = .historyFull overflow) ∨
      ∃ m m' : Machine π, m.state = s.state ∧ m.cycle s.config.debug = (.error f, m') := by
  cases hrecord : s.config.record with
  | false =>
    cases hh : s.state.halted with
    | true =>
      rw [step_of_halted hh] at hf
      cases hf
    | false =>
      rw [step_of_plain hrecord hh rfl] at hf
      exact .inr ⟨s.machine, _, rfl, Prod.ext hf rfl⟩
  | true =>
    have hcases := recordedStep_step hrecord
    generalize s.step = r at hcases hf
    cases hcases with
    | halted => cases hf
    | unopened _ ho =>
      cases hf
      exact .inl (eq_of_opened_error ho).2
    | @faulted b _ m _ ho hc =>
      cases hf
      obtain ⟨hstate, hconfig⟩ := state_of_opened ho
      exact .inr ⟨b.machine, m, hstate, hconfig ▸ hc⟩
    | refused =>
      cases hf
      exact .inl ⟨_, rfl⟩
    | recorded => cases hf

theorem inside_step (s : Session π) (p : Position) : s.step.1 ≠ .error (.outside p) := by
  intro hf
  rcases fault_of_step hf with ⟨overflow, hfull⟩ | ⟨m, m', -, hc⟩
  · cases hfull
  · exact m.inside_cycle s.config.debug p (congrArg Prod.fst hc)

theorem inside_runFor {n : Nat} {r : Except Fault Unit} (h : s.runFor n = some (r, s'))
    (p : Position) : r ≠ .error (.outside p) := by
  rintro rfl
  induction n generalizing s with
  | zero => cases h
  | succ n ih =>
    rw [runFor] at h
    split at h
    · cases h
    · have hinside := inside_step s p
      split at h
      · next hstep =>
        cases h
        exact hinside (congrArg Prod.fst hstep)
      · cases h
      · exact ih h

theorem inside_run {e : Ending π} (h : s.run = some e) (p : Position) :
    e.result ≠ .error (.outside p) := by
  obtain ⟨⟨stopped, t⟩, hrun, rfl⟩ := Option.map_eq_some_iff.mp h
  obtain ⟨config, loaded, ⟨state, console, directions, profile⟩, history, position⟩ := t
  cases stopped with
  | error f =>
    intro hf
    exact inside_runFor hrun p (congrArg Except.error (Except.error.inj hf))
  | ok _ =>
    simp only [finish, Ending.result]
    cases (Console.flush console).1 with
    | error e => rintro ⟨⟩
    | ok _ => rintro ⟨⟩

/-- In every session that calls lead to, also past failures, the playfield as loaded is what was
loaded, and the state that is shown and all that are on record keep within the playing area. The
next cycle finds its cell, and neither it nor a run to the end reads or writes a cell off the field.
A step of arithmetic fails by a zero divisor, unless there is no room for its record or for its
trace. -/
theorem stays_in_bounds {console : π} {directions : Directions} {config : Config}
    {calls : List Call}
    (h : (start field console directions config).performAll calls = some s) :
    s.loaded = field ∧ s.loaded.cells.toArray.size = 2000 ∧ s.state.Confined ∧
      (∀ i t, s.history.get? i = some t → t.Confined) ∧
      s.machine.cycle? s.config.debug = some (s.machine.cycle s.config.debug) ∧
      (∀ p, s.step.1 ≠ .error (.outside p)) ∧
      (∀ e p, s.run = some e → e.result ≠ .error (.outside p)) ∧
      ∀ op f, s.state.instruction? = some (.arith op) → s.step.1 = .error f →
        (f = .divisionByZero op s.state.cursor.position ∧ (op = .div ∨ op = .mod) ∧
            s.state.stack.peek = 0) ∨
          (∃ overflow, f = .historyFull overflow) ∨
          s.config.debug = true ∧ ∃ e, f = .io s.state.cursor.position e := by
  have hs := (Contained.lasting field).performAll
    (contained_start field console directions config) h
  refine ⟨hs.loaded, s.loaded.cells.size_toArray, State.confined_of_inBounds hs.live, ?_,
    Machine.cycle?_eq_some _ hs.live, inside_step s, ?_, ?_⟩
  · intro i t hi
    exact State.confined_of_inBounds (hs.recorded i t hi)
  · intro e p he
    exact inside_run he p
  · intro op f hi hf
    rcases fault_of_step hf with hfull | ⟨m, m', hstate, hc⟩
    · exact .inr (.inl hfull)
    · rw [← hstate] at hi ⊢
      rcases Machine.fault_of_cycle_arith hi hc with hzero | hrefused
      · exact .inl hzero
      · exact .inr (.inr hrefused)

/-- A `p` with negative operands writes to the far corner, a division by zero stops the run, and the
steps after it try the division again. -/
theorem stays_in_bounds_past_fault :
    ∃ (s : Session Buffered) (f : Fault),
      (start (.load "\"a\"01-:p10/@") (Buffered.ofInput []) (.ofScript [])
        { record := true }).performAll [.run, .step, .step] = some s ∧
      s.history.length = 11 ∧ s.state.field.get? ⟨79, 24⟩ = some 97 ∧
      s.loaded = .load "\"a\"01-:p10/@" ∧ s.state.Confined ∧
      (∀ i t, s.history.get? i = some t → t.Confined) ∧
      (s.machine.cycle? false).isSome = true ∧ s.step.1 = .error f ∧
      ((f = .divisionByZero .div s.state.cursor.position ∧ s.state.stack.peek = 0) ∨
        ∃ overflow, f = .historyFull overflow) := by
  have hview : ((start (.load "\"a\"01-:p10/@") (Buffered.ofInput []) (.ofScript [])
      { record := true }).performAll [.run, .step, .step]).map
      (fun s => (s.history.length, s.state.field.get? ⟨79, 24⟩, s.state.instruction?,
        s.config.debug, s.step.1.isOk)) =
      some (11, some 97, some (.arith .div), false, false) := by
    decide +kernel
  obtain ⟨s, hs, heq⟩ := Option.map_eq_some_iff.mp hview
  simp only [Prod.mk.injEq] at heq
  obtain ⟨hlength, hcorner, hi, hdebug, hfails⟩ := heq
  obtain ⟨hloaded, -, hlive, hrecorded, hfound, -, -, harith⟩ := stays_in_bounds hs
  cases hstep : s.step.1 with
  | ok o =>
    rw [hstep] at hfails
    cases hfails
  | error f =>
    rw [hdebug] at hfound
    refine ⟨s, f, hs, hlength, hcorner, hloaded, hlive, hrecorded, by rw [hfound]; rfl, hstep, ?_⟩
    rcases harith .div f hi hstep with ⟨hf, -, hzero⟩ | hfull | ⟨htraced, -⟩
    · exact .inl ⟨hf, hzero⟩
    · exact .inr hfull
    · rw [hdebug] at htraced
      cases htraced

end Befunge.Session
