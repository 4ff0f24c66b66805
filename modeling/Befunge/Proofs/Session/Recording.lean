import Befunge.Proofs.Machine.Transition
import Befunge.Proofs.Session.Calls

/-!
# Steps that are recorded

A step of a recording session drops the recorded future, sees to it that the start is recorded,
executes a cycle and records the state after it. It can end at each of these points.
-/

namespace Befunge.Session

variable {π : Type}

theorem hasFuture_iff {s : Session π} : s.hasFuture = true ↔ s.position + 1 < s.history.length := by
  simp [hasFuture]

theorem length_le_of_not_hasFuture {s : Session π} (hf : s.hasFuture = false) :
    s.history.length ≤ s.position + 1 := by
  have hend : ¬s.position + 1 < s.history.length := by
    rw [← hasFuture_iff, hf]
    exact Bool.false_ne_true
  omega

variable [Console π]

/-- The ways in which a step of a recording session can go. -/
inductive RecordedStep (s : Session π) : Attempt Fault (Session π) Outcome → Prop
  | halted (hh : s.state.halted = true) : RecordedStep s (.ok .halt, s)
  | unopened {f : Fault} {b : Session π} (hh : s.state.halted = false)
      (ho : s.opened = (.error f, b)) : RecordedStep s (.error f, b)
  | faulted {b : Session π} {f : Fault} {m : Machine π} (hh : s.state.halted = false)
      (ho : s.opened = (.ok (), b)) (hc : b.machine.cycle b.config.debug = (.error f, m)) :
      RecordedStep s (.error f, { b with machine := m })
  | refused {b : Session π} {o : Outcome} {m : Machine π} {overflow : Overflow}
      (hh : s.state.halted = false) (ho : s.opened = (.ok (), b))
      (hc : b.machine.cycle b.config.debug = (.ok o, m))
      (hp : b.history.push m.state = (.error overflow, b.history)) :
      RecordedStep s (.error (.historyFull overflow), { b with machine := m })
  | recorded {b : Session π} {o : Outcome} {m : Machine π} {h : History}
      (hh : s.state.halted = false) (ho : s.opened = (.ok (), b))
      (hc : b.machine.cycle b.config.debug = (.ok o, m))
      (hp : b.history.push m.state = (.ok (), h)) :
      RecordedStep s (.ok o, { b with machine := m, history := h, position := h.length - 1 })

theorem recordedStep_step {s : Session π} (hrecord : s.config.record = true) :
    RecordedStep s s.step := by
  unfold step
  cases hh : s.state.halted with
  | true =>
    rw [if_pos rfl]
    exact .halted hh
  | false =>
    rw [if_neg Bool.false_ne_true, if_pos hrecord]
    have hstep : s.recordedStep = s.opened.andThen fun _ s =>
        s.cycle.andThen fun outcome s => s.record.andThen fun _ s => (.ok outcome, s) := rfl
    rw [hstep]
    rcases ho : s.opened with ⟨f | _, b⟩
    · exact .unopened hh ho
    · obtain ⟨config, loaded, machine, history, position⟩ := b
      simp only [Attempt.andThen_ok, cycle]
      rcases hc : machine.cycle config.debug with ⟨f | o, m⟩
      · exact .faulted hh ho hc
      · simp only [Attempt.within_ok, Attempt.andThen_ok, record]
        rcases hp : history.push m.state with ⟨overflow | _, h⟩
        · obtain ⟨-, -, rfl⟩ := History.push_eq_error_iff.mp hp
          exact .refused hh ho hc hp
        · exact .recorded hh ho hc hp

theorem discardFuture_of_hasFuture {s : Session π} (hf : s.hasFuture = true) :
    s.discardFuture = { s with
      machine := { s.machine with
        console := Console.truncate s.state.outputLength s.machine.console
        profile := s.machine.profile.forget s.state.steps }
      history := s.history.truncate (s.position + 1) } := by
  unfold discardFuture
  rw [if_pos hf]
  rfl

theorem discardFuture_of_not_hasFuture {s : Session π} (hf : s.hasFuture = false) :
    s.discardFuture = s := by
  unfold discardFuture
  rw [hf, if_neg Bool.false_ne_true]

theorem opened_of_length_eq_zero {s : Session π} (hlength : s.history.length = 0) :
    (∃ h, s.history.push s.state = (.ok (), h) ∧
        s.opened = (.ok (), { s with history := h, position := 0 })) ∨
      ∃ overflow, s.history.push s.state = (.error overflow, s.history) ∧
        s.opened = (.error (.historyFull overflow), s) := by
  have hf : s.hasFuture = false := by
    simp [hasFuture, hlength]
  rw [opened, discardFuture_of_not_hasFuture hf, recordStart, if_pos hlength]
  obtain ⟨config, loaded, machine, history, position⟩ := s
  simp only [record]
  rcases hp : history.push machine.state with ⟨overflow | _, h⟩
  · obtain ⟨-, -, rfl⟩ := History.push_eq_error_iff.mp hp
    exact .inr ⟨overflow, hp, rfl⟩
  · have hone : h.length = 1 := by
      rw [History.length_of_push hp]
      simpa using hlength
    refine .inl ⟨h, hp, ?_⟩
    simp only [hone]

theorem opened_of_length_pos {s : Session π} (hlength : 0 < s.history.length) :
    s.opened = (.ok (), s.discardFuture) := by
  have hpos : s.discardFuture.history.length ≠ 0 := by
    cases hf : s.hasFuture with
    | true =>
      rw [discardFuture_of_hasFuture hf, History.length_truncate]
      omega
    | false =>
      rw [discardFuture_of_not_hasFuture hf]
      omega
  rw [opened, recordStart, if_neg hpos]

theorem opened_cases {s b : Session π} (ho : s.opened = (.ok (), b)) :
    (s.history.length = 0 ∧
        ∃ h, s.history.push s.state = (.ok (), h) ∧ b = { s with history := h, position := 0 }) ∨
      0 < s.history.length ∧ b = s.discardFuture := by
  rcases Nat.eq_zero_or_pos s.history.length with hlength | hlength
  · rcases opened_of_length_eq_zero hlength with ⟨h, hp, hb⟩ | ⟨overflow, -, hb⟩
    · rw [hb] at ho
      cases ho
      exact .inl ⟨hlength, h, hp, rfl⟩
    · rw [hb] at ho
      cases ho
  · rw [opened_of_length_pos hlength] at ho
    cases ho
    exact .inr ⟨hlength, rfl⟩

theorem eq_of_opened_error {s b : Session π} {f : Fault} (ho : s.opened = (.error f, b)) :
    b = s ∧ ∃ overflow, f = .historyFull overflow := by
  rcases Nat.eq_zero_or_pos s.history.length with hlength | hlength
  · rcases opened_of_length_eq_zero hlength with ⟨h, -, hb⟩ | ⟨overflow, -, hb⟩
    · rw [hb] at ho
      cases ho
    · rw [hb] at ho
      cases ho
      exact ⟨rfl, overflow, rfl⟩
  · rw [opened_of_length_pos hlength] at ho
    cases ho

theorem length_of_opened_error {s b : Session π} {f : Fault} (ho : s.opened = (.error f, b)) :
    s.history.length = 0 := by
  rcases Nat.eq_zero_or_pos s.history.length with hlength | hpos
  · exact hlength
  · rw [opened_of_length_pos hpos] at ho
    cases ho

/-- A cycle takes place at the end of the record, without a move. -/
theorem position_of_opened {s b : Session π} (ho : s.opened = (.ok (), b))
    (hposition : s.position < s.history.length ∨ s.position = 0 ∧ s.history.length = 0) :
    b.position = s.position ∧ b.history.length = s.position + 1 := by
  rcases opened_cases ho with ⟨hlength, h, hp, rfl⟩ | ⟨hlength, rfl⟩
  · have hzero : s.position = 0 := by omega
    exact ⟨hzero.symm, by rw [History.length_of_push hp, hlength, hzero]⟩
  · cases hf : s.hasFuture with
    | true =>
      have hlt := hasFuture_iff.mp hf
      rw [discardFuture_of_hasFuture hf]
      refine ⟨rfl, ?_⟩
      rw [History.length_truncate]
      omega
    | false =>
      have hend := length_le_of_not_hasFuture hf
      rw [discardFuture_of_not_hasFuture hf]
      exact ⟨rfl, by omega⟩

theorem state_of_opened {s b : Session π} (ho : s.opened = (.ok (), b)) :
    b.state = s.state ∧ b.config = s.config := by
  rcases opened_cases ho with ⟨-, h, -, rfl⟩ | ⟨-, rfl⟩
  · exact ⟨rfl, rfl⟩
  · cases hf : s.hasFuture with
    | true =>
      rw [discardFuture_of_hasFuture hf]
      exact ⟨rfl, rfl⟩
    | false =>
      rw [discardFuture_of_not_hasFuture hf]
      exact ⟨rfl, rfl⟩

theorem machine_of_opened {s b : Session π} (hf : s.hasFuture = false)
    (ho : s.opened = (.ok (), b)) : b.machine = s.machine ∧ b.hasFuture = false := by
  rcases opened_cases ho with ⟨hlength, h, hp, rfl⟩ | ⟨-, rfl⟩
  · refine ⟨rfl, ?_⟩
    have := History.length_of_push hp
    simp only [hasFuture, decide_eq_false_iff_not]
    omega
  · rw [discardFuture_of_not_hasFuture hf]
    exact ⟨rfl, hf⟩

theorem executedByStep_of_opened {s b : Session π} (hrecord : s.config.record = true)
    (hh : s.state.halted = false) (ho : s.opened = (.ok (), b)) : s.executedByStep = [b.state] := by
  rw [executedByStep, hh, if_neg Bool.false_ne_true, if_pos hrecord, ho]

theorem step_of_halted {s : Session π} (hh : s.state.halted = true) : s.step = (.ok .halt, s) := by
  rw [step, if_pos hh]

theorem step_of_unopened {s b : Session π} {f : Fault} (hrecord : s.config.record = true)
    (hh : s.state.halted = false) (ho : s.opened = (.error f, b)) : s.step = (.error f, s) := by
  obtain ⟨rfl, -⟩ := eq_of_opened_error ho
  have hstep : b.step = b.recordedStep := by
    rw [step, hh, if_neg Bool.false_ne_true, if_pos hrecord]
  rw [hstep, recordedStep, ← opened, ho, Attempt.andThen_error]

/-- A step that comes to its cycle stays at the end of the record, and is one place further if it
succeeds. -/
theorem place_of_step {s b : Session π} (hrecord : s.config.record = true)
    (hh : s.state.halted = false) (ho : s.opened = (.ok (), b))
    (hposition : s.position < s.history.length ∨ s.position = 0 ∧ s.history.length = 0) :
    s.step.2.position = s.position + s.step.1.isOk.toNat ∧
      s.step.2.history.length = s.step.2.position + 1 := by
  obtain ⟨hsame, hend⟩ := position_of_opened ho hposition
  have hcases := recordedStep_step hrecord
  generalize s.step = r at hcases ⊢
  cases hcases with
  | halted halted =>
    rw [hh] at halted
    cases halted
  | unopened _ ho' =>
    rw [ho] at ho'
    cases ho'
  | faulted _ ho' | refused _ ho' =>
    obtain rfl := (Prod.mk.inj (ho.symm.trans ho')).2
    refine ⟨hsame, ?_⟩
    rw [hend, hsame]
  | @recorded _ _ _ h _ ho' _ hp =>
    obtain rfl := (Prod.mk.inj (ho.symm.trans ho')).2
    have hlength := History.length_of_push hp
    constructor
    · change h.length - 1 = s.position + 1
      omega
    · change h.length = h.length - 1 + 1
      omega

end Befunge.Session
