import Befunge.Console.Buffered
import Befunge.Console.Stream
import Befunge.Proofs.Machine.Translation
import Befunge.Proofs.Session.Recording
import Befunge.Proofs.Text.Decoding

/-!
# Streams and memory

A session over byte streams that take everything does what a session over a console in memory does.
The streams hold the encoding of the texts that the other console keeps. Only a future that is
dropped would tell the two apart, and without moves through the record there is none.
-/

namespace Befunge

namespace Session

section Onto

variable {π ρ : Type} {f : π → ρ}

/-- The same session over another console. -/
def onto (f : π → ρ) (s : Session π) : Session ρ :=
  ⟨s.config, s.loaded, s.machine.onto f, s.history, s.position⟩

theorem record_onto (s : Session π) : (s.onto f).record = s.record.within id (onto f) := by
  obtain ⟨config, loaded, machine, history, position⟩ := s
  have hstate : (machine.onto f).state = machine.state := rfl
  simp only [record, onto, hstate]
  split <;> rfl

theorem recordStart_onto (s : Session π) :
    (s.onto f).recordStart = s.recordStart.within id (onto f) := by
  have hstart : (s.onto f).recordStart =
      if s.history.length = 0 then (s.onto f).record else (.ok (), s.onto f) := rfl
  rw [hstart, recordStart]
  split
  · exact record_onto s
  · rfl

variable [Console π] [Console ρ]

theorem cycle_onto (h : ∀ text console, Console.Respects f text console) (s : Session π) :
    (s.onto f).cycle = s.cycle.within id (onto f) := by
  obtain ⟨config, loaded, machine, history, position⟩ := s
  simp only [cycle, onto, Machine.cycle_onto h]
  rcases machine.cycle config.debug with ⟨_ | _, m⟩ <;> rfl

theorem recordedStep_onto (h : ∀ text console, Console.Respects f text console) {s : Session π}
    (hf : s.hasFuture = false) :
    (s.onto f).recordedStep = s.recordedStep.within id (onto f) := by
  unfold recordedStep
  rw [discardFuture_of_not_hasFuture hf, discardFuture_of_not_hasFuture (s := s.onto f) hf,
    recordStart_onto]
  apply Attempt.within_andThen
  intro _ s
  rw [cycle_onto h]
  apply Attempt.within_andThen
  intro _ s
  rw [record_onto]
  exact Attempt.within_andThen fun _ _ => rfl

theorem step_onto (h : ∀ text console, Console.Respects f text console) {s : Session π}
    (hf : s.hasFuture = false) : (s.onto f).step = s.step.within id (onto f) := by
  have hstep : (s.onto f).step =
      if s.state.halted then (.ok .halt, s.onto f)
      else if s.config.record then (s.onto f).recordedStep
      else (s.onto f).cycle := rfl
  rw [hstep, step]
  split
  · rfl
  · split
    · exact recordedStep_onto h hf
    · exact cycle_onto h s

theorem hasFuture_step {s : Session π} (hf : s.hasFuture = false) :
    s.step.2.hasFuture = false := by
  cases hrecord : s.config.record with
  | true =>
    have hcases := recordedStep_step hrecord
    generalize s.step = r at hcases ⊢
    cases hcases with
    | halted => exact hf
    | unopened _ ho =>
      obtain ⟨rfl, -⟩ := eq_of_opened_error ho
      exact hf
    | faulted _ ho | refused _ ho => exact (machine_of_opened hf ho).2
    | recorded => exact decide_eq_false (by simp only; omega)
  | false =>
    cases hh : s.state.halted with
    | true =>
      rw [step_of_halted hh]
      exact hf
    | false =>
      rw [step_of_plain hrecord hh rfl]
      exact hf

theorem stepTimes_onto (h : ∀ text console, Console.Respects f text console) {s : Session π}
    (hf : s.hasFuture = false) (n : Nat) :
    (s.onto f).stepTimes n = ((s.stepTimes n).1, (s.stepTimes n).2.onto f) ∧
      (s.stepTimes n).2.hasFuture = false := by
  induction n with
  | zero => exact ⟨rfl, hf⟩
  | succ n ih =>
    obtain ⟨hsteps, hend⟩ := ih
    rw [stepTimes_succ, stepTimes_succ, hsteps, step_onto h hend]
    refine ⟨?_, hasFuture_step hend⟩
    rw [Attempt.fst_within_id, Attempt.snd_within]

theorem runFor_onto (h : ∀ text console, Console.Respects f text console) (fuel : Nat)
    {s : Session π} (hf : s.hasFuture = false) :
    (s.onto f).runFor fuel = (s.runFor fuel).map (·.within id (onto f)) := by
  induction fuel generalizing s with
  | zero => rfl
  | succ fuel ih =>
    have hexhausted : (s.onto f).exhausted? = s.exhausted? := rfl
    have hnext := hasFuture_step hf
    rw [runFor, runFor, hexhausted, step_onto h hf]
    cases s.exhausted? with
    | some limit => rfl
    | none =>
      rcases hstep : s.step with ⟨e | (_ | _), t⟩
      · rfl
      · rw [hstep] at hnext
        exact ih hnext
      · rfl

end Onto

end Session

/-- A sink without a limit that has taken this text. -/
def Sink.ofText (text : String) : Sink := { written := text.toUTF8.data }

theorem Sink.write_ofText (front rest : String) :
    (ofText front).write (Text.Utf8.encode rest.toList) = (.ok (), ofText (front ++ rest)) := by
  simp only [ofText, Sink.write, Text.Utf8.appendList_encode]

namespace Buffered

/-- The streams that have taken what the console keeps. -/
def streamed (b : Buffered) : Stream := ⟨b.input, .ofText b.output, .ofText b.diagnostics⟩

theorem respects_streamed (text : String) (b : Buffered) :
    Console.Respects streamed text b where
  readLine := by
    obtain ⟨input, output, diagnostics⟩ := b
    simp only [streamed, Console.readLine, Stream.readLine, Buffered.readLine]
    rcases Input.readLine input with ⟨_ | _, rest⟩ <;> rfl
  readChar := rfl
  write := by
    obtain ⟨input, output, diagnostics⟩ := b
    simp only [streamed, Console.write, Stream.write, Sink.write_ofText]
    rfl
  diagnose line := by
    obtain ⟨input, output, diagnostics⟩ := b
    simp only [streamed, Console.diagnose, Stream.diagnose, Sink.write_ofText]
    rfl

end Buffered

namespace Session

/-- The stream session stands where the other one stands, and its streams have taken the bytes of
the texts that the other one's console keeps. -/
structure Mirrors (s : Session Stream) (b : Session Buffered) : Prop where
  config : s.config = b.config
  loaded : s.loaded = b.loaded
  state : s.state = b.state
  directions : s.machine.directions = b.machine.directions
  profile : s.machine.profile = b.machine.profile
  history : s.history = b.history
  position : s.position = b.position
  input : s.machine.console.input = b.machine.console.input
  output : s.machine.console.output.written = b.machine.console.output.toUTF8.data
  diagnostics : s.machine.console.diagnostics.written = b.machine.console.diagnostics.toUTF8.data

theorem mirrors_onto_streamed (b : Session Buffered) : (b.onto Buffered.streamed).Mirrors b where
  config := rfl
  loaded := rfl
  state := rfl
  directions := rfl
  profile := rfl
  history := rfl
  position := rfl
  input := rfl
  output := rfl
  diagnostics := rfl

theorem run_onto_streamed {b : Session Buffered} (hf : b.hasFuture = false) :
    (b.onto Buffered.streamed).run =
      b.run.map fun e => ⟨e.stopped, e.flushed, e.session.onto Buffered.streamed⟩ := by
  have hfuel : (b.onto Buffered.streamed).fuel = b.fuel := rfl
  rw [run, run, hfuel, runFor_onto Buffered.respects_streamed b.fuel hf]
  rcases b.runFor b.fuel with _ | ⟨_ | _, t⟩ <;> rfl

/-- Over streams that take everything a program runs as it does in memory. Steps get the same
answers and lead to the same session, in which the streams have taken exactly the bytes of the
output and of the diagnostics; and a run after them ends over the streams if and only if it ends in
memory, and then in the same way. -/
theorem stream_agrees_with_memory (field : Playfield) (input : List UInt8)
    (directions : Directions) (config : Config) (n : Nat) :
    let streams := (start field ({ input } : Stream) directions config).stepTimes n
    let memory := (start field (Buffered.ofInput input) directions config).stepTimes n
    streams.1 = memory.1 ∧ streams.2.Mirrors memory.2 ∧
      ((streams.2.run = none ∧ memory.2.run = none) ∨
        ∃ e e', streams.2.run = some e ∧ memory.2.run = some e' ∧ e.result = e'.result ∧
          e.session.Mirrors e'.session) := by
  intro streams memory
  obtain ⟨hsteps, hf⟩ := stepTimes_onto (s := start field (Buffered.ofInput input) directions config)
    Buffered.respects_streamed rfl n
  have hstreams : streams = (memory.1, memory.2.onto Buffered.streamed) := hsteps
  rw [hstreams]
  refine ⟨rfl, mirrors_onto_streamed _, ?_⟩
  rw [run_onto_streamed hf]
  rcases memory.2.run with _ | e
  · exact .inl ⟨rfl, rfl⟩
  · exact .inr ⟨_, e, rfl, rfl, rfl, mirrors_onto_streamed _⟩

end Session

end Befunge
