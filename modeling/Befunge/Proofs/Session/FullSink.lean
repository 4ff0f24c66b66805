import Befunge.Proofs.Machine.Buffered
import Befunge.Proofs.Session.Iteration
import Befunge.Proofs.Session.Streaming

/-!
# A sink that fills up

A sink with room for a limited number of bytes takes everything as long as it fits. The write that
does not fit is cut at the limit, and the program stands still at its instruction from then on: the
sink keeps the bytes that a larger one would have begun with.
-/

namespace Befunge

open Text

namespace Sink

variable {s : Sink} {limit : Nat} {bytes : List UInt8}

theorem write_of_fits (hlimit : s.capacity = some limit)
    (hfits : s.written.size + bytes.length ≤ limit) :
    s.write bytes = (.ok (), { s with written := s.written.appendList bytes }) := by
  obtain ⟨written, capacity, refusal⟩ := s
  obtain rfl : capacity = some limit := hlimit
  exact if_pos (Nat.le_sub_of_add_le' hfits)

theorem write_of_overflow (hlimit : s.capacity = some limit) (hle : s.written.size ≤ limit)
    (hover : limit < s.written.size + bytes.length) :
    s.write bytes = (.error .full, { s with
      written := ((s.written.appendList bytes).toList.take limit).toArray }) := by
  obtain ⟨written, capacity, refusal⟩ := s
  obtain rfl : capacity = some limit := hlimit
  have hroom : ¬bytes.length ≤ limit - written.size := by
    simp only at hover hle
    omega
  have hcut : written.appendList (bytes.take (limit - written.size)) =
      ((written.appendList bytes).toList.take limit).toArray := by
    have hfront : written.toList.take limit = written.toList :=
      List.take_of_length_le hle
    apply Array.toList_inj.mp
    simp [List.take_append, hfront]
  simp only [Sink.write]
  rw [if_neg hroom, hcut]

end Sink

namespace State

/-- The next cycle writes program output. -/
def Prints (s : State) : Prop :=
  s.instruction? = some .outputNumber ∨ s.instruction? = some .outputChar

theorem emission_ne_iff {s : State} : s.emission ≠ "" ↔ s.Prints := by
  constructor
  · intro h
    unfold emission at h
    split at h
    · next hi => exact .inl hi
    · next hi => exact .inr hi
    · exact absurd rfl h
  · rintro (hi | hi)
    · have hdigits : s.stack.peek.decimal ≠ [] := by
        unfold Cell.decimal
        split
        · exact List.cons_ne_nil _ _
        · exact Nat.toDigits_ne_nil
      simp only [emission, hi, Cell.toText]
      rintro hempty
      exact hdigits (String.ofList_eq_empty_iff.mp hempty)
    · simp [emission, hi]

end State

section Refusal

variable {π : Type} [Console π] {s : State} {e : ConsoleError} {console : π}

theorem Machine.output_of_refused {m : Machine π} (toText : Cell → String)
    (hwrite : Console.write (toText m.state.stack.peek) m.console = (.error e, console)) :
    m.output toText = (.error (.io m.state.cursor.position e),
      { m with state := m.state.pop.2, console }) := by
  obtain ⟨state, other, directions, profile⟩ := m
  simp only at hwrite
  simp only [output, emit, State.pop, hwrite]

/-- A write that is refused keeps the program at its instruction, with the operand gone. -/
theorem Machine.act_of_refused {m : Machine π} (debug : Bool) (hs : m.state = s.tick)
    (hi : s.Prints) (hwrite : Console.write s.emission m.console = (.error e, console)) :
    m.act debug s.current = (.error (.io s.cursor.position e),
      { m with state := m.state.pop.2, console }) := by
  have hpeek : m.state.stack.peek = s.stack.peek := by rw [hs]; rfl
  have hposition : m.state.cursor.position = s.cursor.position := by rw [hs]; rfl
  rw [act_eq debug hs, ← hposition]
  rcases hi with hi | hi
  · simp only [State.emission, hi, ← hpeek] at hwrite
    simp only [hi, execute, output_of_refused Cell.toText hwrite, Attempt.andThen_error]
  · simp only [State.emission, hi, ← hpeek] at hwrite
    simp only [hi, execute, output_of_refused (fun v => v.glyph.toString) hwrite,
      Attempt.andThen_error]

theorem Session.step_of_refused {t : Session π} (hrecord : t.config.record = false)
    (hdebug : t.config.debug = false) (hh : t.state.halted = false) (hi : t.state.Prints)
    (hwrite : Console.write t.state.emission t.machine.console = (.error e, console)) :
    t.step = (.error (.io t.state.cursor.position e),
      { t with machine := { t.machine.arrive with state := t.state.tick.pop.2, console } }) := by
  apply step_of_plain hrecord hh
  rw [hdebug, Machine.cycle_false]
  exact Machine.act_of_refused (m := t.machine.arrive) false rfl hi hwrite

end Refusal

/-- The output sink gets a limit. -/
def Stream.limited (limit : Nat) (s : Stream) : Stream :=
  { s with output := { s.output with capacity := some limit } }

namespace Buffered

/-- The streams that have taken what the console keeps, with a limit on output. -/
def poured (limit : Nat) (b : Buffered) : Stream := b.streamed.limited limit

variable {limit : Nat} {text : String} {b : Buffered}

theorem write_poured_of_fits (hfits : (b.output ++ text).utf8ByteSize ≤ limit) :
    Console.write text (b.poured limit) = (.ok (), (b.write text).poured limit) := by
  obtain ⟨input, output, diagnostics⟩ := b
  have hroom : output.toUTF8.data.size + (Utf8.encode text.toList).length ≤ limit := by
    rw [Utf8.length_encode]
    rwa [String.utf8ByteSize_append] at hfits
  have hsink := Sink.write_of_fits (s := ⟨output.toUTF8.data, some limit, none⟩) rfl hroom
  rw [Utf8.appendList_encode] at hsink
  simp only [poured, streamed, Stream.limited, Sink.ofText, Console.write, Stream.write, hsink]
  rfl

theorem respects_poured (hfits : (b.output ++ text).utf8ByteSize ≤ limit) :
    Console.Respects (poured limit) text b where
  readLine := by
    obtain ⟨input, output, diagnostics⟩ := b
    simp only [poured, streamed, Stream.limited, Console.readLine, Stream.readLine,
      Buffered.readLine]
    rcases Input.readLine input with ⟨_ | _, rest⟩ <;> rfl
  readChar := rfl
  write := write_poured_of_fits hfits
  diagnose line := by
    obtain ⟨input, output, diagnostics⟩ := b
    simp only [poured, streamed, Stream.limited, Console.diagnose, Stream.diagnose,
      Sink.write_ofText]
    rfl

theorem write_poured_of_overflow (hle : b.output.utf8ByteSize ≤ limit)
    (hover : limit < (b.output ++ text).utf8ByteSize) :
    Console.write text (b.poured limit) = (.error .full, { b.poured limit with
      output := { capacity := some limit
                  written := ((b.output ++ text).toUTF8.data.toList.take limit).toArray } }) := by
  obtain ⟨input, output, diagnostics⟩ := b
  have hover' : limit < output.toUTF8.data.size + (Utf8.encode text.toList).length := by
    rw [Utf8.length_encode]
    rwa [String.utf8ByteSize_append] at hover
  have hsink := Sink.write_of_overflow (s := ⟨output.toUTF8.data, some limit, none⟩) rfl hle hover'
  rw [Utf8.appendList_encode] at hsink
  simp only [poured, streamed, Stream.limited, Sink.ofText, Console.write, Stream.write, hsink]
  rfl

end Buffered

namespace Session

section Memory

variable {b : Session Buffered} {limit : Nat}

theorem output_step (hrecord : b.config.record = false) (hh : b.state.halted = false) :
    b.step.2.machine.console.output = b.machine.console.output ++ b.state.emission := by
  rw [step_of_plain hrecord hh rfl]
  exact Machine.output_cycle _ _

theorem outputLength_step (hrecord : b.config.record = false) (hh : b.state.halted = false) :
    b.step.2.state.outputLength = b.state.outputLength + b.state.emission.utf8ByteSize := by
  rw [step_of_plain hrecord hh rfl]
  exact Machine.outputLength_cycle _ _

theorem step_onto_poured (hrecord : b.config.record = false) (hdebug : b.config.debug = false)
    (hfits : b.step.2.machine.console.output.utf8ByteSize ≤ limit) :
    (b.onto (Buffered.poured limit)).step = b.step.within id (onto (Buffered.poured limit)) := by
  cases hh : b.state.halted with
  | true =>
    rw [step_of_halted hh, step_of_halted (s := b.onto (Buffered.poured limit)) hh]
    rfl
  | false =>
    rw [output_step hrecord hh] at hfits
    have hcycle : (b.machine.onto (Buffered.poured limit)).cycle b.config.debug =
        (b.machine.cycle b.config.debug).within id (Machine.onto (Buffered.poured limit)) := by
      rw [hdebug, Machine.cycle_false, Machine.cycle_false]
      exact Machine.act_onto (m := b.machine.arrive) (Buffered.respects_poured hfits) false rfl
    rcases hc : b.machine.cycle b.config.debug with ⟨r, m⟩
    rw [hc] at hcycle
    rw [step_of_plain hrecord hh hc,
      step_of_plain (p := b.onto (Buffered.poured limit)) hrecord hh hcycle]
    cases r <;> rfl

/-- The output of the first `n` steps. -/
def printed (b : Session Buffered) (n : Nat) : String :=
  (b.stepTimes n).2.machine.console.output

theorem printed_succ (n : Nat) :
    b.printed (n + 1) = (b.stepTimes n).2.step.2.machine.console.output := by
  rw [printed, stepTimes_succ]

theorem exists_printed_add (hrecord : b.config.record = false) (m i : Nat) :
    ∃ rest, b.printed (m + i) = b.printed m ++ rest := by
  induction i with
  | zero => exact ⟨"", String.append_empty.symm⟩
  | succ i ih =>
    obtain ⟨front, hfront⟩ := ih
    have hplain : (b.stepTimes (m + i)).2.config.record = false := by
      rw [config_stepTimes, hrecord]
    rw [← Nat.add_assoc, printed_succ]
    cases hh : (b.stepTimes (m + i)).2.state.halted with
    | true =>
      rw [step_of_halted hh]
      exact ⟨front, hfront⟩
    | false =>
      refine ⟨front ++ (b.stepTimes (m + i)).2.state.emission, ?_⟩
      rw [output_step hplain hh, ← String.append_assoc, ← hfront]
      rfl

theorem printed_le (hrecord : b.config.record = false) {m n : Nat} (hmn : m ≤ n) :
    (b.printed m).utf8ByteSize ≤ (b.printed n).utf8ByteSize := by
  obtain ⟨i, rfl⟩ := Nat.exists_eq_add_of_le hmn
  obtain ⟨rest, hrest⟩ := exists_printed_add hrecord m i
  rw [hrest, String.utf8ByteSize_append]
  exact Nat.le_add_right _ _

theorem take_printed (hrecord : b.config.record = false) {m n : Nat} (hmn : m ≤ n)
    (hle : limit ≤ (b.printed m).utf8ByteSize) :
    (b.printed n).toUTF8.data.toList.take limit =
      (b.printed m).toUTF8.data.toList.take limit := by
  obtain ⟨i, rfl⟩ := Nat.exists_eq_add_of_le hmn
  obtain ⟨rest, hrest⟩ := exists_printed_add hrecord m i
  have hbytes : (b.printed m ++ rest).toUTF8.data.toList =
      (b.printed m).toUTF8.data.toList ++ rest.toUTF8.data.toList := by
    simp
  rw [hrest, hbytes]
  exact List.take_append_of_le_length hle

theorem outputLength_stepTimes (hrecord : b.config.record = false)
    (hstart : b.state.outputLength = b.machine.console.output.utf8ByteSize) (n : Nat) :
    (b.stepTimes n).2.state.outputLength = (b.printed n).utf8ByteSize := by
  induction n with
  | zero => exact hstart
  | succ n ih =>
    have hplain : (b.stepTimes n).2.config.record = false := by
      rw [config_stepTimes, hrecord]
    rw [printed_succ, stepTimes_succ]
    cases hh : (b.stepTimes n).2.state.halted with
    | true =>
      rw [step_of_halted hh]
      exact ih
    | false =>
      rw [outputLength_step hplain hh, output_step hplain hh, String.utf8ByteSize_append, ih]
      rfl

/-- As long as all output fits, nothing is noticed of the limit. -/
theorem stepTimes_onto_poured (hrecord : b.config.record = false)
    (hdebug : b.config.debug = false) (n : Nat) (hfits : (b.printed n).utf8ByteSize ≤ limit) :
    (b.onto (Buffered.poured limit)).stepTimes n =
      ((b.stepTimes n).1, (b.stepTimes n).2.onto (Buffered.poured limit)) := by
  induction n with
  | zero => rfl
  | succ n ih =>
    have hconfig := config_stepTimes n b
    have hbefore := Nat.le_trans (printed_le hrecord (Nat.le_succ n)) hfits
    rw [printed_succ] at hfits
    rw [stepTimes_succ, stepTimes_succ, ih hbefore,
      step_onto_poured (hconfig ▸ hrecord) (hconfig ▸ hdebug) hfits, Attempt.fst_within_id,
      Attempt.snd_within]

end Memory

section Jammed

/-- The session is stuck at an instruction at `p` that writes to a full sink. -/
structure Jammed (p : Position) (bytes : List UInt8) (length : Nat) (t : Session Stream) :
    Prop where
  record : t.config.record = false
  debug : t.config.debug = false
  halted : t.state.halted = false
  prints : t.state.Prints
  position : t.state.cursor.position = p
  full : t.machine.console.output.capacity = some bytes.length
  written : t.machine.console.output.written.toList = bytes
  outputLength : t.state.outputLength = length

variable {p : Position} {bytes : List UInt8} {length : Nat} {t : Session Stream}

theorem Jammed.write (h : Jammed p bytes length t) :
    Console.write t.state.emission t.machine.console = (.error .full, t.machine.console) := by
  -- not a byte is left in the sink, and an instruction that prints never prints the empty text
  have hsize := mt String.utf8ByteSize_eq_zero_iff.mp (State.emission_ne_iff.mpr h.prints)
  have hlimit := h.full
  have hwritten := h.written
  generalize t.machine.console = console at hlimit hwritten ⊢
  obtain ⟨input, ⟨written, capacity, refusal⟩, diagnostics⟩ := console
  simp only at hlimit hwritten
  subst hlimit hwritten
  have hover : written.toList.length <
      written.size + (Utf8.encode t.state.emission.toList).length := by
    rw [Utf8.length_encode, Array.length_toList]
    omega
  have hsink := Sink.write_of_overflow (s := ⟨written, some written.toList.length, refusal⟩) rfl
    (Nat.le_refl _) hover
  simp only [Console.write, Stream.write, hsink]
  simp

theorem Jammed.step (h : Jammed p bytes length t) :
    t.step.1 = .error (.io p .full) ∧ Jammed p bytes length t.step.2 := by
  rw [step_of_refused h.record h.debug h.halted h.prints h.write, h.position]
  exact ⟨rfl, h.record, h.debug, h.halted, h.prints, h.position, h.full, h.written, h.outputLength⟩

theorem Jammed.stepTimes (h : Jammed p bytes length t) (n : Nat) :
    Jammed p bytes length (t.stepTimes n).2 := by
  induction n with
  | zero => exact h
  | succ n ih =>
    rw [stepTimes_succ]
    exact ih.step.2

end Jammed

section Overflow

variable {b : Session Buffered} {limit m : Nat}

theorem prints_of_overflow (hrecord : b.config.record = false)
    (hle : b.machine.console.output.utf8ByteSize ≤ limit)
    (hover : limit < b.step.2.machine.console.output.utf8ByteSize) :
    b.state.halted = false ∧ b.state.Prints := by
  cases hh : b.state.halted with
  | true =>
    rw [step_of_halted hh] at hover
    exact absurd hle (Nat.not_le.mpr hover)
  | false =>
    refine ⟨rfl, State.emission_ne_iff.mp ?_⟩
    intro hempty
    rw [output_step hrecord hh, hempty, String.append_empty] at hover
    omega

/-- The step that writes beyond the limit fails and leaves the session stuck. -/
theorem jammed_of_overflow (hrecord : b.config.record = false) (hdebug : b.config.debug = false)
    (hle : b.machine.console.output.utf8ByteSize ≤ limit)
    (hover : limit < b.step.2.machine.console.output.utf8ByteSize) :
    (b.onto (Buffered.poured limit)).step.1 = .error (.io b.state.cursor.position .full) ∧
      Jammed b.state.cursor.position
        (b.step.2.machine.console.output.toUTF8.data.toList.take limit)
        b.state.outputLength (b.onto (Buffered.poured limit)).step.2 := by
  obtain ⟨hh, hprints⟩ := prints_of_overflow hrecord hle hover
  rw [output_step hrecord hh] at hover ⊢
  have hfull : (b.machine.console.output ++ b.state.emission).toUTF8.data.toList.length =
      (b.machine.console.output ++ b.state.emission).utf8ByteSize := rfl
  rw [step_of_refused (t := b.onto (Buffered.poured limit)) hrecord hdebug hh hprints
    (Buffered.write_poured_of_overflow hle hover)]
  refine ⟨rfl, ?_⟩
  exact {
    record := hrecord
    debug := hdebug
    halted := hh
    prints := hprints
    position := rfl
    full := by rw [List.length_take, hfull, Nat.min_eq_left (Nat.le_of_lt hover)]
    written := rfl
    outputLength := rfl }

theorem jammed_stepTimes (hrecord : b.config.record = false) (hdebug : b.config.debug = false)
    (hle : (b.printed m).utf8ByteSize ≤ limit)
    (hover : limit < (b.printed (m + 1)).utf8ByteSize) (i : Nat) :
    Jammed (b.stepTimes m).2.state.cursor.position
      ((b.printed (m + 1)).toUTF8.data.toList.take limit) (b.stepTimes m).2.state.outputLength
      ((b.onto (Buffered.poured limit)).stepTimes (m + 1 + i)).2 := by
  have hconfig := config_stepTimes m b
  rw [printed_succ] at hover ⊢
  rw [stepTimes_add, stepTimes_succ, stepTimes_onto_poured hrecord hdebug m hle]
  exact (jammed_of_overflow (hconfig ▸ hrecord) (hconfig ▸ hdebug) hle hover).2.stepTimes i

/-- From the step on that writes beyond the limit, steps fail at its place. -/
theorem answer_of_overflow (hrecord : b.config.record = false) (hdebug : b.config.debug = false)
    (hle : (b.printed m).utf8ByteSize ≤ limit)
    (hover : limit < (b.printed (m + 1)).utf8ByteSize) {i : Nat} (hi : m ≤ i) :
    ((b.onto (Buffered.poured limit)).stepTimes i).2.step.1 =
      .error (.io (b.stepTimes m).2.state.cursor.position .full) := by
  rcases Nat.eq_or_lt_of_le hi with rfl | hlt
  · have hconfig := config_stepTimes m b
    rw [printed_succ] at hover
    rw [stepTimes_onto_poured hrecord hdebug m hle]
    exact (jammed_of_overflow (hconfig ▸ hrecord) (hconfig ▸ hdebug) hle hover).1
  · obtain ⟨j, rfl⟩ := Nat.exists_eq_add_of_le hlt
    exact (jammed_stepTimes hrecord hdebug hle hover j).step.1

theorem exists_last_fitting (hstart : (b.printed 0).utf8ByteSize ≤ limit) {n : Nat}
    (hover : limit < (b.printed n).utf8ByteSize) :
    ∃ m, m < n ∧ (b.printed m).utf8ByteSize ≤ limit ∧
      limit < (b.printed (m + 1)).utf8ByteSize := by
  induction n with
  | zero => omega
  | succ n ih =>
    rcases Nat.lt_or_ge limit (b.printed n).utf8ByteSize with hn | hn
    · obtain ⟨m, hm, hfits⟩ := ih hn
      exact ⟨m, by omega, hfits⟩
    · exact ⟨n, by omega, hn, hover⟩

end Overflow

/-- A full sink only cuts the output short. Take a program that runs without a limit on its output,
and give it a sink with room for `k` bytes. If all that it writes in `n` steps fits, it notices
nothing. Otherwise it notices nothing up to the first step that writes beyond the limit, and that
step and all that are tried after it fail at its place: the sink is left with the first `k` bytes of
the output, and the output length counts the bytes of the steps before. -/
theorem full_sink_cuts_output (field : Playfield) (input : List UInt8) (directions : Directions)
    (config : Config) (hrecord : config.record = false) (hdebug : config.debug = false)
    (k n : Nat) :
    let free := start field ({ input } : Stream) directions config
    let tight := start field ({ input, output := { capacity := some k } } : Stream) directions
      config
    let written := fun i => (free.stepTimes i).2.machine.console.output.written.toList
    ((written n).length ≤ k →
        (tight.stepTimes n).1 = (free.stepTimes n).1 ∧
        (tight.stepTimes n).2 = (free.stepTimes n).2.onto (Stream.limited k)) ∧
      (k < (written n).length →
        ∃ m, m < n ∧ k < (written (m + 1)).length ∧
          (∀ i, i ≤ m → (written i).length ≤ k ∧
            (tight.stepTimes i).1 = (free.stepTimes i).1 ∧
            (tight.stepTimes i).2 = (free.stepTimes i).2.onto (Stream.limited k)) ∧
          ((free.stepTimes m).2.state.instruction? = some .outputNumber ∨
            (free.stepTimes m).2.state.instruction? = some .outputChar) ∧
          ∀ i, m ≤ i →
            (tight.stepTimes i).2.step.1 =
              .error (.io (free.stepTimes m).2.state.cursor.position .full) ∧
            (tight.stepTimes (i + 1)).2.machine.console.output.written.toList =
              (written n).take k ∧
            (tight.stepTimes (i + 1)).2.state.outputLength = (written m).length) := by
  intro free tight written
  -- both runs are told by the one in memory: `free` throughout, `tight` as long as all output fits
  let b := start field (Buffered.ofInput input) directions config
  have htight : tight = b.onto (Buffered.poured k) := rfl
  have hfree : ∀ i, free.stepTimes i =
      ((b.stepTimes i).1, (b.stepTimes i).2.onto Buffered.streamed) :=
    fun i => (stepTimes_onto (s := b) Buffered.respects_streamed rfl i).1
  have hwritten : ∀ i, written i = (b.printed i).toUTF8.data.toList := by
    intro i
    simp only [written, hfree]
    rfl
  have hlength : ∀ i, (written i).length = (b.printed i).utf8ByteSize := by
    intro i
    rw [hwritten]
    rfl
  have hfits : ∀ i, (written i).length ≤ k →
      (tight.stepTimes i).1 = (free.stepTimes i).1 ∧
        (tight.stepTimes i).2 = (free.stepTimes i).2.onto (Stream.limited k) := by
    intro i hi
    rw [hlength] at hi
    rw [htight, stepTimes_onto_poured hrecord hdebug i hi, hfree]
    exact ⟨rfl, rfl⟩
  refine ⟨hfits n, ?_⟩
  intro hover
  rw [hlength] at hover
  obtain ⟨m, hmn, hm, hnext⟩ := exists_last_fitting (Nat.zero_le k) hover
  refine ⟨m, hmn, by rw [hlength]; exact hnext, ?_, ?_, ?_⟩
  · intro i hi
    have hle : (written i).length ≤ k := by
      rw [hlength]
      exact Nat.le_trans (printed_le hrecord hi) hm
    exact ⟨hle, hfits i hle⟩
  · rw [hfree]
    rw [printed_succ] at hnext
    exact (prints_of_overflow (config_stepTimes m b ▸ hrecord) hm hnext).2
  · intro i hi
    obtain ⟨j, rfl⟩ := Nat.exists_eq_add_of_le hi
    have hjam := jammed_stepTimes hrecord hdebug hm hnext j
    rw [Nat.add_right_comm] at hjam
    rw [htight, hfree, hlength, hwritten, take_printed hrecord hmn (Nat.le_of_lt hnext),
      ← outputLength_stepTimes hrecord rfl m]
    exact ⟨answer_of_overflow hrecord hdebug hm hnext hi, hjam.written, hjam.outputLength⟩

/-- A sink with room for two bytes is left with a digit and the first half of a letter. -/
theorem full_sink_cuts_output_in_letter :
    ∃ m, m < 8 ∧ ∀ i, m ≤ i →
      ((start (.load "1.\"é\",@") ({ input := [], output := { capacity := some 2 } } : Stream)
        (.ofScript []) {}).stepTimes (i + 1)).2.machine.console.output.written.toList =
        [0x31, 0xc3] := by
  have hfree : ((start (.load "1.\"é\",@") ({ input := [] } : Stream)
      (.ofScript []) {}).stepTimes 8).2.machine.console.output.written.toList =
      [0x31, 0xc3, 0xa9] := by
    decide +kernel
  obtain ⟨m, hm, -, -, -, hafter⟩ := (full_sink_cuts_output (.load "1.\"é\",@") [] (.ofScript []) {}
    rfl rfl 2 8).2 (by simp only [hfree]; decide)
  refine ⟨m, hm, ?_⟩
  intro i hi
  have hcut := (hafter i hi).2.1
  simp only [hfree] at hcut
  exact hcut

end Session

end Befunge
