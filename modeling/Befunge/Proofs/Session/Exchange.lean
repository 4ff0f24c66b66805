import Befunge.Proofs.Console.Reading
import Befunge.Proofs.Machine.Buffered
import Befunge.Proofs.Session.Streaming
import Befunge.Proofs.Text.Number
import Befunge.Proofs.Text.Scalar

/-!
# What one program writes another one reads

The output of a session is what its printing instructions wrote, one text after the other, and the
input of a session is used up by its reading instructions alone. So a program that is given the
output of another one for its input gets the values that the other one printed, each in its turn,
whatever else the two of them do in between.
-/

namespace Befunge

open Text

/-- A value printed as a number or as a character. -/
inductive Print where
  | number (v : Cell)
  | char (v : Cell)
  deriving DecidableEq, Repr

def Print.text : Print → List Char
  | .number v => v.decimal
  | .char v => [v.glyph]

/-- What the next cycle prints. -/
def State.print? (s : State) : Option Print :=
  match s.instruction? with
  | some .outputNumber => some (.number s.stack.peek)
  | some .outputChar => some (.char s.stack.peek)
  | _ => none

theorem State.toList_emission (s : State) : s.emission.toList = s.print?.elim [] Print.text := by
  unfold emission print?
  cases s.instruction? with
  | none => rfl
  | some i => cases i <;> simp [Print.text, Cell.toText]

namespace Session

section Passages

variable {π : Type} [Console π] {s : Session π} {n : Nat}

/-- The states before and after each cycle that `n` steps execute. -/
def passages : Nat → Session π → List (State × State)
  | 0, _ => []
  | n + 1, s => s.executedByStep.map (·, s.step.2.state) ++ passages n s.step.2

/-- What `n` steps print, in order. -/
def prints (n : Nat) (s : Session π) : List Print := (s.passages n).filterMap (·.1.print?)

/-- Those cycles of `n` steps that execute the instruction `i`. -/
def executions (i : Instruction) (n : Nat) (s : Session π) : List (State × State) :=
  (s.passages n).filter (·.1.instruction? = some i)

/-- In `n` steps the instruction `i` does nothing but push: these values, one at each execution, and
`last` when they are used up. -/
def PushesInTurn (i : Instruction) (values : List Cell) (last : Cell) (n : Nat) (s : Session π) :
    Prop :=
  ∀ (j : Nat) p, (s.executions i n)[j]? = some p →
    p.2 = (p.1.tick.push (values.getD j last)).advance

/-- A step without a recorded future executes one cycle of the machine or none. -/
theorem machine_of_step (hf : s.hasFuture = false) :
    s.executedByStep = [] ∧ s.step.2.machine = s.machine ∨
      s.executedByStep = [s.state] ∧
        s.step.2.machine = (s.machine.cycle s.config.debug).2 := by
  cases hrecord : s.config.record with
  | true =>
    have hcases := recordedStep_step hrecord
    generalize s.step = r at hcases ⊢
    cases hcases with
    | halted hh =>
      refine .inl ⟨?_, rfl⟩
      rw [executedByStep, if_pos hh]
    | unopened hh ho =>
      refine .inl ⟨?_, ?_⟩
      · rw [executedByStep, hh, if_neg Bool.false_ne_true, if_pos hrecord, ho]
      · rw [(eq_of_opened_error ho).1]
    | faulted hh ho hc | refused hh ho hc | recorded hh ho hc =>
      obtain ⟨hstate, hconfig⟩ := state_of_opened ho
      refine .inr ⟨?_, ?_⟩
      · rw [executedByStep_of_opened hrecord hh ho, hstate]
      · rw [← (machine_of_opened hf ho).1, ← hconfig, hc]
  | false =>
    cases hh : s.state.halted with
    | true =>
      refine .inl ⟨?_, ?_⟩
      · rw [executedByStep, if_pos hh]
      · rw [step_of_halted hh]
    | false =>
      refine .inr ⟨?_, ?_⟩
      · simp [executedByStep, hh, hrecord]
      · rcases hc : s.machine.cycle s.config.debug with ⟨r, m⟩
        rw [step_of_plain hrecord hh hc]

end Passages

theorem toList_output_stepTimes {s : Session Buffered} (hf : s.hasFuture = false) (n : Nat) :
    (s.stepTimes n).2.machine.console.output.toList =
      s.machine.console.output.toList ++ (s.prints n).flatMap Print.text := by
  induction n generalizing s with
  | zero => simp [stepTimes, prints, passages]
  | succ n ih =>
    have hnext : (s.stepTimes (n + 1)).2 = (s.step.2.stepTimes n).2 := rfl
    rw [hnext, ih (hasFuture_step hf), prints, prints, passages]
    rcases machine_of_step hf with ⟨hnone, hmachine⟩ | ⟨hone, hmachine⟩
    · rw [hnone, hmachine]
      simp
    · have hprint : ([(s.state, s.step.2.state)].filterMap (·.1.print?)).flatMap Print.text =
          s.state.emission.toList := by
        rw [State.toList_emission]
        cases hp : s.state.print? <;> simp [hp]
      rw [hone, hmachine, Machine.output_cycle, List.map_singleton, List.filterMap_append,
        List.flatMap_append, hprint, String.toList_append, List.append_assoc]
      rfl

section Feeds

variable {α : Type} {i : Instruction} {fed : List α → List UInt8} {value : α → Cell} {last : Cell}

/-- From bytes with these items in them the instruction `i` takes one item after the other and
pushes its value, and `last` when there is no item left. -/
def Feeds (i : Instruction) (fed : List α → List UInt8) (value : α → Cell) (last : Cell) : Prop :=
  ∀ (debug : Bool) (m : Machine Buffered) (items : List α),
    m.state.instruction? = some i → m.console.input = fed items →
      ∃ m', m.cycle debug = (.ok .proceed, m') ∧
        m'.state = (m.state.tick.push ((items.map value).headD last)).advance ∧
        m'.console.input = fed items.tail

theorem Feeds.pushesInTurn (h : Feeds i fed value last) {s : Session Buffered} {items : List α}
    {n : Nat} (hf : s.hasFuture = false) (hinput : s.machine.console.input = fed items)
    (honly : ∀ p ∈ s.passages n, p.1.instruction? = some .inputNumber ∨
      p.1.instruction? = some .inputChar → p.1.instruction? = some i) :
    s.PushesInTurn i (items.map value) last n := by
  intro j p hj
  induction n generalizing s items j with
  | zero => simp [executions, passages] at hj
  | succ n ih =>
    rw [executions, passages, List.filter_append] at hj
    rw [passages] at honly
    have hlater := fun p hp => honly p (List.mem_append_right _ hp)
    rcases machine_of_step hf with ⟨hnone, hmachine⟩ | ⟨hone, hmachine⟩
    · rw [hnone] at hj
      exact ih (hasFuture_step hf) (hmachine ▸ hinput) hlater j hj
    · rw [hone, List.map_singleton] at hj honly
      by_cases hi : s.state.instruction? = some i
      · obtain ⟨m', hcycle, hstate, hrest⟩ := h s.config.debug s.machine items hi hinput
        obtain rfl : s.step.2.machine = m' := by rw [hmachine, hcycle]
        rw [List.filter_cons_of_pos (by simpa using hi), List.filter_nil] at hj
        cases j with
        | zero =>
          obtain rfl := Option.some.inj hj
          rw [← List.headD_eq_getD]
          exact hstate
        | succ j =>
          have hnext := ih (hasFuture_step hf) hrest hlater j hj
          rwa [List.map_tail, List.getD_eq_getElem?_getD, List.getElem?_tail,
            ← List.getD_eq_getElem?_getD] at hnext
      · -- no other instruction that takes from the input is executed
        have hother := honly (s.state, s.step.2.state) List.mem_cons_self
        have hkept := Machine.input_cycle s.config.debug
          (fun hline => hi (hother (.inl hline))) (fun hchar => hi (hother (.inr hchar)))
        rw [List.filter_cons_of_neg (by simpa using hi)] at hj
        exact ih (hasFuture_step hf) (hmachine ▸ hkept.trans hinput) hlater j hj

def numberLines (values : List Cell) : List Char := values.flatMap fun v => v.decimal ++ ['\n']

theorem numberLines_cons (v : Cell) (values : List Cell) :
    numberLines (v :: values) = v.decimal ++ '\n' :: numberLines values := by
  simp [numberLines]

theorem feeds_lines : Feeds .inputNumber (Utf8.encode ∘ numberLines) id 0 := by
  intro debug m values hi hinput
  cases values with
  | nil => exact Machine.cycle_of_readLine debug hi (congrArg Input.readLine hinput)
  | cons v values =>
    have hread := Input.readLine_encode_newline (newline_not_mem_decimal v) (numberLines values)
    rw [← numberLines_cons, ← Function.comp_apply (f := Utf8.encode), ← hinput] at hread
    obtain ⟨m', hcycle, hstate, hrest⟩ := Machine.cycle_of_readLine debug hi hread
    refine ⟨m', hcycle, ?_, hrest⟩
    rw [hstate, Option.elim_some, number_decimal v (by simp)]
    rfl

theorem feeds_chars : Feeds .inputChar Utf8.encode Cell.ofChar (-1) := by
  intro debug m text hi hinput
  have hread := Input.readChar_encode text
  rw [← hinput] at hread
  obtain ⟨m', hcycle, hstate, hrest⟩ := Machine.cycle_of_readChar debug hi hread
  refine ⟨m', hcycle, ?_, hrest⟩
  rw [hstate]
  cases text <;> rfl

end Feeds

/-- What a program writes, another one reads back. Let a program print values, each as a number and
with a newline after it, and let another one that reads numbers only get the output for its input:
its requests push just these values, in their order, and 0 when there are no more. Let the values be
printed as characters and read as characters: those that are codes of characters come back, a
replacement character comes back for each other one, and -1 when there are no more. -/
theorem written_values_read_back (values : List Cell) (field field' : Playfield)
    (input : List UInt8) (directions directions' : Directions) (config config' : Config)
    (n k : Nat) :
    let writer := start field (Buffered.ofInput input) directions config
    let written := (writer.stepTimes n).2.machine.console.output
    let reader := start field' (Buffered.ofInput (Utf8.encode written.toList)) directions' config'
    (writer.prints n = values.flatMap (fun v => [.number v, .char 10]) →
      (∀ p ∈ reader.passages k, p.1.instruction? ≠ some .inputChar) →
      reader.PushesInTurn .inputNumber values 0 k) ∧
    (writer.prints n = values.map .char →
      (∀ p ∈ reader.passages k, p.1.instruction? ≠ some .inputNumber) →
      reader.PushesInTurn .inputChar (values.map fun v => if v.IsScalar then v else 65533) (-1)
        k) := by
  intro writer written reader
  have hwritten : written.toList = (writer.prints n).flatMap Print.text :=
    toList_output_stepTimes (s := writer) rfl n
  constructor
  · intro hprints honly
    have hinput : reader.machine.console.input = Utf8.encode (numberLines values) := by
      change Utf8.encode written.toList = _
      rw [hwritten, hprints, List.flatMap_assoc]
      rfl
    have hpushes := feeds_lines.pushesInTurn (s := reader) rfl hinput
      fun p hp hi => hi.resolve_right (honly p hp)
    rwa [List.map_id] at hpushes
  · intro hprints honly
    have hinput : reader.machine.console.input = Utf8.encode (values.map Cell.glyph) := by
      change Utf8.encode written.toList = _
      rw [hwritten, hprints, List.flatMap_map, List.map_eq_flatMap]
      rfl
    have hpushes := feeds_chars.pushesInTurn (s := reader) rfl hinput
      fun p hp hi => hi.resolve_left (honly p hp)
    rwa [List.map_map, funext (f := Cell.ofChar ∘ Cell.glyph) Cell.ofChar_glyph] at hpushes

/-- Two numbers are asked for three times, and so are two characters of which one has no code. -/
theorem written_values_read_back_thrice :
    let read (text program : String) : Session Buffered :=
      start (.load program) (Buffered.ofInput (Utf8.encode text.toList)) (.ofScript []) {}
    (read "2\n-2\n" "&&&@").PushesInTurn .inputNumber [2, -2] 0 3 ∧
      (read "☺\ufffd" "~~~@").PushesInTurn .inputChar [0x263a, 65533] (-1) 3 ∧
      (read "☺\ufffd" "~~~@" |>.stepTimes 3).2.state.stack.toList = [0x263a, 65533, -1] := by
  intro read
  have hnumbers := (written_values_read_back [2, -2] (.load "64-.25*,46-.25*,@") (.load "&&&@") []
    (.ofScript []) (.ofScript []) {} {} 16 3).1
  have hchars := (written_values_read_back [0x263a, -1] (.load "\"☺\",01-,@") (.load "~~~@") []
    (.ofScript []) (.ofScript []) {} {} 8 3).2
  refine ⟨?_, ?_, ?_⟩
  · exact hnumbers (by decide +kernel) (by decide +kernel)
  · exact hchars (by decide +kernel) (by decide +kernel)
  · decide +kernel

end Session

end Befunge
