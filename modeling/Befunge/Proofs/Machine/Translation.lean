import Befunge.Proofs.Machine.Transition

/-!
# Machines over another console

A machine sees nothing of its console but what the operations answer. If a console taken for
another one answers like it and is left as what the other would stand for, a machine does the same
over either.
-/

namespace Befunge

variable {π ρ : Type}

/-- Taken for `f console`, a console answers to reading, to diagnostics and to the writing of `text`
as it does itself. -/
structure Console.Respects [Console π] [Console ρ] (f : π → ρ) (text : String) (console : π) :
    Prop where
  readLine : Console.readLine (f console) = (Console.readLine console).within id f
  readChar : Console.readChar (f console) = (Console.readChar console).within id f
  write : Console.write text (f console) = (Console.write text console).within id f
  diagnose : ∀ line, Console.diagnose line (f console) =
    (Console.diagnose line console).within id f

namespace Machine

/-- The same machine over another console. -/
def onto (f : π → ρ) (m : Machine π) : Machine ρ :=
  ⟨m.state, f m.console, m.directions, m.profile⟩

variable [Console π] [Console ρ] {f : π → ρ} {s : State} {text : String} {m : Machine π}

theorem diagnose_onto (h : Console.Respects f text m.console) (line : String) :
    (m.onto f).diagnose line = (m.diagnose line).within id (onto f) := by
  obtain ⟨state, console, directions, profile⟩ := m
  simp only [onto, diagnose, h.diagnose]
  rcases Console.diagnose line console with ⟨_ | _, console'⟩ <;> rfl

theorem trace_onto (h : Console.Respects f text m.console) (debug : Bool) (cell : Cell) :
    (m.onto f).trace debug cell = (m.trace debug cell).within id (onto f) := by
  cases debug with
  | false => rfl
  | true => exact diagnose_onto h _

theorem output_onto (toText : Cell → String)
    (h : Console.Respects f (toText m.state.stack.peek) m.console) :
    (m.onto f).output toText = (m.output toText).within id (onto f) := by
  obtain ⟨state, console, directions, profile⟩ := m
  have hwrite : Console.write (toText state.stack.peek) (f console) =
      (Console.write (toText state.stack.peek) console).within id f := h.write
  simp only [onto, output, emit, State.pop, hwrite]
  rcases Console.write (toText state.stack.peek) console with ⟨_ | _, console'⟩ <;> rfl

theorem execute_onto (h : Console.Respects f s.emission m.console) (debug : Bool)
    {i : Instruction} (hs : m.state = s.tick) (hi : s.instruction? = some i) :
    (m.onto f).execute debug i = (m.execute debug i).within id (onto f) := by
  have hpeek : m.state.stack.peek = s.stack.peek := by rw [hs]; rfl
  cases i with
  | dump =>
    cases debug with
    | false => rfl
    | true => exact diagnose_onto h _
  | inputNumber =>
    obtain ⟨state, console, directions, profile⟩ := m
    simp only [onto, execute, inputNumber, h.readLine]
    rcases Console.readLine console with ⟨_ | _, console'⟩ <;> rfl
  | inputChar =>
    obtain ⟨state, console, directions, profile⟩ := m
    simp only [onto, execute, inputChar, h.readChar]
    rcases Console.readChar console with ⟨_ | _, console'⟩ <;> rfl
  | outputNumber =>
    simp only [State.emission, hi, ← hpeek] at h
    exact output_onto Cell.toText h
  | outputChar =>
    simp only [State.emission, hi, ← hpeek] at h
    exact output_onto (fun v => v.glyph.toString) h
  | arith op =>
    obtain ⟨state, console, directions, profile⟩ := m
    simp only [onto, execute, arith]
    split <;> rfl
  | _ =>
    simp only [execute, get_eq_ok, put_eq_ok]
    rfl

theorem act_onto (h : Console.Respects f s.emission m.console) (debug : Bool)
    (hs : m.state = s.tick) :
    (m.onto f).act debug s.current = (m.act debug s.current).within id (onto f) := by
  rw [act_eq debug hs, act_eq (m := m.onto f) debug hs]
  split
  · rfl
  · rfl
  · next hi =>
    rw [execute_onto h debug hs hi]
    exact Attempt.within_andThen fun _ _ => rfl

/-- A machine whose console is respected whatever it writes goes through its cycle over either. -/
theorem cycle_onto (h : ∀ text console, Console.Respects f text console) (debug : Bool)
    (m : Machine π) : (m.onto f).cycle debug = (m.cycle debug).within id (onto f) := by
  have htrace : (m.onto f).arrive.trace debug m.state.current =
      (m.arrive.trace debug m.state.current).within id (onto f) :=
    trace_onto (h "" m.arrive.console) debug m.state.current
  have hcurrent : (m.onto f).state.current = m.state.current := rfl
  rw [cycle_eq_attend, cycle_eq_attend, hcurrent]
  unfold attend
  rw [htrace]
  have hstate := state_trace debug m.state.current m.arrive
  rcases hr : m.arrive.trace debug m.state.current with ⟨e | _, m₁⟩
  · rfl
  · rw [hr] at hstate
    exact act_onto (s := m.state) (h _ m₁.console) debug hstate

end Machine

end Befunge
