import Befunge.Session.Basic

/-!
# Running to the end

A run repeats steps until the program halts or faults, or until the step budget is used up.
-/

namespace Befunge.Session

variable {π : Type}

/-- The step budget, once it is used up by a program that has not halted. -/
def exhausted? (s : Session π) : Option Nat :=
  s.config.maxSteps.filter fun limit => limit ≤ s.state.steps && !s.state.halted

/-- Enough fuel for every run that ends. A step budget bounds the steps, a history budget bounds
the states that can be recorded, and otherwise steps are counted by a 64-bit word. -/
def fuel (s : Session π) : Nat :=
  match s.config.maxSteps with
  | some limit => limit - s.state.steps + 1
  | none => if s.config.record then s.history.limit / 80 + 2 else UInt64.size

/-- How a run ended: what stopped it, whether its output could be flushed, and what it left. -/
structure Ending (π : Type) where
  stopped : Except Fault Unit
  flushed : Except Fault Unit
  session : Session π

/-- A fault that stopped the run counts before one of flushing. -/
def Ending.result (e : Ending π) : Except Fault Unit :=
  match e.stopped with
  | .ok () => e.flushed
  | .error f => .error f

variable [Console π]

/-- Repeats steps, at most `fuel` of them; `none` if the run has not ended by then. -/
def runFor : Nat → Session π → Option (Attempt Fault (Session π) Unit)
  | 0, _ => none
  | fuel + 1, s =>
    match s.exhausted? with
    | some limit => some (.error (.stepLimit limit), s)
    | none =>
      match s.step with
      | (.error f, s) => some (.error f, s)
      | (.ok .halt, s) => some (.ok (), s)
      | (.ok .proceed, s) => runFor fuel s

/-- Flushes the console, whether or not the run succeeded. -/
def finish (stopped : Except Fault Unit) : Session π → Ending π
  | ⟨config, loaded, ⟨state, console, directions, profile⟩, history, position⟩ =>
    let (flushed, console) := Console.flush console
    ⟨stopped, flushed.mapError (.io state.cursor.position),
      ⟨config, loaded, ⟨state, console, directions, profile⟩, history, position⟩⟩

/-- Runs the program to its end; `none` if it has none. -/
def run (s : Session π) : Option (Ending π) :=
  (s.runFor s.fuel).map fun (stopped, s) => s.finish stopped

end Befunge.Session
