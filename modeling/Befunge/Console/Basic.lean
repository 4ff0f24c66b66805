import Befunge.Attempt

/-!
# Consoles

The machine meets the world through a console: lines and characters come in, program output and
diagnostics go out.
-/

namespace Befunge

inductive ConsoleError where
  /-- A line of input is not UTF-8. -/
  | invalidText
  | full
  | other (reason : String)
  deriving DecidableEq, Repr

def ConsoleError.message : ConsoleError → String
  | .invalidText => "stream did not contain valid UTF-8"
  | .full => "failed to write whole buffer"
  | .other reason => reason

class Console (π : Type) where
  /-- One line with its newline; `none` at the end of the input. -/
  readLine : π → Attempt ConsoleError π (Option (List Char))
  /-- One character; `none` at the end of the input. -/
  readChar : π → Attempt ConsoleError π (Option Char)
  write : String → π → Attempt ConsoleError π Unit
  diagnose : String → π → Attempt ConsoleError π Unit
  flush : π → Attempt ConsoleError π Unit
  /-- All output written so far, if the console keeps it. -/
  captured? : π → Option String
  /-- Forgets kept output past a number of bytes. -/
  truncate : Nat → π → π

end Befunge
