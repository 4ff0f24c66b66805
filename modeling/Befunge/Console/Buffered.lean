import Befunge.Console.Input
import Befunge.Text.Lines

/-!
# A console in memory

Keeps its output as text, so that it can be shown and cut back. Writing never fails.
-/

namespace Befunge

structure Buffered where
  input : List UInt8 := []
  output : String := ""
  diagnostics : String := ""
  deriving DecidableEq, Repr

namespace Buffered

def ofInput (input : List UInt8) : Buffered := { input }

def readLine : Buffered → Attempt ConsoleError Buffered (Option (List Char))
  | ⟨input, output, diagnostics⟩ =>
    (Input.readLine input).within id (⟨·, output, diagnostics⟩)

def readChar : Buffered → Attempt ConsoleError Buffered (Option Char)
  | ⟨input, output, diagnostics⟩ =>
    let (c, input) := Input.readChar input
    (.ok c, ⟨input, output, diagnostics⟩)

def write (text : String) (b : Buffered) : Buffered := { b with output := b.output ++ text }

def diagnose (text : String) (b : Buffered) : Buffered :=
  { b with diagnostics := b.diagnostics ++ text }

/-- Cuts the output back to a number of bytes; a cut inside a character is not made. -/
def truncate (bytes : Nat) (b : Buffered) : Buffered :=
  { b with output := (Text.takeBytes? b.output bytes).getD b.output }

instance : Console Buffered where
  readLine := readLine
  readChar := readChar
  write text b := (.ok (), b.write text)
  diagnose text b := (.ok (), b.diagnose text)
  flush b := (.ok (), b)
  captured? b := some b.output
  truncate := truncate

end Buffered

end Befunge
