import Befunge.Console.Input

/-!
# A console over byte streams

Output and diagnostics go to sinks. A sink may hold a limited number of bytes, and it may refuse to
be flushed. The output is flushed before every read, so that a prompt is seen before the answer is
waited for.
-/

namespace Befunge

structure Sink where
  written : Array UInt8 := #[]
  /-- Bytes the sink takes in all, if limited. -/
  capacity : Option Nat := none
  /-- Why the sink refuses to be flushed, if it does. -/
  refusal : Option String := none
  deriving DecidableEq, Repr

namespace Sink

/-- Writes as many bytes as fit; it is an error if some do not. -/
def write (bytes : List UInt8) : Sink → Attempt ConsoleError Sink Unit
  | ⟨written, capacity, refusal⟩ =>
    match capacity with
    | none => (.ok (), ⟨written.appendList bytes, none, refusal⟩)
    | some limit =>
      let room := limit - written.size
      if bytes.length ≤ room then (.ok (), ⟨written.appendList bytes, some limit, refusal⟩)
      else (.error .full, ⟨written.appendList (bytes.take room), some limit, refusal⟩)

def flush (s : Sink) : Except ConsoleError Unit :=
  match s.refusal with
  | none => .ok ()
  | some reason => .error (.other reason)

end Sink

structure Stream where
  input : List UInt8 := []
  output : Sink := {}
  diagnostics : Sink := {}
  deriving DecidableEq, Repr

namespace Stream

def readLine : Stream → Attempt ConsoleError Stream (Option (List Char))
  | ⟨input, output, diagnostics⟩ =>
    match output.flush with
    | .error e => (.error e, ⟨input, output, diagnostics⟩)
    | .ok () => (Input.readLine input).within id (⟨·, output, diagnostics⟩)

def readChar : Stream → Attempt ConsoleError Stream (Option Char)
  | ⟨input, output, diagnostics⟩ =>
    match output.flush with
    | .error e => (.error e, ⟨input, output, diagnostics⟩)
    | .ok () =>
      let (c, input) := Input.readChar input
      (.ok c, ⟨input, output, diagnostics⟩)

def write (text : String) : Stream → Attempt ConsoleError Stream Unit
  | ⟨input, output, diagnostics⟩ =>
    (output.write (Text.Utf8.encode text.toList)).within id (⟨input, ·, diagnostics⟩)

def diagnose (text : String) : Stream → Attempt ConsoleError Stream Unit
  | ⟨input, output, diagnostics⟩ =>
    (diagnostics.write (Text.Utf8.encode text.toList)).within id (⟨input, output, ·⟩)

def flush (s : Stream) : Attempt ConsoleError Stream Unit :=
  match s.output.flush with
  | .error e => (.error e, s)
  | .ok () => (s.diagnostics.flush, s)

instance : Console Stream where
  readLine := readLine
  readChar := readChar
  write := write
  diagnose := diagnose
  flush := flush
  captured? _ := none
  truncate _ s := s

end Stream

end Befunge
