import Befunge.Command.Report

/-!
# The command

The outer layer: arguments, files and the streams of the process. A plain run is carried out step
by step, so that output is seen before input is waited for.
-/

namespace Befunge.Command

def awaitsInput (s : Session Stream) : Bool :=
  let i := Instruction.decode s.state.current
  !s.state.halted && s.state.mode = .normal && s.machine.console.input.isEmpty &&
    (i = .inputNumber || i = .inputChar)

def emptied (s : Session Stream) : Session Stream :=
  { s with machine.console.output.written := #[], machine.console.diagnostics.written := #[] }

def supplied (s : Session Stream) (bytes : List UInt8) : Session Stream :=
  { s with machine.console.input := s.machine.console.input ++ bytes }

/-- Sends what has been written to the streams of the process. -/
def drain (s : Session Stream) : IO (Session Stream) := do
  let out ← IO.getStdout
  let err ← IO.getStderr
  out.write ⟨s.machine.console.output.written⟩
  err.write ⟨s.machine.console.diagnostics.written⟩
  out.flush
  err.flush
  return emptied s

partial def readLine (input : IO.FS.Stream) (line : Array UInt8) : IO (Array UInt8) := do
  match (← input.read 1).toList with
  | [b] => if b = 10 then return line.push b else readLine input (line.push b)
  | _ => return line

/-- Runs to the end, supplying input as it is asked for. -/
partial def drive (s : Session Stream) (ended : Bool) : IO (Session.Ending Stream) := do
  match s.exhausted? with
  | some limit => return s.finish (.error (.stepLimit limit))
  | none =>
    if awaitsInput s && !ended then
      let s ← drain s
      let line ← readLine (← IO.getStdin) #[]
      drive (supplied s line.toList) line.isEmpty
    else
      match s.step with
      | (.error f, s) => return s.finish (.error f)
      | (.ok .halt, s) => return s.finish (.ok ())
      | (.ok .proceed, s) =>
        let ⟨_, output, diagnostics⟩ := s.machine.console
        let pending := output.written.size + diagnostics.written.size
        drive (← if 4096 ≤ pending then drain s else pure s) ended

def readFile (path : String) : IO (Option (List UInt8)) := do
  try
    return some (← IO.FS.readBinFile path).toList
  catch _ => return none

def entropy : IO Directions := do
  let bytes ← IO.getRandomBytes 8
  return ChaCha.directions (UInt64.ofNat (bytes.toList.foldl (fun n b => 256 * n + b.toNat) 0))

/-- Prints a report. There is no terminal here that a viewer could be opened on. -/
def say (r : Report) : IO UInt32 := do
  IO.print r.stdout
  IO.eprint r.stderr
  if r.viewer.isSome then IO.eprintln "Error: no terminal"
  return UInt32.ofNat r.exitWithoutTerminal

def perform (o : Options) : IO UInt32 := do
  let other ← entropy
  let source ← readFile o.program
  let input ← match o.input with
    | some path => readFile path
    | none => pure none
  match o.tui, source with
  | false, some source =>
    let ending ← drive (o.session source {} other) false
    discard (drain ending.session)
    say (verdict ending.result)
  | _, _ =>
    let files (path : String) : Option (List UInt8) := if path = o.program then source else input
    match run files [] other o with
    | some r => say r
    | none => return 0

end Befunge.Command

def main (args : List String) : IO UInt32 :=
  match Befunge.Command.Request.ofArgs args with
  | .run o => Befunge.Command.perform o
  | request =>
    match Befunge.Command.execute (fun _ => none) [] (.ofScript []) request with
    | some r => Befunge.Command.say r
    | none => return 0
