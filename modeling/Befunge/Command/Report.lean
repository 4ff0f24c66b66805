import Befunge.Command.ChaCha
import Befunge.Command.Options
import Befunge.Console.Stream
import Befunge.Viewer.Basic

/-!
# What a command prints

A command is carried out on the files it may read and on the input it is given. A recording leaves
a viewer to be opened afterwards.
-/

namespace Befunge.Command

def helpText : String :=
"Befunge-93 interpreter with a time-travel viewer

Usage: fungetty [OPTIONS] <PROGRAM>

Arguments:
  <PROGRAM>  Befunge-93 program file

Options:
  -d, --debug                   Trace every step and enable `=` grid dumps on stderr
      --tui                     Record the run and browse it in the terminal viewer
      --input <FILE>            Input fed to `&` and `~` when recording for the viewer
      --max-steps <N>           Stop after this many steps
      --snapshot-limit <BYTES>  Snapshot history budget in bytes [default: 268435456]
      --seed <SEED>             Seed for `?`, making runs reproducible
  -h, --help                    Print help
  -V, --version                 Print version
"

def versionText : String := "fungetty 0.1.0\n"

def usageText : String :=
  "error: invalid arguments\n\nUsage: fungetty [OPTIONS] <PROGRAM>\n\n" ++
    "For more information, try '--help'.\n"

structure Report where
  exitCode : Nat
  stdout : String := ""
  stderr : String := ""
  viewer : Option Viewer := none

/-- The exit status where there is no terminal to browse on. -/
def Report.exitWithoutTerminal (r : Report) : Nat := if r.viewer.isSome then 1 else r.exitCode

namespace Options

/-- A recording always has a step budget. -/
def config (o : Options) : Config where
  debug := o.debug
  record := o.tui
  historyLimit := o.historyLimit
  maxSteps := if o.tui then some (o.maxSteps.getD defaultRecordingSteps) else o.maxSteps

/-- A seed decides over any other source of directions. -/
def directions (o : Options) (other : Directions) : Directions :=
  o.seed.elim other fun n => ChaCha.directions (UInt64.ofNat n)

def session {π : Type} (o : Options) (source : List UInt8) (console : π) (other : Directions) :
    Session π :=
  let text := String.ofList (Text.Utf8.decodeLossy source)
  .start (Playfield.load text) console (o.directions other) o.config

end Options

def notFound (path : String) : Report :=
  { exitCode := 1, stderr := "fungetty: file not found: " ++ path ++ "\n" }

def verdict : Except Fault Unit → Report
  | .ok () => { exitCode := 0 }
  | .error f => { exitCode := 2, stderr := "fungetty: " ++ f.message ++ "\n" }

def sinkText (s : Sink) : String := String.ofList (Text.Utf8.decodeLossy s.written.toList)

def ofEnding (e : Session.Ending Stream) : Report :=
  let r := verdict e.result
  let console := e.session.machine.console
  { r with stdout := sinkText console.output, stderr := sinkText console.diagnostics ++ r.stderr }

/-- The report of a recording: what is said before the viewer opens. -/
def ofRecording (r : Viewer.Recording) : Report :=
  let outcome := match r.ending.result with
    | .ok () =>
      "Execution completed successfully.\nTotal snapshots: " ++
        toString r.ending.session.history.length ++ "\n"
    | .error f =>
      "Runtime error: " ++ f.message ++ "\nEntering TUI with partial execution history...\n"
  let warning := match r.rewound with
    | .ok () => ""
    | .error f => "Warning: Failed to rewind to start: " ++ f.message ++ "\n"
  { exitCode := 0
    stderr := "Recording execution...\n" ++ outcome ++ warning
    viewer := some (.ofRecording r.session (r.ending.result matches .error _)) }

/-- Carries out a run; `none` if the program has no end. -/
def run (files : String → Option (List UInt8)) (stdin : List UInt8) (other : Directions)
    (o : Options) : Option Report :=
  match files o.program with
  | none => some (notFound o.program)
  | some source =>
    if o.tui then
      match o.input with
      | none => (Viewer.record (o.session source (Buffered.ofInput []) other)).map ofRecording
      | some path =>
        match files path with
        | none => some (notFound path)
        | some input =>
          (Viewer.record (o.session source (Buffered.ofInput input) other)).map ofRecording
    else (o.session source { input := stdin : Stream } other).run.map ofEnding

def execute (files : String → Option (List UInt8)) (stdin : List UInt8) (other : Directions) :
    Request → Option Report
  | .run o => run files stdin other o
  | .help => some { exitCode := 0, stdout := helpText }
  | .version => some { exitCode := 0, stdout := versionText }
  | .invalid => some { exitCode := 2, stderr := usageText }

end Befunge.Command
