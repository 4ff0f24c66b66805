import Befunge.Config

/-!
# Options of the command line

Arguments are taken from left to right, and the first one that is wrong, or that asks for help or
for the version, decides.
-/

namespace Befunge.Command

structure Options where
  program : String
  debug : Bool := false
  tui : Bool := false
  input : Option String := none
  maxSteps : Option Nat := none
  historyLimit : Nat := defaultHistoryLimit
  seed : Option Nat := none
  deriving DecidableEq, Repr

inductive Request where
  | run (options : Options)
  | help
  | version
  | invalid
  deriving DecidableEq, Repr

structure Draft where
  program : Option String := none
  debug : Bool := false
  tui : Bool := false
  input : Option String := none
  maxSteps : Option Nat := none
  historyLimit : Option Nat := none
  seed : Option Nat := none
  deriving DecidableEq, Repr

namespace Draft

/-- The options are complete when there is a program, and an input is given only to a recording. -/
def finish (d : Draft) : Request :=
  match d.program with
  | none => .invalid
  | some program =>
    if d.input.isSome && !d.tui then .invalid
    else .run {
      program
      debug := d.debug
      tui := d.tui
      input := d.input
      maxSteps := d.maxSteps
      historyLimit := d.historyLimit.getD defaultHistoryLimit
      seed := d.seed }

/-- Takes the program, which may be given once and not by an empty name. -/
def setProgram (d : Draft) (name : String) : Option Draft :=
  if d.program.isSome || name.isEmpty then none else some { d with program := name }

def setDebug (d : Draft) : Option Draft := if d.debug then none else some { d with debug := true }

def setTui (d : Draft) : Option Draft := if d.tui then none else some { d with tui := true }

/-- The number that digits write, in unsigned 64 bits, with at most one plus sign before them. -/
def word? (text : String) : Option Nat :=
  let digits := match text.toList with
    | '+' :: rest => rest
    | rest => rest
  if digits.isEmpty || !digits.all Char.isDigit then none
  else
    let n := digits.foldl (fun n c => 10 * n + (c.toNat - '0'.toNat)) 0
    if n < UInt64.size then some n else none

def setValue (d : Draft) (name value : String) : Option Draft :=
  match name with
  | "input" => if d.input.isSome || value.isEmpty then none else some { d with input := value }
  | "max-steps" =>
    if d.maxSteps.isSome then none else (word? value).map fun n => { d with maxSteps := n }
  | "snapshot-limit" =>
    if d.historyLimit.isSome then none else (word? value).map fun n => { d with historyLimit := n }
  | "seed" => if d.seed.isSome then none else (word? value).map fun n => { d with seed := n }
  | _ => none

end Draft

def splitLong (body : List Char) : String × Option String :=
  match body.span (· ≠ '=') with
  | (name, _ :: value) => (String.ofList name, some (String.ofList value))
  | (name, []) => (String.ofList name, none)

def takesValue (name : String) : Bool :=
  ["input", "max-steps", "snapshot-limit", "seed"].contains name

/-- Whether an argument stands for itself: it does not begin with a hyphen, or is nothing else. -/
def isPlain (arg : List Char) : Bool := arg.head? ≠ some '-' || arg = ['-']

def readShort (d : Draft) : List Char → Except Request Draft
  | [] => .ok d
  | 'd' :: rest =>
    match d.setDebug with
    | some d => readShort d rest
    | none => .error .invalid
  | 'h' :: _ => .error .help
  | 'V' :: _ => .error .version
  | _ => .error .invalid

def readPlain (d : Draft) : List String → Request
  | [] => d.finish
  | arg :: rest =>
    match d.setProgram arg with
    | some d => readPlain d rest
    | none => .invalid

def readFlag (d : Draft) (name : String) : Except Request Draft :=
  match name with
  | "help" => .error .help
  | "version" => .error .version
  | "debug" => d.setDebug.elim (.error .invalid) .ok
  | "tui" => d.setTui.elim (.error .invalid) .ok
  | _ => .error .invalid

def read (d : Draft) : List String → Request
  | [] => d.finish
  | arg :: rest =>
    match arg.toList with
    | ['-', '-'] => readPlain d rest
    | '-' :: '-' :: body =>
      match splitLong body with
      | (name, some value) => next (d.setValue name value) rest
      | (name, none) =>
        if takesValue name then
          match rest with
          | value :: rest =>
            if isPlain value.toList then next (d.setValue name value) rest else .invalid
          | [] => .invalid
        else
          match readFlag d name with
          | .ok d => read d rest
          | .error request => request
    | body =>
      if isPlain body then next (d.setProgram arg) rest
      else
        match readShort d body.tail with
        | .ok d => read d rest
        | .error request => request
where
  next (d : Option Draft) (rest : List String) : Request :=
    match d with
    | some d => read d rest
    | none => .invalid

def Request.ofArgs (args : List String) : Request := read {} args

end Befunge.Command
