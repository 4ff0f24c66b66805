import Befunge.Console.Basic
import Befunge.History
import Befunge.Instruction

/-!
# Faults

Everything that stops a run or refuses a request, with its text.
-/

namespace Befunge

inductive Fault where
  | divisionByZero (op : Operator) (position : Position)
  /-- The console failed while the cell at this position was executed. -/
  | io (position : Position) (error : ConsoleError)
  /-- A cell off the field was read or written. -/
  | outside (position : Position)
  | stepLimit (limit : Nat)
  | historyFull (overflow : Overflow)
  /-- There is nothing recorded where a navigation leads. -/
  | navigation (reason : String)
  deriving DecidableEq, Repr

namespace Fault

def message : Fault → String
  | .divisionByZero .mod p => "Modulo by zero at " ++ p.toText
  | .divisionByZero _ p => "Division by zero at " ++ p.toText
  | .io p e => "I/O failure at " ++ p.toText ++ ": " ++ e.message
  | .outside p =>
    "cell (" ++ toString p.x ++ ", " ++ toString p.y ++ ") out of bounds"
  | .stepLimit n => "step limit of " ++ toString n ++ " exceeded without reaching '@'"
  | .historyFull o =>
    "snapshot memory limit exceeded: " ++ toString o.used ++ " bytes used, limit is " ++
      toString o.limit
  | .navigation reason => reason

def position? : Fault → Option Position
  | .divisionByZero _ p => some p
  | .io p _ => some p
  | .outside p => some p
  | _ => none

def atBeginning : Fault := .navigation "Already at the beginning of execution"

def atEnd : Fault := .navigation "No more snapshots available (execution finished)"

def nothingRecorded : Fault := .navigation "No snapshots available"

def notRecorded : Fault := .navigation "Snapshot not found in history"

end Fault

end Befunge
