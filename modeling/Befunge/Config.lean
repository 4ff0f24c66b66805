/-!
# Settings of a run
-/

namespace Befunge

/-- The budget of a history unless another one is asked for: 256 MiB. -/
def defaultHistoryLimit : Nat := 256 * 1024 * 1024

def defaultRecordingSteps : Nat := 100000

structure Config where
  /-- Trace every step and obey the instruction that dumps the playfield. -/
  debug : Bool := false
  record : Bool := false
  historyLimit : Nat := defaultHistoryLimit
  /-- Steps after which a run that has not halted is stopped. -/
  maxSteps : Option Nat := none
  deriving DecidableEq, Repr

end Befunge
