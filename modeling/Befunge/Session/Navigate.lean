import Befunge.Session.Basic

/-!
# Moving through the recorded past

Navigation restores recorded states. It executes nothing, and it leaves the record, the console and
the profile alone.
-/

namespace Befunge.Session

variable {π : Type}

/-- Shows the state recorded at an index. -/
def restore (i : Nat) (s : Session π) : Except Fault (Session π) :=
  match s.history.get? i with
  | none => .error .notRecorded
  | some state => .ok { s with machine := { s.machine with state }, position := i }

def stepBackward (s : Session π) : Except Fault (Session π) :=
  if s.position = 0 then .error .atBeginning else s.restore (s.position - 1)

def stepForward (s : Session π) : Except Fault (Session π) :=
  if s.history.length ≤ s.position + 1 then .error .atEnd else s.restore (s.position + 1)

def rewind (s : Session π) : Except Fault (Session π) :=
  if s.history.length = 0 then .error .nothingRecorded else s.restore 0

def jumpToEnd (s : Session π) : Except Fault (Session π) :=
  if s.history.length = 0 then .error .nothingRecorded else s.restore (s.history.length - 1)

end Befunge.Session
