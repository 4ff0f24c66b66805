import Befunge.Session.Run

/-!
# The journal

What a session tells an observer about its work, apart from results: cuts made while loading,
futures dropped, faults met, runs ended. Entries are read off from what went in and what came out.
-/

namespace Befunge

inductive Event where
  | cut (c : Playfield.Cut)
  | halted (steps : Nat)
  | stopped (steps : Nat) (fault : Fault)
  | divisionByZero (op : Operator) (position : Position)
  | futureDropped (kept dropped : Nat)
  | historyFull (overflow : Overflow)
  deriving DecidableEq, Repr

namespace Event

def message : Event → String
  | .cut (.lines count) =>
    "WARN program has more lines than the grid, truncating lines=" ++ toString count ++ " kept=" ++
      toString height
  | .cut (.line row length) =>
    "WARN program line is wider than the grid, truncating row=" ++ toString row ++ " width=" ++
      toString length ++ " kept=" ++ toString width
  | .halted steps => "INFO program halted steps=" ++ toString steps
  | .stopped steps fault =>
    "WARN execution stopped steps=" ++ toString steps ++ " error=" ++ fault.message
  | .divisionByZero op p =>
    "ERROR division by zero position=" ++ p.toText ++ " op=" ++ op.symbol.toString
  | .futureDropped kept dropped =>
    "DEBUG discarding recorded future keep=" ++ toString kept ++ " dropped=" ++ toString dropped
  | .historyFull overflow => "WARN snapshot history full " ++ overflow.message

end Event

namespace Journal

def ofLoad (text : String) : List Event := (Playfield.cuts text).map .cut

def ofFault : Fault → List Event
  | .divisionByZero op p => [.divisionByZero op p]
  | .historyFull overflow => [.historyFull overflow]
  | _ => []

def ofResult {α : Type} : Except Fault α → List Event
  | .ok _ => []
  | .error f => ofFault f

variable {π : Type}

/-- What a step from this session drops. -/
def ofDiscard (s : Session π) : List Event :=
  if !s.state.halted && s.config.record && s.hasFuture then
    [.futureDropped (s.position + 1) (s.history.length - (s.position + 1))]
  else []

/-- A run drops a future only with its first step, and not if it takes none. -/
def ofRunStart (s : Session π) : List Event := if s.exhausted?.isSome then [] else ofDiscard s

def ofEnding (e : Session.Ending π) : List Event :=
  ofResult e.stopped ++
    [match e.stopped with
      | .ok () => .halted e.session.state.steps
      | .error f => .stopped e.session.state.steps f]

end Journal

end Befunge
