import Befunge.Config
import Befunge.Machine
import Befunge.Text.Lines

/-!
# Sessions

A machine together with its recorded past. A step taken in the past drops the recorded future, with
the output and the visits that belong to it, and goes on recording from there.
-/

namespace Befunge

structure Session (π : Type) where
  config : Config
  /-- The playfield as it was loaded. -/
  loaded : Playfield
  machine : Machine π
  history : History
  /-- The index in the history of the state that is shown. -/
  position : Nat := 0

namespace Session

variable {π : Type}

def start (field : Playfield) (console : π) (directions : Directions) (config : Config) :
    Session π where
  config := config
  loaded := field
  machine := ⟨.initial field, console, directions, .empty⟩
  history := .empty config.historyLimit

def state (s : Session π) : State := s.machine.state

def record : Session π → Attempt Fault (Session π) Unit
  | ⟨config, loaded, machine, history, position⟩ =>
    match history.push machine.state with
    | (.ok (), history) => (.ok (), ⟨config, loaded, machine, history, history.length - 1⟩)
    | (.error overflow, history) =>
      (.error (.historyFull overflow), ⟨config, loaded, machine, history, position⟩)

/-- Whether states are recorded beyond the one shown. -/
def hasFuture (s : Session π) : Bool := s.position + 1 < s.history.length

variable [Console π]

/-- Drops the states recorded beyond the one shown, with their output and their visits. -/
def discardFuture (s : Session π) : Session π :=
  if s.hasFuture then
    match s with
    | ⟨config, loaded, ⟨state, console, directions, profile⟩, history, position⟩ =>
      ⟨config, loaded,
        ⟨state, Console.truncate state.outputLength console, directions,
          profile.forget state.steps⟩,
        history.truncate (position + 1), position⟩
  else s

def cycle : Session π → Attempt Fault (Session π) Outcome
  | ⟨config, loaded, machine, history, position⟩ =>
    (machine.cycle config.debug).within id (⟨config, loaded, ·, history, position⟩)

/-- Records the state before the first step, if nothing is recorded. -/
def recordStart (s : Session π) : Attempt Fault (Session π) Unit :=
  if s.history.length = 0 then s.record else (.ok (), s)

/-- One cycle with the state after it recorded. -/
def recordedStep (s : Session π) : Attempt Fault (Session π) Outcome :=
  s.discardFuture.recordStart.andThen fun _ s =>
    s.cycle.andThen fun outcome s =>
      s.record.andThen fun _ s => (.ok outcome, s)

/-- One step. A halted program stays as it is. -/
def step (s : Session π) : Attempt Fault (Session π) Outcome :=
  if s.state.halted then (.ok .halt, s)
  else if s.config.record then s.recordedStep
  else s.cycle

/-- The output up to the shown point of the history. A console that keeps none shows none. -/
def visibleOutput (s : Session π) : String :=
  let captured := (Console.captured? s.machine.console).getD ""
  (Text.takeBytes? captured s.state.outputLength).getD captured

end Session

end Befunge
