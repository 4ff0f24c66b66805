import Befunge.Console.Buffered
import Befunge.Session.Navigate
import Befunge.Session.Run
import Befunge.Viewer.FieldPane
import Befunge.Viewer.Key
import Befunge.Viewer.Layout
import Befunge.Viewer.OutputPane
import Befunge.Viewer.StackPane
import Befunge.Viewer.StatusBar

/-!
# The viewer

Browses a recorded run: keys move through the history, a clock plays it, and every frame shows the
moment reached. The record itself never changes.
-/

namespace Befunge

structure Viewer where
  session : Session Buffered
  focus : Viewer.Focus := .field
  stackScroll : Nat := 0
  outputScroll : Nat := 0
  quitting : Bool := false
  status : String := "Ready!"
  stoppedEarly : Bool := false
  playing : Bool := false

namespace Viewer

open Screen

/-- A session run to its end and taken back to its start. -/
structure Recording where
  ending : Session.Ending Buffered
  rewound : Except Fault Unit
  session : Session Buffered

/-- Runs a session to its end and takes it back; `none` if it has no end. -/
def record (s : Session Buffered) : Option Recording :=
  s.run.map fun ending =>
    match ending.session.rewind with
    | .ok s => ⟨ending, .ok (), s⟩
    | .error f => ⟨ending, .error f, ending.session⟩

def ofRecording (s : Session Buffered) (stoppedEarly : Bool) : Viewer :=
  { session := s, stoppedEarly }

/-- Shows a session, with the end of its output in view. -/
def goTo (v : Viewer) (s : Session Buffered) (status : String) : Viewer :=
  { v with session := s, status, outputScroll := farthest }

/-- Goes where a navigation leads, or says why it leads nowhere. -/
def move (v : Viewer) (target : Except Fault (Session Buffered)) (done refused : String) :
    Viewer :=
  match target with
  | .ok s => v.goTo s done
  | .error (.navigation reason) => { v with status := refused ++ reason }
  | .error f => { v with status := "Error: " ++ f.message }

/-- Goes where a navigation leads, or stays. -/
def jump (v : Viewer) (target : Except Fault (Session Buffered)) (status : String) : Viewer :=
  v.goTo (target.toOption.getD v.session) status

/-- Up to `n` states forward, and how many there were. -/
def forward : Nat → Session Buffered → Nat × Session Buffered
  | 0, s => (0, s)
  | n + 1, s =>
    match s.stepForward with
    | .ok s => let (k, s) := forward n s; (k + 1, s)
    | .error _ => (0, s)

def scrollUp (v : Viewer) : Viewer :=
  match v.focus with
  | .stack => { v with stackScroll := v.stackScroll - 1 }
  | .output => { v with outputScroll := v.outputScroll - 1 }
  | .field => v

def scrollDown (v : Viewer) : Viewer :=
  match v.focus with
  | .stack => { v with stackScroll := min (v.stackScroll + 1) farthest }
  | .output => { v with outputScroll := min (v.outputScroll + 1) farthest }
  | .field => v

def togglePlaying (v : Viewer) : Viewer :=
  if v.playing then { v with playing := false, status := "Paused" }
  else { v with playing := true, status := "Playing..." }

/-- Reacts to a character. The space bar counts only when it is `settled`, long enough after it was
pressed before. -/
def pressChar (v : Viewer) (settled : Bool) (c : Char) : Viewer :=
  if c = 'q' ∨ c = 'Q' then { v with quitting := true }
  else if c = ' ' then if settled then v.togglePlaying else v
  else if '1' ≤ c ∧ c ≤ '9' then
    let (stepped, s) := forward (c.toNat - '0'.toNat) v.session
    { v with playing := false }.goTo s ("Stepped forward " ++ toString stepped ++ " step(s)")
  else v

def press (v : Viewer) (settled : Bool) : Key → Viewer
  | .char c => v.pressChar settled c
  | .tab => { v with focus := v.focus.next }
  | .backTab => { v with focus := v.focus.previous }
  | .left =>
    { v with playing := false }.move v.session.stepBackward "Stepped backward"
      "Cannot step backward: "
  | .right =>
    { v with playing := false }.move v.session.stepForward "Stepped forward"
      "Cannot step forward: "
  | .up => v.scrollUp
  | .down => v.scrollDown
  | .enter => { v with playing := false }.jump v.session.jumpToEnd "Jumped to end"
  | .backspace => { v with playing := false }.jump v.session.rewind "Jumped to start"
  | .other => v

def play (v : Viewer) : Viewer :=
  match v.session.stepForward with
  | .ok s => v.goTo s "Playing..."
  | .error _ => { v with playing := false, status := "Playback complete" }

def fieldView (v : Viewer) : FieldView where
  field := v.session.state.field
  loaded := v.session.loaded
  cursor := v.session.state.cursor
  mode := v.session.state.mode
  profile := v.session.machine.profile
  steps := v.session.state.steps

def statusView (v : Viewer) : StatusView where
  message := v.status
  current := v.session.position
  total := v.session.history.length
  mode := v.session.state.mode
  halted := v.session.state.halted
  playing := v.playing
  stoppedEarly := v.stoppedEarly

/-- Draws a frame. The scroll offsets come back within the content. -/
def draw (v : Viewer) (width height : Nat) : Frame × Viewer :=
  let layout := Layout.ofSize width height
  let field := v.fieldView.widget layout.field (v.focus = .field)
  let (output, outputScroll) := OutputPane.widget v.session.visibleOutput layout.output.height
    (v.focus = .output) v.outputScroll
  let (stack, stackScroll) := StackPane.widget v.session.state.stack layout.stack.height
    (v.focus = .stack) v.stackScroll
  ((field, layout.field) :: (output, layout.output) :: (stack, layout.stack) ::
    v.statusView.widgets layout.status, { v with outputScroll, stackScroll })

/-- One turn of the viewer's loop, before it looks for a key: a frame, then a step of playing if it
is `due`. -/
def turn (v : Viewer) (due : Bool) (width height : Nat) : Viewer :=
  let v := (v.draw width height).2
  if !v.quitting && v.playing && due then v.play else v

end Viewer

end Befunge
