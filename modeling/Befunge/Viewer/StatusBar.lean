import Befunge.Screen.Widget
import Befunge.State
import Befunge.Viewer.Theme

/-!
# The status bar

On the left the place in the history and a message, on the right the keys and what the program is
doing.
-/

namespace Befunge.Viewer

open Screen

structure StatusView where
  message : String
  current : Nat
  total : Nat
  mode : Mode
  halted : Bool
  playing : Bool
  stoppedEarly : Bool

namespace StatusView

def plain : Style := { fg := Theme.text, bg := Theme.barBackground }

def separator : Style := { fg := Theme.grey, bg := Theme.barBackground }

def key : Style := { fg := Colour.black, bg := Theme.grey }

def badge (bg : Colour) : Style := { fg := Colour.black, bg, bold := true }

def left (v : StatusView) : List Ink :=
  span (" Step " ++ toString (v.current + 1) ++ "/" ++ toString (max v.total 1) ++ " ")
      (badge (if v.stoppedEarly then Theme.red else Theme.blue)) ++
    span " | " separator ++ span (" " ++ v.message ++ " ") plain

def indicator (text : String) (bg : Colour) : List Ink := span "│" separator ++ span text (badge bg)

/-- One indicator for what the program is doing: playing goes before halted, halted before the ends
of the history. -/
def activity (v : StatusView) : List Ink :=
  if v.playing then indicator " ▶ PLAYING " Theme.orange
  else if v.halted then indicator " @ HALTED " Theme.red
  else if v.total ≤ v.current + 1 then indicator " END " Theme.red
  else if v.current = 0 then indicator " START " Theme.green
  else []

def right (v : StatusView) : List Ink :=
  span " ←/→ " key ++ span " step " plain ++ span "│" separator ++ span " " plain ++
    span " ⎵ " key ++ span " play " plain ++ span "│" separator ++ span " " plain ++
    span " ↵ / ⌫ " key ++ span " end/start " plain ++ span "│" separator ++ span " " plain ++
    span "q" key ++ span " quit " plain ++
    (if v.mode = .string then indicator " \" STRING " Theme.orange else []) ++ v.activity

/-- Each side has one half of the bar. -/
def widgets (v : StatusView) (a : Area) : Frame :=
  let half := (a.width + 1) / 2
  let ground : Style := { bg := Theme.barBackground }
  [(.paragraph none [v.left] ground false, { a with width := half }),
    (.paragraph none [v.right] ground true,
      { a with x := a.x + half, width := a.width - half })]

end StatusView

end Befunge.Viewer
