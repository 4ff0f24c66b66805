import Befunge.Instruction
import Befunge.Screen.Style

/-!
# The colours of the viewer
-/

namespace Befunge.Viewer.Theme

open Screen

def text : Colour := .rgb 205 214 244

def blue : Colour := .rgb 137 180 250

def orange : Colour := .rgb 250 179 135

def grey : Colour := .rgb 108 112 134

def green : Colour := .rgb 166 227 161

def red : Colour := .rgb 243 139 168

def mauve : Colour := .rgb 203 166 247

def yellow : Colour := .rgb 249 226 175

def teal : Colour := .rgb 148 226 213

def pink : Colour := .rgb 245 194 231

def barBackground : Colour := .rgb 50 50 70

def visitedBackground : Colour := .rgb 40 40 58

def ofCategory : Category → Colour
  | .flow => blue
  | .literal => orange
  | .io => green
  | .arithmetic => mauve
  | .stack => teal
  | .memory => yellow
  | .debug => red
  | .blank => text

/-- The border of a pane, brighter where the keys go. -/
def border (focused : Bool) : Style :=
  if focused then { fg := yellow, bold := true } else { fg := grey }

end Befunge.Viewer.Theme
