/-!
# Lines of a text

Two views of a text as lines: the parts between newlines, and the leading part that takes a given
number of bytes.
-/

namespace Befunge.Text

/-- The parts of a text between newlines. A final newline starts no further line. -/
def lines (text : List Char) : List (List Char) :=
  let parts := text.splitOn '\n'
  if parts.getLast? = some [] then parts.dropLast else parts

/-- A line without one carriage return at its end. -/
def chomp (line : List Char) : List Char :=
  if line.getLast? = some '\r' then line.dropLast else line

/-- How many leading characters take exactly `bytes` bytes in UTF-8, beyond `count` counted
already; `none` when the cut falls inside a character or past the end. -/
def charsIn? (bytes count : Nat) : List Char → Option Nat
  | [] => if bytes = 0 then some count else none
  | c :: rest =>
    if bytes = 0 then some count
    else if c.utf8Size ≤ bytes then charsIn? (bytes - c.utf8Size) (count + 1) rest
    else none

/-- The leading part of a text that takes exactly `bytes` bytes, if the cut falls between two
characters. -/
def takeBytes? (text : String) (bytes : Nat) : Option String :=
  (charsIn? bytes 0 text.toList).map fun n => String.ofList (text.toList.take n)

/-- Spaces to the left until the text has at least `n` characters. -/
def padLeft (n : Nat) (text : String) : String :=
  String.ofList (text.toList.leftpad n ' ')

end Befunge.Text
