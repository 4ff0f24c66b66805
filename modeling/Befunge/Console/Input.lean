import Befunge.Console.Basic
import Befunge.Text.Utf8

/-!
# Reading input

An input is the bytes not yet read. A line that is not UTF-8 is an error, and it is used up all the
same; a malformed character is read as the replacement character.
-/

namespace Befunge.Input

open Text

def readLine (bytes : List UInt8) : Attempt ConsoleError (List UInt8) (Option (List Char)) :=
  match bytes with
  | [] => (.ok none, [])
  | _ =>
    let (line, rest) := Utf8.takeLine bytes
    match Utf8.decode? line with
    | some text => (.ok (some text), rest)
    | none => (.error .invalidText, rest)

def readChar (bytes : List UInt8) : Option Char × List UInt8 :=
  match Utf8.readChar bytes with
  | some (c, rest) => (some c, rest)
  | none => (none, [])

end Befunge.Input
