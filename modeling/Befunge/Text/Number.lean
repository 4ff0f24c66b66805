import Befunge.Cell

/-!
# Numbers typed by a user

A number is read leniently from a line: blanks in front are skipped, one sign is taken, then as
many digits as follow. A line without digits is 0, and a number beyond the range of a cell becomes
the nearest end of the range.
-/

namespace Befunge.Text

/-- Characters with the property `White_Space`. -/
def isBlank (c : Char) : Bool :=
  let n := c.toNat
  (0x9 ≤ n && n ≤ 0xd) || n == 0x20 || n == 0x85 || n == 0xa0 || n == 0x1680 ||
    (0x2000 ≤ n && n ≤ 0x200a) || n == 0x2028 || n == 0x2029 || n == 0x202f || n == 0x205f ||
    n == 0x3000

/-- Appends digits to a number one by one, downwards when `negative`. The first digit that leads
out of the range of a cell ends the number at that end of the range. -/
def appendDigits (negative : Bool) (value : Cell) : List Char → Cell
  | [] => value
  | c :: rest =>
    if c.isDigit then
      let digit : Int := c.toNat - '0'.toNat
      if negative then
        let next := value.toInt * 10 - digit
        if next < Int64.minValue.toInt then Int64.minValue
        else appendDigits negative (Int64.ofInt next) rest
      else
        let next := value.toInt * 10 + digit
        if Int64.maxValue.toInt < next then Int64.maxValue
        else appendDigits negative (Int64.ofInt next) rest
    else value

def number (line : List Char) : Cell :=
  match line.dropWhile isBlank with
  | '-' :: digits => appendDigits true 0 digits
  | '+' :: digits => appendDigits false 0 digits
  | digits => appendDigits false 0 digits

end Befunge.Text
