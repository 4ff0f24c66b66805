/-!
# Cells

A cell of the playfield and an entry of the stack are the same thing: a signed 64-bit word that
may happen to be the code of a character.
-/

namespace Befunge

/-- A word of the machine. Its arithmetic wraps modulo `2 ^ 64`. -/
abbrev Cell := Int64

def replacement : Char := '\ufffd'

/-- Control characters: the two blocks U+0000 to U+001F and U+007F to U+009F. -/
def isControl (c : Char) : Bool :=
  c.toNat < 0x20 || (0x7f ≤ c.toNat && c.toNat ≤ 0x9f)

namespace Cell

def blank : Cell := 32

def quote : Cell := 34

def ofChar (c : Char) : Cell := Int64.ofNat c.toNat

/-- The character a cell encodes, if it is the code of one. -/
def toChar? (v : Cell) : Option Char :=
  if 0 ≤ v.toInt ∧ v.toInt.toNat.isValidChar then some (Char.ofNat v.toInt.toNat) else none

def glyph (v : Cell) : Char := v.toChar?.getD replacement

def isPrintable (v : Cell) : Bool := v.toChar?.any (!isControl ·)

def decimal (v : Cell) : List Char :=
  if v.toInt < 0 then '-' :: Nat.toDigits 10 v.toInt.natAbs else Nat.toDigits 10 v.toInt.natAbs

def toText (v : Cell) : String := String.ofList v.decimal

end Cell

end Befunge
