import Befunge.Directions

/-!
# Directions from a seed

The stream cipher ChaCha with twelve rounds, used as a source of numbers: a key of eight words, a
block counter, and sixteen words for each block. Directions are drawn from it without bias.
-/

namespace Befunge.Command.ChaCha

abbrev Block := Vector UInt32 16

def rotateLeft (x n : UInt32) : UInt32 := (x <<< n) ||| (x >>> (32 - n))

def rotateRight (x n : UInt32) : UInt32 := (x >>> n) ||| (x <<< ((32 - n) % 32))

def quarterRound (s : Block) (i j k l : Fin 16) : Block :=
  let a := s[i] + s[j]
  let d := rotateLeft (s[l] ^^^ a) 16
  let c := s[k] + d
  let b := rotateLeft (s[j] ^^^ c) 12
  let a := a + b
  let d := rotateLeft (d ^^^ a) 8
  let c := c + d
  let b := rotateLeft (b ^^^ c) 7
  (((s.set i a).set j b).set k c).set l d

/-- Four quarter rounds on the columns, then four on the diagonals. -/
def doubleRound (s : Block) : Block :=
  let s := quarterRound s 0 4 8 12
  let s := quarterRound s 1 5 9 13
  let s := quarterRound s 2 6 10 14
  let s := quarterRound s 3 7 11 15
  let s := quarterRound s 0 5 10 15
  let s := quarterRound s 1 6 11 12
  let s := quarterRound s 2 7 8 13
  quarterRound s 3 4 9 14

/-- The block before the rounds: four constants, the key, the counter and an empty nonce. -/
def initial (key : Vector UInt32 8) (counter : UInt64) : Block :=
  (#v[0x61707865, 0x3320646e, 0x79622d32, 0x6b206574] : Vector UInt32 4) ++ key ++
    (#v[counter.toUInt32, (counter >>> 32).toUInt32, 0, 0] : Vector UInt32 4)

/-- Twelve rounds, added to the block they started from. -/
def block (key : Vector UInt32 8) (counter : UInt64) : Block :=
  let start := initial key counter
  Vector.zipWith (· + ·) (Nat.repeat doubleRound 6 start) start

/-- Key words from a seed: a linear congruential sequence, each member folded and rotated into one
word. -/
def keyWords : Nat → UInt64 → List UInt32
  | 0, _ => []
  | n + 1, s =>
    let s := s * 6364136223846793005 + 11634580027462260723
    let word := (((s >>> 18) ^^^ s) >>> 27).toUInt32
    rotateRight word (s >>> 59).toUInt32 :: keyWords n s

theorem length_keyWords (n : Nat) (s : UInt64) : (keyWords n s).length = n := by
  induction n generalizing s with
  | zero => rfl
  | succ n ih => simp [keyWords, ih]

def keyOfSeed (seed : UInt64) : Vector UInt32 8 :=
  ⟨(keyWords 8 seed).toArray, by simp [length_keyWords]⟩

/-- Number `n` of the keystream: two words of a block as one, the first in the low half. -/
def number (key : Vector UInt32 8) (n : Nat) : UInt64 :=
  let words := block key (UInt64.ofNat (n / 8))
  let low := words[2 * (n % 8)]
  let high := words[2 * (n % 8) + 1]
  low.toUInt64 ||| (high.toUInt64 <<< 32)

def compass (n : UInt64) : Direction :=
  if n = 0 then .up else if n = 1 then .down else if n = 2 then .left else .right

/-- The first number from the `n`th on whose bit 61 is clear decides by its two top bits. At most
`tries` numbers are looked at. -/
def draw (key : Vector UInt32 8) : Nat → Nat → Direction × Nat
  | 0, n => (.right, n)
  | tries + 1, n =>
    let v := number key n
    if (v >>> 61) &&& 1 = 1 then draw key tries (n + 1) else (compass (v >>> 62), n + 1)

/-- Numbers looked at for one direction. Each is refused with probability one half. -/
def patience : Nat := 4096

/-- The directions that a seed leads to; a state is how many numbers were looked at. -/
def directions (seed : UInt64) : Directions :=
  let key := keyOfSeed seed
  { next := draw key patience }

end Befunge.Command.ChaCha
