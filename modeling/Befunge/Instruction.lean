import Befunge.Cursor

/-!
# Instructions

Every cell decodes to exactly one instruction; a cell outside the instruction set does nothing.
-/

namespace Befunge

inductive Operator where
  | add
  | sub
  | mul
  | div
  | mod
  deriving DecidableEq, Repr

namespace Operator

def symbol : Operator → Char
  | .add => '+'
  | .sub => '-'
  | .mul => '*'
  | .div => '/'
  | .mod => '%'

/-- The operator's value in wrapped arithmetic, with quotients rounded toward zero; `none` for a
zero divisor. -/
def value? (op : Operator) (x y : Cell) : Option Cell :=
  match op with
  | .add => some (x + y)
  | .sub => some (x - y)
  | .mul => some (x * y)
  | .div => if y = 0 then none else some (x / y)
  | .mod => if y = 0 then none else some (x % y)

end Operator

inductive Instruction where
  | go (d : Direction)
  | horizontalIf
  | verticalIf
  | random
  | bridge
  | halt
  | digit (value : Nat)
  | toggleString
  | inputNumber
  | inputChar
  | outputNumber
  | outputChar
  | arith (op : Operator)
  | greater
  | not
  | duplicate
  | swap
  | pop
  | get
  | put
  | dump
  | nop
  deriving DecidableEq, Repr

/-- The families of instructions that a viewer tells apart. -/
inductive Category where
  | flow
  | literal
  | io
  | arithmetic
  | stack
  | memory
  | debug
  | blank
  deriving DecidableEq, Repr

namespace Instruction

def ofChar (c : Char) : Instruction :=
  match c with
  | '>' => .go .right
  | '<' => .go .left
  | '^' => .go .up
  | 'v' => .go .down
  | '_' => .horizontalIf
  | '|' => .verticalIf
  | '?' => .random
  | '#' => .bridge
  | '@' => .halt
  | '\x22' => .toggleString
  | '&' => .inputNumber
  | '~' => .inputChar
  | '.' => .outputNumber
  | ',' => .outputChar
  | '+' => .arith .add
  | '-' => .arith .sub
  | '*' => .arith .mul
  | '/' => .arith .div
  | '%' => .arith .mod
  | '\x60' => .greater
  | '!' => .not
  | ':' => .duplicate
  | '\\' => .swap
  | '$' => .pop
  | 'g' => .get
  | 'p' => .put
  | '=' => .dump
  | c => if c.isDigit then .digit (c.toNat - '0'.toNat) else .nop

def decode (v : Cell) : Instruction := v.toChar?.elim .nop ofChar

def category : Instruction → Category
  | .go _ | .horizontalIf | .verticalIf | .random | .bridge | .halt => .flow
  | .digit _ | .toggleString => .literal
  | .inputNumber | .inputChar | .outputNumber | .outputChar => .io
  | .arith _ | .greater | .not => .arithmetic
  | .duplicate | .swap | .pop => .stack
  | .get | .put => .memory
  | .dump => .debug
  | .nop => .blank

end Instruction

end Befunge
