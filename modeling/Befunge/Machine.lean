import Befunge.Directions
import Befunge.Fault
import Befunge.Profile
import Befunge.Text.Number

/-!
# The machine

A state together with what it acts on: a console, a source of directions and a profile. One cycle
executes the cell under the cursor and moves on.
-/

namespace Befunge

namespace State

def pop (s : State) : Cell × State := (s.stack.peek, { s with stack := s.stack.discard })

/-- What the instructions that change nothing but the state make of it. Off the field a read would
find a blank and a write would be lost. -/
def apply (s : State) : Instruction → State
  | .go d => s.turn d
  | .horizontalIf =>
    let (flag, s) := s.pop
    { s with cursor := s.cursor.branch flag .right .left }
  | .verticalIf =>
    let (flag, s) := s.pop
    { s with cursor := s.cursor.branch flag .down .up }
  | .bridge => s.advance
  | .digit d => s.push (Int64.ofNat d)
  | .toggleString => { s with mode := s.mode.toggle }
  | .greater =>
    let (y, s) := s.pop
    let (x, s) := s.pop
    s.push (if y < x then 1 else 0)
  | .not =>
    let (x, s) := s.pop
    s.push (if x = 1 then 0 else 1)
  | .duplicate => s.push s.stack.peek
  | .swap =>
    let (a, s) := s.pop
    let (b, s) := s.pop
    (s.push a).push b
  | .pop => s.pop.2
  | .get =>
    let (y, s) := s.pop
    let (x, s) := s.pop
    s.push (s.field.cell (Position.wrap x y))
  | .put =>
    let (y, s) := s.pop
    let (x, s) := s.pop
    let (v, s) := s.pop
    { s with field := s.field.set (Position.wrap x y) v, edition := s.steps }
  | _ => s

def traceLine (s : State) (cell : Cell) : String :=
  "pos: " ++ s.cursor.position.toText ++ " mnemonic: " ++ cell.glyph.toString ++ " dir: " ++
    s.cursor.direction.name ++ " stack: " ++
    String.intercalate "," (s.stack.toList.map Cell.toText) ++ "\n"

end State

inductive Outcome where
  | proceed
  | halt
  deriving DecidableEq, Repr

structure Machine (π : Type) where
  state : State
  console : π
  directions : Directions
  profile : Profile := .empty

namespace Machine

variable {π : Type}

/-- Counts a step and the visit of the cell under the cursor. -/
def arrive : Machine π → Machine π
  | ⟨state, console, directions, profile⟩ =>
    let steps := state.steps + 1
    let profile := profile.count state.cursor.position steps
    ⟨{ state with steps }, console, directions, profile⟩

/-- Pops `y`, then `x`, and pushes `x op y`. A zero divisor is found out only after both are
gone. -/
def arith (op : Operator) : Machine π → Attempt Fault (Machine π) Unit
  | ⟨state, console, directions, profile⟩ =>
    let (y, state) := state.pop
    let (x, state) := state.pop
    match op.value? x y with
    | some v => (.ok (), ⟨state.push v, console, directions, profile⟩)
    | none =>
      (.error (.divisionByZero op state.cursor.position), ⟨state, console, directions, profile⟩)

/-- Pops `y`, then `x`, and pushes the cell there. -/
def get : Machine π → Attempt Fault (Machine π) Unit
  | ⟨state, console, directions, profile⟩ =>
    let (y, state) := state.pop
    let (x, state) := state.pop
    let target := Position.wrap x y
    match state.field.get? target with
    | some v => (.ok (), ⟨state.push v, console, directions, profile⟩)
    | none => (.error (.outside target), ⟨state, console, directions, profile⟩)

/-- Pops `y`, then `x`, then a value, and writes it there. -/
def put : Machine π → Attempt Fault (Machine π) Unit
  | ⟨state, console, directions, profile⟩ =>
    let (y, state) := state.pop
    let (x, state) := state.pop
    let (v, state) := state.pop
    let target := Position.wrap x y
    match state.write? target v with
    | some state => (.ok (), ⟨state, console, directions, profile⟩)
    | none => (.error (.outside target), ⟨state, console, directions, profile⟩)

/-- Wherever the operands lead, the torus brings them back onto the field. -/
theorem get_eq_ok (m : Machine π) : m.get = (.ok (), { m with state := m.state.apply .get }) := by
  obtain ⟨state, console, directions, profile⟩ := m
  simp only [get]
  rw [Playfield.get?_eq_some_cell _ (Position.wrap_inBounds _ _)]
  rfl

theorem put_eq_ok (m : Machine π) : m.put = (.ok (), { m with state := m.state.apply .put }) := by
  obtain ⟨state, console, directions, profile⟩ := m
  simp only [put]
  rw [State.write?_of_inBounds _ (Position.wrap_inBounds _ _)]
  rfl

def wander : Machine π → Machine π
  | ⟨state, console, directions, profile⟩ =>
    let (d, directions) := directions.draw
    ⟨state.turn d, console, directions, profile⟩

variable [Console π]

/-- Writes program output; what was written counts only if all of it was. -/
def emit (text : String) : Machine π → Attempt Fault (Machine π) Unit
  | ⟨state, console, directions, profile⟩ =>
    match Console.write text console with
    | (.ok (), console) =>
      (.ok (), ⟨{ state with outputLength := state.outputLength + text.utf8ByteSize }, console,
        directions, profile⟩)
    | (.error e, console) =>
      (.error (.io state.cursor.position e), ⟨state, console, directions, profile⟩)

def diagnose (text : String) : Machine π → Attempt Fault (Machine π) Unit
  | ⟨state, console, directions, profile⟩ =>
    (Console.diagnose text console).within (.io state.cursor.position)
      (⟨state, ·, directions, profile⟩)

/-- Pushes the number of the next line of input, 0 at the end of the input. -/
def inputNumber : Machine π → Attempt Fault (Machine π) Unit
  | ⟨state, console, directions, profile⟩ =>
    match Console.readLine console with
    | (.ok line, console) =>
      (.ok (), ⟨state.push (line.elim 0 Text.number), console, directions, profile⟩)
    | (.error e, console) =>
      (.error (.io state.cursor.position e), ⟨state, console, directions, profile⟩)

/-- Pushes the code of the next character of input, -1 at the end of the input. -/
def inputChar : Machine π → Attempt Fault (Machine π) Unit
  | ⟨state, console, directions, profile⟩ =>
    match Console.readChar console with
    | (.ok c, console) =>
      (.ok (), ⟨state.push (c.elim (-1) Cell.ofChar), console, directions, profile⟩)
    | (.error e, console) =>
      (.error (.io state.cursor.position e), ⟨state, console, directions, profile⟩)

def output (toText : Cell → String) : Machine π → Attempt Fault (Machine π) Unit
  | ⟨state, console, directions, profile⟩ =>
    let (v, state) := state.pop
    emit (toText v) ⟨state, console, directions, profile⟩

def execute (debug : Bool) (i : Instruction) (m : Machine π) : Attempt Fault (Machine π) Unit :=
  match i with
  | .random => (.ok (), m.wander)
  | .inputNumber => m.inputNumber
  | .inputChar => m.inputChar
  | .outputNumber => m.output Cell.toText
  | .outputChar => m.output fun v => v.glyph.toString
  | .arith op => m.arith op
  | .get => m.get
  | .put => m.put
  | .dump => if debug then m.diagnose m.state.field.dump else (.ok (), m)
  | i => (.ok (), { m with state := m.state.apply i })

def trace (debug : Bool) (cell : Cell) (m : Machine π) : Attempt Fault (Machine π) Unit :=
  if debug then m.diagnose (m.state.traceLine cell) else (.ok (), m)

/-- Acts on a cell and moves on, unless the cell halts the program. -/
def act (debug : Bool) (cell : Cell) (m : Machine π) : Attempt Fault (Machine π) Outcome :=
  if m.state.mode = .string ∧ cell ≠ Cell.quote then
    (.ok .proceed, { m with state := (m.state.push cell).advance })
  else
    match Instruction.decode cell with
    | .halt => (.ok .halt, { m with state := { m.state with halted := true } })
    | i =>
      (m.execute debug i).andThen fun _ m =>
        (.ok .proceed, { m with state := m.state.advance })

/-- A cycle that has fetched this cell: count, trace, act. A fault leaves the machine as far as it
came. -/
def attend (debug : Bool) (m : Machine π) (cell : Cell) : Attempt Fault (Machine π) Outcome :=
  (m.arrive.trace debug cell).andThen fun _ m => m.act debug cell

/-- One cycle; none if there is no cell to fetch. -/
def cycle? (debug : Bool) (m : Machine π) : Option (Attempt Fault (Machine π) Outcome) :=
  m.state.fetch?.map (m.attend debug)

/-- One cycle. A cursor off the field would find a blank. -/
def cycle (debug : Bool) (m : Machine π) : Attempt Fault (Machine π) Outcome :=
  (m.cycle? debug).getD (m.attend debug Cell.blank)

theorem cycle_eq_attend (debug : Bool) (m : Machine π) :
    m.cycle debug = m.attend debug m.state.current := by
  rw [cycle, cycle?, ← m.state.fetch?_getD]
  cases m.state.fetch? <;> rfl

theorem cycle_false (m : Machine π) : m.cycle false = m.arrive.act false m.state.current :=
  cycle_eq_attend false m

theorem cycle?_eq_some {m : Machine π} (debug : Bool) (hm : m.state.cursor.position.InBounds) :
    m.cycle? debug = some (m.cycle debug) := by
  rw [cycle_eq_attend, cycle?, State.fetch?_eq_some_current hm, Option.map_some]

end Machine

end Befunge
