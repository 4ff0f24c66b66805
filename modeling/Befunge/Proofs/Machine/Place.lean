import Befunge.Proofs.Machine.Transition

/-!
# Where a cycle takes place

A cycle belongs to the cell under the cursor when it begins. It counts one visit there and none
elsewhere, whatever it does next, and a fault names that cell; that a cell off the field was asked
for is never among the faults. The cursor never leaves the playing area.
-/

namespace Befunge

namespace State

variable {s t : State} {o : Outcome}

theorem initial_inBounds (field : Playfield) : (initial field).cursor.position.InBounds := by
  have hstart : Cursor.start.position.InBounds := by decide
  exact hstart

theorem apply_inBounds (i : Instruction) (hs : s.cursor.position.InBounds) :
    (s.apply i).cursor.position.InBounds := by
  cases i with
  | bridge => exact Cursor.advance_inBounds hs
  | _ => exact hs

theorem Transition.inBounds (h : s.Transition o t) (hs : s.cursor.position.InBounds) :
    t.cursor.position.InBounds := by
  cases h with
  | halt => exact hs
  | plain i => exact Cursor.advance_inBounds (apply_inBounds (s := s.tick) i hs)
  | literal | wander | input | output | arith => exact Cursor.advance_inBounds hs

end State

namespace Machine

variable {π : Type} {α β : Type} {debug : Bool} {m : Machine π}

/-- An attempt from `m` that counts no visit and can only fail at the cell under the cursor, and not
for want of a cell. -/
structure InPlace (m : Machine π) (r : Attempt Fault (Machine π) α) : Prop where
  profile : r.2.profile = m.profile
  fault : ∀ f, r.1 = .error f → f.position? = some m.state.cursor.position
  inside : ∀ p, r.1 ≠ .error (.outside p)

theorem inPlace_ok (a : α) {m' : Machine π} (h : m'.profile = m.profile) :
    m.InPlace (.ok a, m') := ⟨h, nofun, nofun⟩

theorem inPlace_error {f : Fault} {m' : Machine π} (h : m'.profile = m.profile)
    (hf : f.position? = some m.state.cursor.position) (hin : ∀ p, f ≠ .outside p) :
    m.InPlace ((.error f, m') : Attempt Fault (Machine π) α) := by
  refine ⟨h, ?_, ?_⟩
  · rintro f ⟨⟩
    exact hf
  · rintro p ⟨⟩
    exact hin p rfl

theorem InPlace.andThen {r : Attempt Fault (Machine π) α}
    {next : α → Machine π → Attempt Fault (Machine π) β} (hr : m.InPlace r)
    (hnext : ∀ a m', r = (.ok a, m') → m.InPlace (next a m')) : m.InPlace (r.andThen next) := by
  rcases r with ⟨f | a, m'⟩
  · exact inPlace_error hr.profile (hr.fault f rfl) fun p h => hr.inside p (h ▸ rfl)
  · exact hnext a m' rfl

variable [Console π]

theorem inPlace_diagnose (text : String) (m : Machine π) : m.InPlace (m.diagnose text) := by
  obtain ⟨state, console, directions, profile⟩ := m
  simp only [diagnose]
  rcases Console.diagnose text console with ⟨e | _, console'⟩
  · exact inPlace_error rfl rfl (by simp)
  · exact inPlace_ok () rfl

theorem inPlace_execute (debug : Bool) (i : Instruction) (m : Machine π) :
    m.InPlace (m.execute debug i) := by
  cases i with
  | dump =>
    simp only [execute]
    split
    · exact inPlace_diagnose _ m
    · exact inPlace_ok () rfl
  | inputNumber | inputChar | outputNumber | outputChar | arith =>
    obtain ⟨state, console, directions, profile⟩ := m
    simp only [execute, inputNumber, inputChar, output, emit, arith]
    split
    · exact inPlace_ok () rfl
    · exact inPlace_error rfl rfl (by simp)
  | _ =>
    simp only [execute, get_eq_ok, put_eq_ok]
    exact inPlace_ok () rfl

theorem inPlace_act (debug : Bool) (cell : Cell) (m : Machine π) :
    m.InPlace (m.act debug cell) := by
  unfold act
  split
  · exact inPlace_ok _ rfl
  · split
    · exact inPlace_ok _ rfl
    · have hexecute := inPlace_execute debug (.decode cell) m
      apply hexecute.andThen
      intro _ m' hr
      rw [hr] at hexecute
      exact inPlace_ok _ hexecute.profile

/-- A cycle counts one visit of the cell under the cursor, and a fault of it names that cell. -/
theorem inPlace_cycle (debug : Bool) (m : Machine π) : m.arrive.InPlace (m.cycle debug) := by
  have htrace : m.arrive.InPlace (m.arrive.trace debug m.state.current) := by
    unfold trace
    split
    · exact inPlace_diagnose _ _
    · exact inPlace_ok () rfl
  rw [cycle_eq_attend]
  apply htrace.andThen
  intro _ m' hr
  have hstate := state_trace debug m.state.current m.arrive
  rw [hr] at htrace hstate
  obtain ⟨hprofile, hfault, hinside⟩ := inPlace_act debug m.state.current m'
  exact ⟨hprofile.trans htrace.profile, hstate ▸ hfault, hinside⟩

theorem profile_cycle (debug : Bool) (m : Machine π) :
    (m.cycle debug).2.profile =
      m.profile.count m.state.cursor.position (m.state.steps + 1) :=
  (inPlace_cycle debug m).profile

theorem position_of_cycle {m' : Machine π} {f : Fault} (h : m.cycle debug = (.error f, m')) :
    f.position? = some m.state.cursor.position :=
  (inPlace_cycle debug m).fault f (congrArg Prod.fst h)

/-- Nothing that a cycle reads or writes beyond the cell it has fetched is off the field. -/
theorem inside_cycle (debug : Bool) (m : Machine π) (p : Position) :
    (m.cycle debug).1 ≠ .error (.outside p) := (inPlace_cycle debug m).inside p

end Machine

end Befunge
