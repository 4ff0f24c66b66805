import Befunge.Proofs.Session.WayBack
import Befunge.Viewer.Basic

/-!
# Browsing a record

A viewer never executes anything. Whatever happens to it, its session shows one of the recorded
states, and each key and each turn of its loop leads to a place in the record that is told by the
place before.
-/

namespace Befunge

namespace Session

section Showing

variable {π : Type}

/-- The session at an index of its record; where there is no such state it shows its own. -/
def showing (base : Session π) (i : Nat) : Session π :=
  { base with
    machine := { base.machine with state := (base.history.get? i).getD base.state }
    position := i }

variable {base : Session π} {i j : Nat}

@[simp]
theorem position_showing (base : Session π) (i : Nat) : (base.showing i).position = i := rfl

@[simp]
theorem history_showing (base : Session π) (i : Nat) :
    (base.showing i).history = base.history := rfl

theorem get?_showing (hi : i < base.history.length) :
    base.history.get? i = some (base.showing i).state := by
  obtain ⟨t, ht⟩ := History.exists_get?_of_lt hi
  simp only [showing, state, ht, Option.getD_some]

theorem restore_of_lt (hj : j < base.history.length) : base.restore j = .ok (base.showing j) := by
  obtain ⟨t, ht⟩ := History.exists_get?_of_lt hj
  simp only [restore, showing, ht, Option.getD_some]

theorem restore_showing (hj : j < base.history.length) :
    (base.showing i).restore j = .ok (base.showing j) := restore_of_lt hj

theorem showing_of_length_eq_zero (hlength : base.history.length = 0) (i : Nat) :
    base.showing i = { base with position := i } := by
  have hnone : base.history.get? i = none := by
    apply Option.not_isSome_iff_eq_none.mp
    rw [History.get?_isSome_iff]
    omega
  rw [showing, hnone]
  rfl

theorem stepForward_showing (hi : i + 1 < base.history.length) :
    (base.showing i).stepForward = .ok (base.showing (i + 1)) := by
  rw [stepForward, history_showing, position_showing, if_neg (by omega), restore_showing hi]

theorem stepForward_showing_last (hi : base.history.length ≤ i + 1) :
    (base.showing i).stepForward = .error .atEnd := by
  rw [stepForward, history_showing, position_showing, if_pos hi]

/-- A move leads to the place `j` of the record, or is refused where it stands there already. -/
theorem landing_of_guard {refused : Prop} [Decidable refused] {f : Fault} {k : Nat}
    (hj : j ≤ base.history.length - 1) (hstay : refused → i = j)
    (hgo : ¬refused → k = j ∧ 0 < base.history.length) :
    (if refused then .error f else (base.showing i).restore k).toOption.getD (base.showing i) =
      base.showing j := by
  split
  · next h =>
    rw [hstay h]
    rfl
  · next h =>
    obtain ⟨rfl, hpos⟩ := hgo h
    rw [restore_showing (by omega)]
    rfl

theorem landing_stepForward (hi : i ≤ base.history.length - 1) :
    (base.showing i).stepForward.toOption.getD (base.showing i) =
      base.showing (min (i + 1) (base.history.length - 1)) := by
  rw [stepForward, history_showing, position_showing]
  exact landing_of_guard (by omega) (by omega) (by omega)

theorem landing_stepBackward (hi : i ≤ base.history.length - 1) :
    (base.showing i).stepBackward.toOption.getD (base.showing i) = base.showing (i - 1) := by
  rw [stepBackward, position_showing]
  exact landing_of_guard (by omega) (by omega) (by omega)

theorem landing_rewind (hi : i ≤ base.history.length - 1) :
    (base.showing i).rewind.toOption.getD (base.showing i) = base.showing 0 := by
  rw [rewind, history_showing]
  exact landing_of_guard (by omega) (by omega) (by omega)

theorem landing_jumpToEnd (hi : i ≤ base.history.length - 1) :
    (base.showing i).jumpToEnd.toOption.getD (base.showing i) =
      base.showing (base.history.length - 1) := by
  rw [jumpToEnd, history_showing]
  exact landing_of_guard (by omega) (by omega) (by omega)

end Showing

end Session

namespace Viewer

open Session

/-- What can happen to a viewer: a key is pressed, its loop takes a turn, a frame is drawn. -/
inductive Signal where
  | key (settled : Bool) (k : Key)
  | turn (due : Bool) (width height : Nat)
  | draw (width height : Nat)
  deriving DecidableEq, Repr

def handle (v : Viewer) : Signal → Viewer
  | .key settled k => v.press settled k
  | .turn due width height => v.turn due width height
  | .draw width height => (v.draw width height).2

def handleAll (v : Viewer) (signals : List Signal) : Viewer := signals.foldl handle v

/-- Where a signal leads in the record. -/
def destination (v : Viewer) : Signal → Nat
  | .key _ .left => v.session.position - 1
  | .key _ .right => min (v.session.position + 1) (v.session.history.length - 1)
  | .key _ .enter => v.session.history.length - 1
  | .key _ .backspace => 0
  | .key _ (.char c) =>
    if '1' ≤ c ∧ c ≤ '9' then
      min (v.session.position + (c.toNat - '0'.toNat)) (v.session.history.length - 1)
    else v.session.position
  | .turn due _ _ =>
    if due ∧ v.playing ∧ ¬v.quitting then
      min (v.session.position + 1) (v.session.history.length - 1)
    else v.session.position
  | _ => v.session.position

variable {base : Session Buffered} {v : Viewer} {i : Nat}

theorem forward_showing (n : Nat) (hi : i ≤ base.history.length - 1) :
    forward n (base.showing i) =
      (min (i + n) (base.history.length - 1) - i,
        base.showing (min (i + n) (base.history.length - 1))) := by
  induction n generalizing i with
  | zero =>
    have hsame : min (i + 0) (base.history.length - 1) = i := by omega
    rw [forward, hsame, Nat.sub_self]
  | succ n ih =>
    -- a refused step means that the end is reached: none of the other steps is tried
    rcases Nat.lt_or_ge (i + 1) base.history.length with hnext | hlast
    · have hplace : min (i + 1 + n) (base.history.length - 1) =
          min (i + (n + 1)) (base.history.length - 1) := by omega
      simp only [forward, stepForward_showing hnext, ih (i := i + 1) (by omega), hplace,
        Prod.mk.injEq, and_true]
      omega
    · have hsame : min (i + (n + 1)) (base.history.length - 1) = i := by omega
      rw [forward, stepForward_showing_last hlast, hsame, Nat.sub_self]

theorem session_move (v : Viewer) (target : Except Fault (Session Buffered))
    (done refused : String) :
    (v.move target done refused).session = target.toOption.getD v.session := by
  unfold move
  split <;> rfl

theorem session_play (v : Viewer) :
    v.play.session = v.session.stepForward.toOption.getD v.session := by
  unfold play
  split
  · next h => rw [h]; rfl
  · next h => rw [h]; rfl

theorem pressChar_of_digit (settled : Bool) {c : Char} (hc : '1' ≤ c ∧ c ≤ '9') :
    v.pressChar settled c =
      { v with playing := false }.goTo (forward (c.toNat - '0'.toNat) v.session).2
        ("Stepped forward " ++ toString (forward (c.toNat - '0'.toNat) v.session).1 ++
          " step(s)") := by
  have hletter : ¬(c = 'q' ∨ c = 'Q') := by
    rintro (rfl | rfl)
    · exact absurd hc (by decide)
    · exact absurd hc (by decide)
  have hspace : c ≠ ' ' := by
    rintro rfl
    exact absurd hc (by decide)
  rw [pressChar, if_neg hletter, if_neg hspace, if_pos hc]

theorem session_pressChar (settled : Bool) {c : Char} (hc : ¬('1' ≤ c ∧ c ≤ '9')) :
    (v.pressChar settled c).session = v.session := by
  rw [pressChar, if_neg hc]
  split
  · rfl
  split
  · split
    · unfold togglePlaying
      split <;> rfl
    · rfl
  · rfl

theorem session_scrollUp (v : Viewer) : v.scrollUp.session = v.session := by
  unfold scrollUp
  split <;> rfl

theorem session_scrollDown (v : Viewer) : v.scrollDown.session = v.session := by
  unfold scrollDown
  split <;> rfl

/-- Drawing a frame settles the scroll offsets and nothing else. -/
theorem exists_scroll_of_draw (v : Viewer) (width height : Nat) :
    ∃ outputScroll stackScroll, (v.draw width height).2 = { v with outputScroll, stackScroll } :=
  ⟨_, _, rfl⟩

theorem session_turn (v : Viewer) (due : Bool) (width height : Nat) :
    (v.turn due width height).session =
      if due ∧ v.playing ∧ ¬v.quitting then v.session.stepForward.toOption.getD v.session
      else v.session := by
  obtain ⟨outputScroll, stackScroll, hdraw⟩ := exists_scroll_of_draw v width height
  have hplays : (!v.quitting && v.playing && due) = true ↔ due ∧ v.playing ∧ ¬v.quitting := by
    simp [and_comm]
  simp only [turn, hdraw, hplays]
  split
  · rw [session_play]
  · rfl

/-- Every signal leads to its destination, and the session is nothing but the record there. -/
theorem session_handle (hi : i ≤ base.history.length - 1) (h : v.session = base.showing i)
    (signal : Signal) :
    v.destination signal ≤ base.history.length - 1 ∧
      (v.handle signal).session = base.showing (v.destination signal) := by
  have hstay : v.session.position ≤ base.history.length - 1 ∧
      v.session = base.showing v.session.position := by
    rw [h]
    exact ⟨hi, rfl⟩
  cases signal with
  | key settled k =>
    cases k with
    | char c =>
      simp only [destination, handle, press, h, position_showing, history_showing]
      split
      · next hc =>
        refine ⟨Nat.min_le_right _ _, ?_⟩
        rw [pressChar_of_digit settled hc, h, forward_showing _ hi]
        rfl
      · next hc => exact ⟨hi, by rw [session_pressChar settled hc, h]⟩
    | left =>
      simp only [destination, handle, press, session_move, h, position_showing]
      exact ⟨by omega, landing_stepBackward hi⟩
    | right =>
      simp only [destination, handle, press, session_move, h, position_showing, history_showing]
      exact ⟨Nat.min_le_right _ _, landing_stepForward hi⟩
    | enter =>
      simp only [destination, handle, press, jump, goTo, h, history_showing]
      exact ⟨Nat.le_refl _, landing_jumpToEnd hi⟩
    | backspace =>
      simp only [destination, handle, press, jump, goTo, h]
      exact ⟨Nat.zero_le _, landing_rewind hi⟩
    | up =>
      simp only [handle, press, session_scrollUp]
      exact hstay
    | down =>
      simp only [handle, press, session_scrollDown]
      exact hstay
    | tab | backTab | other => exact hstay
  | turn due width height =>
    simp only [destination, handle, session_turn, h, position_showing, history_showing]
    split
    · exact ⟨Nat.min_le_right _ _, landing_stepForward hi⟩
    · exact ⟨hi, rfl⟩
  | draw width height =>
    obtain ⟨outputScroll, stackScroll, hdraw⟩ := exists_scroll_of_draw v width height
    simp only [handle, hdraw]
    exact hstay

theorem session_handleAll (hi : i ≤ base.history.length - 1) (h : v.session = base.showing i)
    (signals : List Signal) :
    ∃ j, j ≤ base.history.length - 1 ∧ (v.handleAll signals).session = base.showing j := by
  unfold handleAll
  induction signals generalizing v i with
  | nil => exact ⟨i, hi, h⟩
  | cons signal signals ih =>
    obtain ⟨hle, hnext⟩ := session_handle hi h signal
    exact ih hle hnext

theorem status_of_digit (hi : i ≤ base.history.length - 1) (h : v.session = base.showing i)
    (settled : Bool) {c : Char} (hc : '1' ≤ c ∧ c ≤ '9') :
    ∃ stepped, (v.press settled (.char c)).session.position = v.session.position + stepped ∧
      (v.press settled (.char c)).status =
        "Stepped forward " ++ toString stepped ++ " step(s)" := by
  have hpress : v.press settled (.char c) = v.pressChar settled c := rfl
  rw [hpress, pressChar_of_digit settled hc, h, forward_showing _ hi]
  refine ⟨_, ?_, rfl⟩
  simp only [goTo, position_showing]
  omega

/-- A recorded run can be browsed: it has an end, and from there it is taken back to the start, if
anything was recorded at all. -/
theorem record_start (field : Playfield) (input : List UInt8) (directions : Directions)
    {config : Config} (hrecord : config.record = true) :
    ∃ r executed settled, record (start field (Buffered.ofInput input) directions config) = some r ∧
      Faithful field executed settled r.ending.session ∧
      r.session = r.ending.session.showing 0 := by
  have hstart := recording_start field (Buffered.ofInput input) directions config
  obtain ⟨result, e, hfor⟩ := hstart.exists_runFor hrecord
  have hrun := run_of_runFor hfor
  have hreach : Reach (start field (Buffered.ofInput input) directions config) _ _ e :=
    .execute .refl (c := .run) rfl (by rw [perform, hrun]; rfl)
  have hs := hreach.faithful hrecord
  rcases Nat.eq_zero_or_pos e.history.length with hzero | hpos
  · have hrewind : e.rewind = .error .nothingRecorded := if_pos hzero
    have hrecorded : record (start field (Buffered.ofInput input) directions config) =
        some ⟨⟨result, .ok (), e⟩, .error .nothingRecorded, e⟩ := by
      simp only [record, hrun, Option.map_some, hrewind]
    refine ⟨_, _, _, hrecorded, hs, ?_⟩
    have hposition : e.position = 0 := by
      have := hs.coherent.position
      omega
    simp only [showing_of_length_eq_zero hzero, ← hposition]
  · have hrewind : e.rewind = .ok (e.showing 0) := by
      rw [rewind, if_neg (Nat.ne_of_gt hpos), restore_of_lt hpos]
    have hrecorded : record (start field (Buffered.ofInput input) directions config) =
        some ⟨⟨result, .ok (), e⟩, .ok (), e.showing 0⟩ := by
      simp only [record, hrun, Option.map_some, hrewind]
    exact ⟨_, _, _, hrecorded, hs, rfl⟩

/-- The viewer is a cursor over a record that does not change. Whatever keys are pressed, turns
taken and frames drawn after a recorded run was taken back, the record, the console and the profile
are those that the run left. If anything is recorded, the viewer shows one of the recorded states
with the output up to it, every signal leads to its destination, and a digit reports how far; if
not, the session stays as it is. -/
theorem viewer_browses_record (field : Playfield) (input : List UInt8) (directions : Directions)
    (config : Config) (hrecord : config.record = true) (early : Bool) :
    ∃ r, record (start field (Buffered.ofInput input) directions config) = some r ∧
      ∀ signals,
        let v := (ofRecording r.session early).handleAll signals
        (v.session.history = r.ending.session.history ∧
          v.session.machine.console = r.ending.session.machine.console ∧
          v.session.machine.profile = r.ending.session.machine.profile) ∧
        (0 < v.session.history.length →
          v.session.history.get? v.session.position = some v.session.state ∧
          v.session.visibleOutput = v.session.history.transcript v.session.position ∧
          (∀ signal, (v.handle signal).session.position = v.destination signal) ∧
          ∀ settled c, '1' ≤ c ∧ c ≤ '9' → ∃ stepped,
            (v.press settled (.char c)).session.position = v.session.position + stepped ∧
            (v.press settled (.char c)).status =
              "Stepped forward " ++ toString stepped ++ " step(s)") ∧
        (v.session.history.length = 0 → v.session = r.session) := by
  obtain ⟨r, executed, settled, hr, hs, hstart⟩ := record_start field input directions hrecord
  refine ⟨r, hr, ?_⟩
  intro signals v
  obtain ⟨j, hj, hv⟩ := session_handleAll (v := ofRecording r.session early) (Nat.zero_le _)
    hstart signals
  have hsession : v.session = r.ending.session.showing j := hv
  have hhistory : v.session.history = r.ending.session.history := by rw [hsession]; rfl
  refine ⟨?_, ?_, ?_⟩
  · rw [hsession]
    exact ⟨rfl, rfl, rfl⟩
  · intro hpos
    rw [hhistory] at hpos
    have hlt : j < r.ending.session.history.length := by omega
    obtain ⟨t, ht⟩ := History.exists_get?_of_lt hlt
    obtain ⟨s', hrestore, hstate, -, houtput⟩ := hs.exists_restore ht
    rw [restore_of_lt hlt, ← hsession] at hrestore
    obtain rfl := Except.ok.inj hrestore
    have hposition : v.session.position = j := by rw [hsession]; rfl
    rw [hhistory, hposition, hstate]
    refine ⟨ht, houtput, ?_, ?_⟩
    · intro signal
      rw [(session_handle hj hsession signal).2]
      rfl
    · rw [← hposition]
      exact fun settled c hc => status_of_digit hj hsession settled hc
  · intro hzero
    rw [hhistory] at hzero
    have hj0 : j = 0 := by omega
    rw [hsession, hj0]
    exact hstart.symm

/-- Three steps were recorded: wherever the viewer stands, a nine leads to their end. -/
theorem viewer_browses_record_nine :
    ∃ r, record (start (.load "1.@") (Buffered.ofInput []) (.ofScript []) { record := true }) =
        some r ∧ ∀ signals,
      let v := (ofRecording r.session false).handleAll signals
      v.session.visibleOutput = v.session.history.transcript v.session.position ∧
        (v.handle (.key true (.char '9'))).session.position = 3 := by
  have hview : (record (start (.load "1.@") (Buffered.ofInput []) (.ofScript [])
      { record := true })).map (·.ending.session.history.length) = some 4 := by
    decide +kernel
  obtain ⟨r, hr, hbrowse⟩ := viewer_browses_record (.load "1.@") [] (.ofScript [])
    { record := true } rfl false
  rw [hr] at hview
  have hlength : r.ending.session.history.length = 4 := Option.some.inj hview
  refine ⟨r, hr, ?_⟩
  intro signals v
  obtain ⟨⟨hhistory, -, -⟩, hsome, -⟩ := hbrowse signals
  have hfour : v.session.history.length = 4 := hhistory ▸ hlength
  have hpos : 0 < v.session.history.length := by omega
  obtain ⟨-, houtput, hlands, -⟩ := hsome hpos
  refine ⟨houtput, ?_⟩
  rw [hlands, destination, if_pos (by decide), hfour]
  have hnine : '9'.toNat - '0'.toNat = 9 := by decide
  omega

end Viewer

end Befunge
