import Befunge.Proofs.Viewer.Browsing

/-!
# Playing a record

While a viewer plays, each turn of its loop that is due shows the next recorded state. That there is
none left is only found out by one more turn, which stops the playing and leaves the last state in
view; from then on turns change nothing but the scroll offsets.
-/

namespace Befunge.Viewer

open Session

/-- Turns that are due, each with the size of its frame. -/
def dueTurns (frames : List (Nat × Nat)) : List Signal :=
  frames.map fun (width, height) => .turn true width height

/-- A viewer that plays a record and shows the state at an index of it. -/
structure PlaysAt (base : Session Buffered) (i : Nat) (v : Viewer) : Prop where
  session : v.session = base.showing i
  playing : v.playing = true
  quitting : v.quitting = false

/-- A viewer that has played a record to its end. -/
structure PlayedOut (base : Session Buffered) (v : Viewer) : Prop where
  session : v.session = base.showing (base.history.length - 1)
  playing : v.playing = false
  status : v.status = "Playback complete"

variable {base : Session Buffered} {v : Viewer} {i : Nat}

theorem handleAll_dueTurns_nil (v : Viewer) : v.handleAll (dueTurns []) = v := rfl

theorem handleAll_dueTurns_cons (v : Viewer) (frame : Nat × Nat) (rest : List (Nat × Nat)) :
    v.handleAll (dueTurns (frame :: rest)) =
      (v.turn true frame.1 frame.2).handleAll (dueTurns rest) := by
  rw [handleAll, dueTurns, List.map_cons, List.foldl_cons, handle]
  rfl

theorem turn_of_playing (hplaying : v.playing = true) (hquitting : v.quitting = false)
    (width height : Nat) : v.turn true width height = (v.draw width height).2.play := by
  have hplays : (!v.quitting && v.playing && true) = true := by
    rw [hplaying, hquitting]
    rfl
  exact if_pos hplays

theorem turn_of_not_playing (hplaying : v.playing = false) (due : Bool) (width height : Nat) :
    v.turn due width height = (v.draw width height).2 := by
  have hstays : ¬(!v.quitting && v.playing && due) = true := by simp [hplaying]
  exact if_neg hstays

theorem PlaysAt.turn (h : PlaysAt base i v) (hi : i + 1 < base.history.length)
    (width height : Nat) :
    PlaysAt base (i + 1) (v.turn true width height) ∧
      (v.turn true width height).status = "Playing..." := by
  obtain ⟨outputScroll, stackScroll, hdraw⟩ := exists_scroll_of_draw v width height
  have hstep : v.session.stepForward = .ok (base.showing (i + 1)) := by
    rw [h.session, stepForward_showing hi]
  rw [turn_of_playing h.playing h.quitting, hdraw]
  simp only [play, hstep]
  exact ⟨⟨rfl, h.playing, h.quitting⟩, rfl⟩

theorem PlaysAt.turn_last (h : PlaysAt base i v) (hi : i + 1 = base.history.length)
    (width height : Nat) : PlayedOut base (v.turn true width height) := by
  obtain ⟨outputScroll, stackScroll, hdraw⟩ := exists_scroll_of_draw v width height
  have hstep : v.session.stepForward = .error .atEnd := by
    rw [h.session, stepForward_showing_last (Nat.le_of_eq hi.symm)]
  rw [turn_of_playing h.playing h.quitting, hdraw]
  simp only [play, hstep]
  refine ⟨?_, rfl, rfl⟩
  rw [← hi, Nat.add_sub_cancel]
  exact h.session

theorem PlayedOut.turn (h : PlayedOut base v) (due : Bool) (width height : Nat) :
    PlayedOut base (v.turn due width height) := by
  obtain ⟨outputScroll, stackScroll, hdraw⟩ := exists_scroll_of_draw v width height
  rw [turn_of_not_playing h.playing, hdraw]
  exact ⟨h.session, h.playing, h.status⟩

theorem PlaysAt.turns (h : PlaysAt base i v) (frames : List (Nat × Nat))
    (hframes : i + frames.length < base.history.length) :
    PlaysAt base (i + frames.length) (v.handleAll (dueTurns frames)) ∧
      (frames ≠ [] → (v.handleAll (dueTurns frames)).status = "Playing...") := by
  induction frames generalizing v i with
  | nil => exact ⟨h, absurd rfl⟩
  | cons frame rest ih =>
    rw [List.length_cons] at hframes ⊢
    rw [handleAll_dueTurns_cons]
    obtain ⟨hnext, hstatus⟩ := h.turn (by omega) frame.1 frame.2
    obtain ⟨hplays, hlater⟩ := ih hnext (by omega)
    rw [Nat.add_right_comm, Nat.add_assoc] at hplays
    refine ⟨hplays, fun _ => ?_⟩
    -- the status is that of the last turn taken, which may be this one
    cases rest with
    | nil => rwa [handleAll_dueTurns_nil]
    | cons second rest => exact hlater (List.cons_ne_nil second rest)

theorem PlayedOut.turns (h : PlayedOut base v) (frames : List (Nat × Nat)) :
    PlayedOut base (v.handleAll (dueTurns frames)) := by
  induction frames generalizing v with
  | nil => exact h
  | cons frame rest ih =>
    rw [handleAll_dueTurns_cons]
    exact ih (h.turn true frame.1 frame.2)

theorem PlaysAt.playedOut (h : PlaysAt base i v) (hi : i < base.history.length)
    (frames : List (Nat × Nat)) (hframes : base.history.length ≤ i + frames.length) :
    PlayedOut base (v.handleAll (dueTurns frames)) := by
  induction frames generalizing v i with
  | nil => exact absurd hi (Nat.not_lt_of_le hframes)
  | cons frame rest ih =>
    rw [List.length_cons] at hframes
    rw [handleAll_dueTurns_cons]
    -- the turn that finds no next state is the one after the last state was shown
    rcases Nat.lt_or_eq_of_le hi with hnext | hlast
    · exact ih (h.turn hnext frame.1 frame.2).1 hnext (by omega)
    · exact (h.turn_last hlast frame.1 frame.2).turns rest

/-- Playback shows each of the recorded states that are left once, in order, and stops. Take a
viewer of a recorded run after any signals, if it plays and is not about to quit: after some turns
that are all due it shows the state so many places further on and goes on playing, as long as there
is one; with the turn after the last state it stops there, and further turns leave it so. -/
theorem playback_shows_rest (field : Playfield) (input : List UInt8) (directions : Directions)
    (config : Config) (hrecord : config.record = true) (early : Bool) :
    ∃ r, record (start field (Buffered.ofInput input) directions config) = some r ∧
      ∀ signals,
        let v := (ofRecording r.session early).handleAll signals
        let total := v.session.history.length
        1 ≤ total → v.playing = true → v.quitting = false → ∀ frames,
          let w := v.handleAll (dueTurns frames)
          v.session.history.get? w.session.position = some w.session.state ∧
          (1 ≤ frames.length → frames.length ≤ total - 1 - v.session.position →
            w.session.position = v.session.position + frames.length ∧ w.playing = true ∧
              w.status = "Playing...") ∧
          (total - v.session.position ≤ frames.length →
            w.session.position = total - 1 ∧ w.playing = false ∧
              w.status = "Playback complete") := by
  obtain ⟨r, _, _, hr, -, hstart⟩ := record_start field input directions hrecord
  refine ⟨r, hr, ?_⟩
  intro signals v total htotal hplaying hquitting frames w
  obtain ⟨j, hj, hv⟩ := session_handleAll (v := ofRecording r.session early) (Nat.zero_le _)
    hstart signals
  have hplays : PlaysAt r.ending.session j v := ⟨hv, hplaying, hquitting⟩
  have hposition : v.session.position = j := by rw [hplays.session, position_showing]
  have hhistory : v.session.history = r.ending.session.history := by
    rw [hplays.session, history_showing]
  have hlength : total = r.ending.session.history.length := congrArg History.length hhistory
  rw [hposition, hhistory, hlength]
  rw [hlength] at htotal
  refine ⟨?_, ?_, ?_⟩
  · obtain ⟨k, hk, hw⟩ := session_handleAll hj hplays.session (dueTurns frames)
    have hshown : w.session = r.ending.session.showing k := hw
    rw [hshown, position_showing]
    exact get?_showing (by omega)
  · intro hsome hframes
    obtain ⟨hlast, hstatus⟩ := hplays.turns frames (by omega)
    refine ⟨?_, hlast.playing, hstatus (List.length_pos_iff.mp hsome)⟩
    rw [hlast.session, position_showing]
  · intro hframes
    have hout := hplays.playedOut (by omega) frames (by omega)
    refine ⟨?_, hout.playing, hout.status⟩
    rw [hout.session, position_showing]

/-- Four states are recorded and the second one is shown when the playing begins: two turns show the
other two, and the third one stops. -/
theorem playback_shows_rest_from_second :
    ∃ r, record (start (.load "1.@") (Buffered.ofInput []) (.ofScript []) { record := true }) =
        some r ∧
      let v := (ofRecording r.session false).handleAll
        [.key true (.char '1'), .key true (.char ' ')]
      let w := v.handleAll (dueTurns [(110, 34), (80, 24)])
      let stopped := v.handleAll (dueTurns [(110, 34), (80, 24), (0, 0)])
      (w.session.position = 3 ∧ w.playing = true ∧ w.status = "Playing...") ∧
        stopped.session.position = 3 ∧ stopped.playing = false ∧
        stopped.status = "Playback complete" := by
  have hview : (record (start (.load "1.@") (Buffered.ofInput []) (.ofScript [])
      { record := true })).map (fun r =>
        let v := (ofRecording r.session false).handleAll
          [.key true (.char '1'), .key true (.char ' ')]
        (v.session.history.length, v.session.position, v.playing, v.quitting)) =
      some (4, 1, true, false) := by
    decide +kernel
  obtain ⟨r, hr, hplayback⟩ := playback_shows_rest (.load "1.@") [] (.ofScript [])
    { record := true } rfl false
  rw [hr, Option.map_some, Option.some.injEq, Prod.mk.injEq, Prod.mk.injEq, Prod.mk.injEq] at hview
  obtain ⟨htotal, hposition, hplaying, hquitting⟩ := hview
  refine ⟨r, hr, ?_⟩
  have hplays := hplayback [.key true (.char '1'), .key true (.char ' ')]
    (by rw [htotal]; decide) hplaying hquitting
  rw [htotal, hposition] at hplays
  exact ⟨(hplays _).2.1 (by decide) (by decide), (hplays _).2.2 (by decide)⟩

end Befunge.Viewer
