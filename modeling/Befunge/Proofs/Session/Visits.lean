import Befunge.Proofs.History.Account
import Befunge.Proofs.History.Executions
import Befunge.Proofs.Machine.Place
import Befunge.Proofs.Session.Coherence

/-!
# The profile against the record

As long as all calls succeed, the profile knows exactly the cells that recorded steps executed. The
visits it counts are those on record and, of the cells that were executed before the place where a
future was dropped, also those that were dropped with it.
-/

namespace Befunge

/-- How many recorded steps executed the cell at a position: all states but the last were left by a
recorded step. -/
def History.visits (h : History) (p : Position) : Nat :=
  h.states.toList.dropLast.countP (·.isAt p)

theorem filter_steps_eq_take {l : List State}
    (hl : ∀ (i : Nat) (u : State), l[i]? = some u → u.steps = i) (k : Nat) :
    l.filter (·.steps < k) = l.take k := by
  have htake : ∀ u ∈ l.take k, decide (u.steps < k) = true := by
    intro u hu
    obtain ⟨i, hi⟩ := List.mem_iff_getElem?.mp hu
    rw [List.getElem?_take] at hi
    split at hi
    · next hik => simpa [hl i u hi] using hik
    · cases hi
  have hdrop : ∀ u ∈ l.drop k, ¬decide (u.steps < k) = true := by
    intro u hu
    obtain ⟨i, hi⟩ := List.mem_iff_getElem?.mp hu
    rw [List.getElem?_drop] at hi
    simp [hl _ u hi]
  calc
    l.filter (·.steps < k) = (l.take k ++ l.drop k).filter (·.steps < k) := by
      rw [List.take_append_drop]
    _ = l.take k ++ [] := by
      rw [List.filter_append, List.filter_eq_self.mpr htake, List.filter_eq_nil_iff.mpr hdrop]
    _ = l.take k := List.append_nil _

namespace Chronicle

variable {executed : List State} {start t : State} {h : History} {i : Nat}

theorem inBounds (hc : Chronicle executed start h) (hstart : start.cursor.position.InBounds)
    (hi : h.get? i = some t) : t.cursor.position.InBounds := by
  refine hc.induction_on (P := fun _ t => t.cursor.position.InBounds) hstart ?_ i t hi
  intro i a b o _ ha _ _ ht
  exact ht.inBounds ha

theorem steps_of_dropLast (hc : Chronicle executed start h) (hstart : start.steps = 0)
    (hi : h.states.toList.dropLast[i]? = some t) : t.steps = i ∧ i + 1 < h.length := by
  rw [List.getElem?_dropLast] at hi
  split at hi
  · next hlt =>
    rw [Array.length_toList] at hlt
    rw [Array.getElem?_toList] at hi
    refine ⟨hc.steps_eq hstart hi, ?_⟩
    unfold History.length
    omega
  · cases hi

end Chronicle

namespace Session

open Executions

variable {π : Type} {field : Playfield} {executed : List State} {s b : Session π}

/-- What calls that succeed keep of a recording session: the standing executions are those on
record, and the profile can be told from the executions. -/
structure Profiled (field : Playfield) (executed : List State) (s : Session π) : Prop where
  coherent : Coherent field executed true s
  standing : standing executed = s.history.states.toList.dropLast
  visits : ∀ p, s.machine.profile.visit? p = visit? p (since p executed)

theorem Profiled.steps_of_standing (hs : Profiled field executed s) {e : State}
    (he : e ∈ Executions.standing executed) : e.steps + 1 < s.history.length := by
  rw [hs.standing] at he
  obtain ⟨i, hi⟩ := List.mem_iff_getElem?.mp he
  obtain ⟨hsteps, hlt⟩ := hs.coherent.chronicle.steps_of_dropLast rfl hi
  omega

theorem Profiled.restore {s' : Session π} {i : Nat} (hs : Profiled field executed s)
    (hr : s.restore i = .ok s') : Profiled field executed s' := by
  have hnext := hs.coherent.restore hr
  unfold Session.restore at hr
  split at hr
  · cases hr
  · cases hr
    exact ⟨hnext, hs.standing, hs.visits⟩

theorem profiled_start (field : Playfield) (console : π) (directions : Directions)
    {config : Config} (hrecord : config.record = true) :
    Profiled field [] (start field console directions config) where
  coherent := coherent_start field console directions hrecord
  standing := rfl
  visits := Profile.visit?_empty

theorem filter_visit?_of_lt {p : Position} {n : Nat}
    (hlt : ∀ e ∈ Executions.standing executed, e.steps < n) :
    (visit? p (since p executed)).filter (·.firstStep ≤ n) = visit? p (since p executed) := by
  cases he : since p executed with
  | nil => rfl
  | cons e later => rw [filter_visit?_cons, if_pos (hlt e (mem_of_since he).1)]

variable [Console π]

theorem states_discardFuture (s : Session π) :
    s.discardFuture.history.states.toList = s.history.states.toList.take (s.position + 1) := by
  cases hf : s.hasFuture with
  | true =>
    rw [discardFuture_of_hasFuture hf]
    exact History.states_truncate _ _
  | false =>
    rw [discardFuture_of_not_hasFuture hf, List.take_of_length_le]
    have hend := length_le_of_not_hasFuture hf
    rw [Array.length_toList]
    exact hend

namespace Profiled

theorem standing_of_opened (hs : Profiled field executed s) (ho : s.opened = (.ok (), b)) :
    Executions.standing (executed ++ [s.state]) = b.history.states.toList := by
  rw [standing_concat, hs.standing]
  rcases opened_cases ho with ⟨hlength, h, hp, rfl⟩ | ⟨hlength, rfl⟩
  · have hnil : s.history.states.toList = [] := by
      rw [← List.length_eq_zero_iff, Array.length_toList]
      exact hlength
    rw [History.states_of_push hp, hnil]
    rfl
  · -- recorded states stand at the index that their steps count, so the cut of the record at the
    -- position and the filter of the executions by steps keep the same ones
    have hshown := hs.coherent.shown hlength
    have hposition := History.lt_length_of_get? hshown
    have hsteps := hs.coherent.chronicle.steps_eq rfl hshown
    have hget : s.history.states.toList[s.position]? = some s.state := by
      rw [Array.getElem?_toList]
      exact hshown
    have hle : min s.position (s.history.states.toList.length - 1) = s.position := by
      rw [Array.length_toList]
      unfold History.length at hposition
      omega
    rw [filter_steps_eq_take fun i u hi => (hs.coherent.chronicle.steps_of_dropLast rfl hi).1,
      hsteps, List.dropLast_eq_take, List.take_take, hle, states_discardFuture,
      List.take_add_one, hget]
    rfl

theorem visits_of_opened (hs : Profiled field executed s) (ho : s.opened = (.ok (), b))
    (p : Position) : b.machine.profile.visit? p =
      (visit? p (since p executed)).filter (·.firstStep ≤ s.state.steps) := by
  rcases opened_cases ho with ⟨hlength, h, hp, rfl⟩ | ⟨hlength, rfl⟩
  · rw [filter_visit?_of_lt]
    · exact hs.visits p
    · intro e he
      have := hs.steps_of_standing he
      omega
  · cases hf : s.hasFuture with
    | true =>
      rw [discardFuture_of_hasFuture hf, ← hs.visits]
      exact Profile.visit?_forget _ _ p
    | false =>
      rw [discardFuture_of_not_hasFuture hf, filter_visit?_of_lt]
      · exact hs.visits p
      · intro e he
        have hsteps := hs.coherent.chronicle.steps_eq rfl (hs.coherent.shown hlength)
        have hend := length_le_of_not_hasFuture hf
        have := hs.steps_of_standing he
        omega

theorem of_recorded {o : Outcome} {m : Machine π} {h : History} (hs : Profiled field executed s)
    (hh : s.state.halted = false) (ho : s.opened = (.ok (), b))
    (hc : b.machine.cycle b.config.debug = (.ok o, m)) (hp : b.history.push m.state = (.ok (), h)) :
    Profiled field (executed ++ [s.state])
      { b with machine := m, history := h, position := h.length - 1 } where
  coherent := by
    have hb := hs.coherent.atEnd_of_opened ho
    have hsame := (state_of_opened ho).1
    exact hsame ▸ hb.coherent_of_recorded (hsame ▸ hh) hc hp
  standing := by
    rw [hs.standing_of_opened ho, History.states_of_push hp, List.dropLast_concat]
  visits := by
    intro p
    have hb := hs.coherent.atEnd_of_opened ho
    have hsame := (state_of_opened ho).1
    have hbounds := hb.chronicle.inBounds (State.initial_inBounds field) hb.last
    have hprofile : m.profile =
        b.machine.profile.count s.state.cursor.position (s.state.steps + 1) := by
      have hcount := Machine.profile_cycle b.config.debug b.machine
      rw [hc] at hcount
      rw [← hsame]
      exact hcount
    rw [hsame] at hbounds
    change m.profile.visit? p = _
    rw [hprofile, Profile.visit?_count, visit?_concat]
    by_cases hat : s.state.cursor.position = p
    · subst hat
      rw [if_pos ⟨rfl, hbounds⟩, if_pos (State.isAt_iff.mpr rfl), hs.visits_of_opened ho]
    · rw [if_neg fun h => hat h.1, if_neg (mt State.isAt_iff.mp hat), hs.visits_of_opened ho]

theorem step {o : Outcome} {s' : Session π} (hs : Profiled field executed s)
    (hstep : s.step = (.ok o, s')) : Profiled field (executed ++ s.executedByStep) s' := by
  have hcases := recordedStep_step hs.coherent.record
  rw [hstep] at hcases
  cases hcases with
  | halted hh =>
    rw [executedByStep, if_pos hh, List.append_nil]
    exact hs
  | recorded hh ho hc hp =>
    rw [executedByStep_of_opened hs.coherent.record hh ho, (state_of_opened ho).1]
    exact hs.of_recorded hh ho hc hp

end Profiled

theorem profiled_steady (field : Playfield) : Steady (π := π) (Profiled field) where
  step _ _ _ _ hs hstep := hs.step hstep
  flush e s stopped hs :=
    ⟨(coherent_invariant field).flush e true s stopped hs.coherent, hs.standing, hs.visits⟩
  restore _ _ _ _ hs hr := hs.restore hr

theorem profiled_of_flawless {console : π} {directions : Directions} {config : Config}
    {calls : List Call} {t : Trail π} (hrecord : config.record = true)
    (h : (start field console directions config).flawless calls = some t) :
    Profiled field t.executed t.session :=
  (profiled_steady field).flawless (profiled_start field console directions hrecord) h

/-- A cell is in the profile exactly if a recorded step executed it. Its hits are the recorded
steps that did so and, besides, the overtaken executions of it since the first recorded one: the
profile tells the record alone only where there are none of these. -/
theorem hits_eq_visits_add_overtaken {console : π} {directions : Directions} {config : Config}
    {calls : List Call} {t : Trail π} (hrecord : config.record = true)
    (h : (start field console directions config).flawless calls = some t) (p : Position) :
    (t.session.machine.profile.visit? p = none ↔ t.session.history.visits p = 0) ∧
      ∀ v, t.session.machine.profile.visit? p = some v →
        v.hits = t.session.history.visits p +
          (overtaken (since p t.executed)).countP (·.isAt p) := by
  have hs := profiled_of_flawless hrecord h
  unfold History.visits
  rw [hs.visits p, ← hs.standing]
  constructor
  · rw [visit?_eq_none_iff, since_eq_nil_iff]
  · intro v hv
    rw [hits_of_visit? hv, countP_eq_standing_add_overtaken, countP_standing_since]

/-- Two cells that send the cursor to and fro, executed five times, twice taken back and executed
once more: the second one is on record twice and was overtaken once. -/
theorem hits_eq_visits_add_overtaken_looped :
    ∃ t : Trail Buffered, ∃ v,
      (start (.load "><") (Buffered.ofInput []) (.ofScript []) { record := true }).flawless
        [.step, .step, .step, .step, .step, .stepBackward, .stepBackward, .step] = some t ∧
      t.session.machine.profile.visit? ⟨1, 0⟩ = some v ∧
      t.session.history.visits ⟨1, 0⟩ = 2 ∧ v.hits = 2 + 1 := by
  have hview : ((start (.load "><") (Buffered.ofInput []) (.ofScript [])
      { record := true }).flawless
        [.step, .step, .step, .step, .step, .stepBackward, .stepBackward, .step]).map
      (fun t => (visit? ⟨1, 0⟩ (since ⟨1, 0⟩ t.executed), t.session.history.visits ⟨1, 0⟩,
        (overtaken (since ⟨1, 0⟩ t.executed)).countP (·.isAt ⟨1, 0⟩))) =
      some (some ⟨3, 2⟩, 2, 1) := by
    decide +kernel
  obtain ⟨t, ht, heq⟩ := Option.map_eq_some_iff.mp hview
  simp only [Prod.mk.injEq] at heq
  obtain ⟨hvisit, hvisits, hovertaken⟩ := heq
  rw [← (profiled_of_flawless rfl ht).visits] at hvisit
  have hhits := (hits_eq_visits_add_overtaken rfl ht ⟨1, 0⟩).2 _ hvisit
  rw [hvisits, hovertaken] at hhits
  exact ⟨t, _, ht, hvisit, hvisits, hhits⟩

/-- Three steps, two of them taken back, and another step: the first cell has two hits, though only
one of the two recorded steps executed it. -/
theorem hits_ne_visits_of_dropped_future :
    ∃ t : Trail Buffered,
      (start (.load "><") (Buffered.ofInput []) (.ofScript []) { record := true }).flawless
        [.step, .step, .step, .stepBackward, .stepBackward, .step] = some t ∧
      t.executed.length = 4 ∧ t.session.history.length = 3 ∧
      (t.session.machine.profile.visit? ⟨0, 0⟩).map Visit.hits = some 2 ∧
      t.session.history.visits ⟨0, 0⟩ = 1 := by
  have hview : ((start (.load "><") (Buffered.ofInput []) (.ofScript [])
      { record := true }).flawless
        [.step, .step, .step, .stepBackward, .stepBackward, .step]).map
      (fun t => (t.executed.length, t.session.history.length,
        (visit? ⟨0, 0⟩ (since ⟨0, 0⟩ t.executed)).map Visit.hits,
        t.session.history.visits ⟨0, 0⟩)) = some (4, 3, some 2, 1) := by
    decide +kernel
  obtain ⟨t, ht, heq⟩ := Option.map_eq_some_iff.mp hview
  rw [← (profiled_of_flawless rfl ht).visits] at heq
  simp only [Prod.mk.injEq] at heq
  exact ⟨t, ht, heq⟩

end Session

end Befunge
