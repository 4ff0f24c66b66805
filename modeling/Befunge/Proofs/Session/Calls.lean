import Befunge.Session.Navigate
import Befunge.Session.Run

/-!
# Calls to a session

A session is driven by calls: some execute the program, the others move through the record. The
sessions reached by calls are those of a careful user, who after a failed execution first moves to
a recorded state. What steps, moves and flushes preserve is preserved by every such use.
-/

namespace Befunge.Session

variable {π : Type}

inductive Call where
  | step
  | run
  | stepBackward
  | stepForward
  | rewind
  | jumpToEnd
  deriving DecidableEq, Repr

def Call.executes : Call → Bool
  | .step | .run => true
  | _ => false

/-- A navigation that is refused leaves the session as it is. -/
def orStay (s : Session π) : Except Fault (Session π) → Attempt Fault (Session π) Unit
  | .ok s' => (.ok (), s')
  | .error f => (.error f, s)

variable [Console π]

/-- What a call answers and what it leaves; `none` for a run without an end. -/
def perform (s : Session π) : Call → Option (Attempt Fault (Session π) Unit)
  | .step => some (s.step.1.map fun _ => (), s.step.2)
  | .run => s.run.map fun e => (e.result, e.session)
  | .stepBackward => some (s.orStay s.stepBackward)
  | .stepForward => some (s.orStay s.stepForward)
  | .rewind => some (s.orStay s.rewind)
  | .jumpToEnd => some (s.orStay s.jumpToEnd)

/-- The answers to a number of steps, taken whatever the answers are, and the session after them. -/
def stepTimes : Nat → Session π → List (Except Fault Outcome) × Session π
  | 0, s => ([], s)
  | n + 1, s => (s.step.1 :: (stepTimes n s.step.2).1, (stepTimes n s.step.2).2)

theorem stepTimes_succ (n : Nat) (s : Session π) :
    s.stepTimes (n + 1) =
      ((s.stepTimes n).1 ++ [(s.stepTimes n).2.step.1], (s.stepTimes n).2.step.2) := by
  induction n generalizing s with
  | zero => rfl
  | succ n ih =>
    change (s.step.1 :: (s.step.2.stepTimes (n + 1)).1, (s.step.2.stepTimes (n + 1)).2) = _
    rw [ih s.step.2]
    rfl

theorem step_of_plain {p : Session π} (hp : p.config.record = false)
    (hh : p.state.halted = false) {r : Except Fault Outcome} {m : Machine π}
    (hc : p.machine.cycle p.config.debug = (r, m)) : p.step = (r, { p with machine := m }) := by
  obtain ⟨config, loaded, machine, history, position⟩ := p
  simp only at hp hc
  unfold step
  rw [if_neg (by simp [hh]), if_neg (by simp [hp]), cycle, hc]
  cases r <;> rfl

/-- The session in which the cycle of a recorded step takes place. -/
def opened (s : Session π) : Attempt Fault (Session π) Unit := s.discardFuture.recordStart

/-- The state from which a step executes a cycle, if it comes to that. -/
def executedByStep (s : Session π) : List State :=
  if s.state.halted then []
  else if s.config.record then
    match s.opened with
    | (.ok (), s) => [s.state]
    | (.error _, _) => []
  else [s.state]

/-- The states from which a run executes cycles, in order. -/
def executedByRun : Nat → Session π → List State
  | 0, _ => []
  | fuel + 1, s =>
    match s.exhausted? with
    | some _ => []
    | none =>
      s.executedByStep ++
        match s.step with
        | (.ok .proceed, s) => executedByRun fuel s
        | _ => []

def executedBy (s : Session π) : Call → List State
  | .step => s.executedByStep
  | .run => s.executedByRun s.fuel
  | _ => []

/-- `Reach start executed settled s`: calls lead from `start` to `s` and execute cycles from the
states `executed` on the way. From a failed execution until the next successful navigation the
session is not `settled`, and nothing is executed. -/
inductive Reach (start : Session π) : List State → Bool → Session π → Prop
  | refl : Reach start [] true start
  | execute {executed : List State} {s s' : Session π} {c : Call} {r : Except Fault Unit}
      (h : Reach start executed true s) (hc : c.executes = true)
      (hp : s.perform c = some (r, s')) : Reach start (executed ++ s.executedBy c) r.isOk s'
  | navigate {executed : List State} {settled : Bool} {s s' : Session π} {c : Call}
      {r : Except Fault Unit} (h : Reach start executed settled s) (hc : c.executes = false)
      (hp : s.perform c = some (r, s')) : Reach start executed (settled || r.isOk) s'

/-- How a use of a session stands: the session, whether it is settled, and the states from which
cycles were executed so far. -/
structure Trail (π : Type) where
  session : Session π
  settled : Bool := true
  executed : List State := []

/-- One more call; `none` if it may not be made yet or does not end. -/
def Trail.perform (t : Trail π) (c : Call) : Option (Trail π) :=
  if c.executes = true ∧ t.settled = false then none
  else
    (t.session.perform c).map fun (r, s) =>
      ⟨s, (!c.executes && t.settled) || r.isOk, t.executed ++ t.session.executedBy c⟩

/-- The use of a session by calls in order. -/
def replay (s : Session π) (calls : List Call) : Option (Trail π) :=
  calls.foldlM Trail.perform { session := s }

theorem executedBy_of_navigation {s : Session π} {c : Call} (hc : c.executes = false) :
    s.executedBy c = [] := by
  cases c with
  | step | run => cases hc
  | stepBackward | stepForward | rewind | jumpToEnd => rfl

theorem Reach.perform {start : Session π} {t t' : Trail π} {c : Call}
    (h : Reach start t.executed t.settled t.session) (hp : t.perform c = some t') :
    Reach start t'.executed t'.settled t'.session := by
  unfold Trail.perform at hp
  split at hp
  · cases hp
  · next hmay =>
    obtain ⟨⟨r, s⟩, hr, rfl⟩ := Option.map_eq_some_iff.mp hp
    cases hc : c.executes with
    | true =>
      have hsettled : t.settled = true := by simpa [hc] using hmay
      exact .execute (hsettled ▸ h) hc hr
    | false =>
      simp only [executedBy_of_navigation hc, List.append_nil, Bool.not_false, Bool.true_and]
      exact .navigate h hc hr

theorem Reach.performAll {start : Session π} {t t' : Trail π} {calls : List Call}
    (h : Reach start t.executed t.settled t.session)
    (hp : calls.foldlM Trail.perform t = some t') :
    Reach start t'.executed t'.settled t'.session := by
  induction calls generalizing t with
  | nil =>
    obtain rfl := Option.some.inj hp
    exact h
  | cons c calls ih =>
    rw [List.foldlM_cons] at hp
    obtain ⟨t₁, ht₁, hrest⟩ := Option.bind_eq_some_iff.mp hp
    exact ih (h.perform ht₁) hrest

/-- The sessions reached are those to which some list of calls leads. -/
theorem reach_iff_replay {start s : Session π} {executed : List State} {settled : Bool} :
    Reach start executed settled s ↔
      ∃ calls, start.replay calls = some ⟨s, settled, executed⟩ := by
  constructor
  · intro h
    induction h with
    | refl => exact ⟨[], rfl⟩
    | @execute executed s s' c r _ hc hp ih =>
      obtain ⟨calls, hcalls⟩ := ih
      refine ⟨calls ++ [c], ?_⟩
      rw [replay] at hcalls ⊢
      simp [List.foldlM_append, hcalls, Trail.perform, hc, hp]
    | @navigate executed settled s s' c r _ hc hp ih =>
      obtain ⟨calls, hcalls⟩ := ih
      refine ⟨calls ++ [c], ?_⟩
      rw [replay] at hcalls ⊢
      simp [List.foldlM_append, hcalls, Trail.perform, hc, hp, executedBy_of_navigation hc]
  · rintro ⟨calls, hcalls⟩
    exact Reach.performAll (t := ⟨start, true, []⟩) .refl hcalls

/-- A navigation restores a recorded state or does nothing. -/
theorem restore_of_perform {s s' : Session π} {c : Call} {r : Except Fault Unit}
    (hc : c.executes = false) (hp : s.perform c = some (r, s')) :
    (∃ i, s.restore i = .ok s' ∧ r = .ok ()) ∨ ∃ f, r = .error f ∧ s' = s := by
  have hstay : ∀ i, s.orStay (s.restore i) = (r, s') →
      (∃ i, s.restore i = .ok s' ∧ r = .ok ()) ∨ ∃ f, r = .error f ∧ s' = s := by
    intro i h
    cases hr : s.restore i with
    | ok t =>
      simp only [hr, orStay, Prod.mk.injEq] at h
      exact .inl ⟨i, by rw [hr, h.2], h.1.symm⟩
    | error f =>
      simp only [hr, orStay, Prod.mk.injEq] at h
      exact .inr ⟨f, h.1.symm, h.2.symm⟩
  have hrefused : ∀ f, s.orStay (.error f) = (r, s') →
      (∃ i, s.restore i = .ok s' ∧ r = .ok ()) ∨ ∃ f, r = .error f ∧ s' = s := by
    intro f h
    simp only [orStay, Prod.mk.injEq] at h
    exact .inr ⟨f, h.1.symm, h.2.symm⟩
  cases c with
  | step | run => cases hc
  | stepBackward | stepForward | rewind | jumpToEnd =>
    simp only [perform, stepBackward, stepForward, rewind, jumpToEnd, Option.some.injEq] at hp
    split at hp
    · exact hrefused _ hp
    · exact hstay _ hp

/-- What a user can rely on: steps, moves and flushes keep it, and it does not get lost when a
settled session counts as one that is not. -/
structure Invariant (I : List State → Bool → Session π → Prop) : Prop where
  step : ∀ e s, I e true s → I (e ++ s.executedByStep) s.step.1.isOk s.step.2
  unsettle : ∀ e s, I e true s → I e false s
  flush : ∀ e settled s stopped, I e settled s → I e settled (s.finish stopped).session
  restore : ∀ e settled i s s', I e settled s → s.restore i = .ok s' → I e true s'

namespace Invariant

variable {I : List State → Bool → Session π → Prop} {e : List State} {s s' : Session π}

theorem runFor (hI : Invariant I) {fuel : Nat} {r : Except Fault Unit} (h : I e true s)
    (hrun : s.runFor fuel = some (r, s')) : I (e ++ s.executedByRun fuel) r.isOk s' := by
  induction fuel generalizing e s with
  | zero => cases hrun
  | succ fuel ih =>
    rw [Session.runFor] at hrun
    rw [executedByRun]
    cases hlimit : s.exhausted? with
    | some limit =>
      simp only [hlimit, Option.some.injEq, Prod.mk.injEq] at hrun ⊢
      obtain ⟨rfl, rfl⟩ := hrun
      rw [List.append_nil]
      exact hI.unsettle e s h
    | none =>
      have hnext := hI.step e s h
      rcases hstep : s.step with ⟨f | (_ | _), t⟩
      · simp only [hlimit, hstep, Option.some.injEq, Prod.mk.injEq] at hrun hnext ⊢
        obtain ⟨rfl, rfl⟩ := hrun
        rw [List.append_nil]
        exact hnext
      · simp only [hlimit, hstep] at hrun hnext ⊢
        rw [← List.append_assoc]
        exact ih hnext hrun
      · simp only [hlimit, hstep, Option.some.injEq, Prod.mk.injEq] at hrun hnext ⊢
        obtain ⟨rfl, rfl⟩ := hrun
        rw [List.append_nil]
        exact hnext

theorem run (hI : Invariant I) {ending : Ending π} (h : I e true s) (hrun : s.run = some ending) :
    I (e ++ s.executedByRun s.fuel) ending.result.isOk ending.session := by
  obtain ⟨⟨stopped, t⟩, hfor, rfl⟩ := Option.map_eq_some_iff.mp hrun
  have ht := hI.flush _ _ _ stopped (hI.runFor h hfor)
  cases stopped with
  | error f => exact ht
  | ok u =>
    -- a refused flush makes a run fail that had ended well
    cases hflush : (t.finish (.ok u)).flushed with
    | ok v =>
      simp only [Ending.result, hflush]
      exact ht
    | error f =>
      simp only [Ending.result, hflush]
      exact hI.unsettle _ _ ht

theorem reach (hI : Invariant I) {start : Session π} {settled : Bool} (hstart : I [] true start)
    (h : Reach start e settled s) : I e settled s := by
  induction h with
  | refl => exact hstart
  | @execute executed s s' c r _ hc hp ih =>
    cases c with
    | step =>
      simp only [perform, Option.some.injEq, Prod.mk.injEq] at hp
      obtain ⟨rfl, rfl⟩ := hp
      have hok : (s.step.1.map fun _ => ()).isOk = s.step.1.isOk := by
        cases s.step.1 <;> rfl
      rw [hok]
      exact hI.step executed s ih
    | run =>
      obtain ⟨ending, hrun, heq⟩ := Option.map_eq_some_iff.mp hp
      simp only [Prod.mk.injEq] at heq
      obtain ⟨rfl, rfl⟩ := heq
      exact hI.run ih hrun
    | stepBackward | stepForward | rewind | jumpToEnd => cases hc
  | @navigate executed settled s s' c r _ hc hp ih =>
    rcases restore_of_perform hc hp with ⟨i, hi, rfl⟩ | ⟨f, rfl, rfl⟩
    · rw [show (settled || (Except.ok () : Except Fault Unit).isOk) = true from Bool.or_true _]
      exact hI.restore executed settled i s s' ih hi
    · rw [show (settled || (Except.error f : Except Fault Unit).isOk) = settled from
        Bool.or_false _]
      exact ih

end Invariant

/-- One more call that succeeds. -/
def Trail.succeed (t : Trail π) (c : Call) : Option (Trail π) :=
  match t.session.perform c with
  | some (.ok (), s) => some ⟨s, true, t.executed ++ t.session.executedBy c⟩
  | _ => none

/-- The use of a session by calls all of which succeed. -/
def flawless (s : Session π) (calls : List Call) : Option (Trail π) :=
  calls.foldlM Trail.succeed { session := s }

/-- What a user can rely on who never meets a failure. -/
structure Steady (I : List State → Session π → Prop) : Prop where
  step : ∀ e s o s', I e s → s.step = (.ok o, s') → I (e ++ s.executedByStep) s'
  flush : ∀ e s stopped, I e s → I e (s.finish stopped).session
  restore : ∀ e i s s', I e s → s.restore i = .ok s' → I e s'

namespace Steady

variable {I : List State → Session π → Prop} {e : List State} {s s' : Session π}

theorem runFor (hI : Steady I) {fuel : Nat} (h : I e s)
    (hrun : s.runFor fuel = some (.ok (), s')) : I (e ++ s.executedByRun fuel) s' := by
  induction fuel generalizing e s with
  | zero => cases hrun
  | succ fuel ih =>
    rw [Session.runFor] at hrun
    rw [executedByRun]
    cases hlimit : s.exhausted? with
    | some limit =>
      rw [hlimit] at hrun
      cases hrun
    | none =>
      rcases hstep : s.step with ⟨f | (_ | _), t⟩
      · simp only [hlimit, hstep] at hrun
        cases hrun
      · simp only [hlimit, hstep] at hrun ⊢
        rw [← List.append_assoc]
        exact ih (hI.step e s _ t h hstep) hrun
      · simp only [hlimit, hstep, Option.some.injEq, Prod.mk.injEq, true_and] at hrun ⊢
        obtain rfl := hrun
        rw [List.append_nil]
        exact hI.step e s _ t h hstep

theorem run (hI : Steady I) {ending : Ending π} (h : I e s) (hrun : s.run = some ending)
    (hok : ending.result = .ok ()) : I (e ++ s.executedByRun s.fuel) ending.session := by
  obtain ⟨⟨stopped, t⟩, hfor, rfl⟩ := Option.map_eq_some_iff.mp hrun
  cases stopped with
  | error f => cases hok
  | ok u => exact hI.flush _ _ _ (hI.runFor h hfor)

theorem perform (hI : Steady I) {c : Call} (h : I e s) (hp : s.perform c = some (.ok (), s')) :
    I (e ++ s.executedBy c) s' := by
  cases c with
  | step =>
    simp only [Session.perform, Option.some.injEq, Prod.mk.injEq] at hp
    obtain ⟨hok, rfl⟩ := hp
    rcases hstep : s.step with ⟨f | o, t⟩
    · rw [hstep] at hok
      cases hok
    · exact hI.step e s o t h hstep
  | run =>
    obtain ⟨ending, hrun, heq⟩ := Option.map_eq_some_iff.mp hp
    simp only [Prod.mk.injEq] at heq
    obtain ⟨hok, rfl⟩ := heq
    exact hI.run h hrun hok
  | stepBackward | stepForward | rewind | jumpToEnd =>
    rw [executedBy_of_navigation rfl, List.append_nil]
    rcases restore_of_perform rfl hp with ⟨i, hi, -⟩ | ⟨f, hf, -⟩
    · exact hI.restore e i s s' h hi
    · cases hf

theorem succeed (hI : Steady I) {t t' : Trail π} {c : Call} (h : I t.executed t.session)
    (hp : t.succeed c = some t') : I t'.executed t'.session := by
  unfold Trail.succeed at hp
  split at hp
  · next s hs =>
    obtain rfl := Option.some.inj hp
    exact hI.perform h hs
  · cases hp

theorem flawless (hI : Steady I) {start : Session π} {calls : List Call} {t : Trail π}
    (hstart : I [] start) (h : start.flawless calls = some t) : I t.executed t.session := by
  have hall : ∀ (calls : List Call) (t₀ : Trail π), I t₀.executed t₀.session →
      calls.foldlM Trail.succeed t₀ = some t → I t.executed t.session := by
    intro calls
    induction calls with
    | nil =>
      intro t₀ h₀ ht
      obtain rfl := Option.some.inj ht
      exact h₀
    | cons c calls ih =>
      intro t₀ h₀ ht
      rw [List.foldlM_cons] at ht
      obtain ⟨t₁, ht₁, hrest⟩ := Option.bind_eq_some_iff.mp ht
      exact ih t₁ (hI.succeed h₀ ht₁) hrest
  exact hall calls _ hstart h

end Steady

/-- The session after calls in order, whatever they answer; `none` if a run among them has no
end. -/
def performAll (s : Session π) (calls : List Call) : Option (Session π) :=
  calls.foldlM (fun s c => (s.perform c).map Prod.snd) s

/-- What steps, flushes and moves keep of every session, also of one that a failure left behind. -/
structure Lasting (I : Session π → Prop) : Prop where
  step : ∀ s, I s → I s.step.2
  flush : ∀ s stopped, I s → I (s.finish stopped).session
  restore : ∀ i s s', I s → s.restore i = .ok s' → I s'

namespace Lasting

variable {I : Session π → Prop} {s s' : Session π}

theorem invariant (hI : Lasting I) : Invariant fun _ _ s => I s where
  step _ s h := hI.step s h
  unsettle _ _ h := h
  flush _ _ s stopped h := hI.flush s stopped h
  restore _ _ i s s' h hr := hI.restore i s s' h hr

theorem perform (hI : Lasting I) {c : Call} {r : Except Fault Unit} (h : I s)
    (hp : s.perform c = some (r, s')) : I s' := by
  have hreach : Reach s [] true s := .refl
  cases hc : c.executes with
  | true => exact hI.invariant.reach h (hreach.execute hc hp)
  | false => exact hI.invariant.reach h (hreach.navigate hc hp)

theorem performAll (hI : Lasting I) {calls : List Call} (h : I s)
    (hp : s.performAll calls = some s') : I s' := by
  unfold Session.performAll at hp
  induction calls generalizing s with
  | nil =>
    obtain rfl := Option.some.inj hp
    exact h
  | cons c calls ih =>
    rw [List.foldlM_cons] at hp
    obtain ⟨t, ht, hrest⟩ := Option.bind_eq_some_iff.mp hp
    obtain ⟨⟨r, u⟩, hu, rfl⟩ := Option.map_eq_some_iff.mp ht
    exact ih (hI.perform h hu) hrest

/-- A run that takes a step ends with what holds after that step. -/
theorem runFor_of_step (hI : Lasting I) {fuel : Nat} {r : Except Fault Unit}
    (hlimit : s.exhausted? = none) (h : I s.step.2) (hrun : s.runFor fuel = some (r, s')) :
    I s' := by
  cases fuel with
  | zero => cases hrun
  | succ fuel =>
    rw [runFor, hlimit] at hrun
    rcases hstep : s.step with ⟨f | (_ | _), t⟩
    · simp only [hstep, Option.some.injEq, Prod.mk.injEq] at hrun h
      exact hrun.2 ▸ h
    · simp only [hstep] at hrun h
      exact hI.invariant.runFor (e := []) h hrun
    · simp only [hstep, Option.some.injEq, Prod.mk.injEq] at hrun h
      exact hrun.2 ▸ h

end Lasting

end Befunge.Session
