import Befunge.Proofs.History.Chronicle

/-!
# The account of a history

The bytes in use are never counted afresh: they grow with each state that is added and shrink with
each one that is dropped, and what a state costs depends on the one before it at that moment. All
the same, requests lead only to histories that could have been built by adding states, and there
the bytes in use are what the states cost.
-/

namespace Befunge.History

variable {h h' : History} {s : State} {limit i : Nat}

/-- The history can be had by adding states to an empty one. -/
inductive Built (limit : Nat) : History → Prop
  | empty : Built limit (empty limit)
  | push {h h' : History} {s : State} (hb : Built limit h) (hp : h.push s = (.ok (), h')) :
      Built limit h'

/-- The state at an index has a playfield of its own: it is the first, or the state before it has
another one. -/
def OwnsField (h : History) (i : Nat) : Prop :=
  i = 0 ∨ (h.get? (i - 1)).map State.edition ≠ (h.get? i).map State.edition

instance (h : History) : DecidablePred h.OwnsField := fun _ => inferInstanceAs (Decidable (_ ∨ _))

/-- What states cost apart from their playfields: 80 bytes each, and 8 for each value on its
stack. -/
def sizes : List State → Nat
  | [] => 0
  | s :: rest => 80 + 8 * s.stack.depth + sizes rest

/-- What the states of a history cost, with 16000 bytes for each playfield. -/
def cost (h : History) : Nat :=
  sizes h.states.toList + 16000 * (List.range h.length).countP (h.OwnsField ·)

theorem sizes_concat (states : List State) (s : State) :
    sizes (states ++ [s]) = sizes states + (80 + 8 * s.stack.depth) := by
  induction states with
  | nil => simp [sizes]
  | cons t states ih =>
    rw [List.cons_append, sizes, sizes, ih]
    omega

theorem states_of_push (hp : h.push s = (.ok (), h')) :
    h'.states.toList = h.states.toList ++ [s] := by
  obtain ⟨-, rfl⟩ := push_eq_ok_iff.mp hp
  exact Array.toList_push

theorem limit_of_push (hp : h.push s = (.ok (), h')) : h'.limit = h.limit := by
  obtain ⟨-, rfl⟩ := push_eq_ok_iff.mp hp
  rfl

theorem used_of_push (hp : h.push s = (.ok (), h')) :
    h'.used = h.used + charge h.states s ∧ h'.used ≤ h.limit := by
  obtain ⟨hfits, rfl⟩ := push_eq_ok_iff.mp hp
  exact ⟨rfl, hfits⟩

theorem pop_of_push (hp : h.push s = (.ok (), h')) : h'.pop = h := by
  obtain ⟨-, rfl⟩ := push_eq_ok_iff.mp hp
  obtain ⟨limit, used, states⟩ := h
  simp [pop]

theorem ownsField_of_push (hp : h.push s = (.ok (), h')) (hi : i < h.length) :
    h'.OwnsField i ↔ h.OwnsField i := by
  unfold OwnsField
  rw [get?_of_push hp, get?_of_push hp, if_neg (by omega), if_neg (by omega)]

theorem charge_of_push (hp : h.push s = (.ok (), h')) :
    charge h.states s = 80 + 8 * s.stack.depth + if h'.OwnsField h.length then 16000 else 0 := by
  have hlast : h.states.back? = h.get? (h.length - 1) := by
    simp [get?, length, Array.back?]
  have hown : h'.OwnsField h.length ↔ ¬h.states.back?.any (·.edition = s.edition) := by
    unfold OwnsField
    rw [get?_of_push hp, get?_of_push hp, if_pos rfl, hlast]
    rcases Nat.eq_zero_or_pos h.length with hzero | hpos
    · have hnone : h.get? (h.length - 1) = none := by
        apply Option.not_isSome_iff_eq_none.mp
        rw [get?_isSome_iff]
        omega
      rw [hnone]
      simp [hzero]
    · obtain ⟨last, hget⟩ := exists_get?_of_lt (h := h) (i := h.length - 1) (by omega)
      rw [if_neg (by omega), hget]
      simp [Nat.ne_of_gt hpos]
  unfold charge
  by_cases hsame : h.states.back?.any (·.edition = s.edition)
  · rw [if_pos hsame, if_neg (fun ho => hown.mp ho hsame)]
    rfl
  · rw [if_neg hsame, if_pos (hown.mpr hsame)]
    rfl

theorem cost_of_push (hp : h.push s = (.ok (), h')) : h'.cost = h.cost + charge h.states s := by
  have hsame : (List.range h.length).countP (h'.OwnsField ·) =
      (List.range h.length).countP (h.OwnsField ·) := by
    apply List.countP_congr
    intro i hi
    simp only [decide_eq_true_eq]
    exact ownsField_of_push hp (List.mem_range.mp hi)
  unfold cost
  rw [states_of_push hp, length_of_push hp, List.range_succ, List.countP_append, hsame,
    charge_of_push hp, sizes_concat]
  by_cases ho : h'.OwnsField h.length
  · rw [if_pos ho, List.countP_singleton, if_pos (decide_eq_true ho)]
    omega
  · rw [if_neg ho, List.countP_singleton, if_neg (by simpa using ho)]
    omega

theorem length_le_sizes (states : List State) : 80 * states.length ≤ sizes states := by
  induction states with
  | nil => exact Nat.le_refl 0
  | cons s states ih =>
    rw [List.length_cons, sizes]
    omega

/-- A record has a playfield, and each state takes room. -/
theorem length_le_cost (hpos : 0 < h.length) : 16000 + 80 * h.length ≤ h.cost := by
  have hstates : 80 * h.length ≤ sizes h.states.toList := length_le_sizes h.states.toList
  have hfirst : h.OwnsField 0 := .inl rfl
  have hfields : 0 < (List.range h.length).countP (h.OwnsField ·) :=
    List.countP_pos_iff.mpr ⟨0, List.mem_range.mpr hpos, decide_eq_true hfirst⟩
  unfold cost
  omega

namespace Built

theorem limit_eq (hb : Built limit h) : h.limit = limit := by
  induction hb with
  | empty => rfl
  | push _ hp ih => rw [limit_of_push hp, ih]

theorem used_eq_cost (hb : Built limit h) : h.used = h.cost := by
  induction hb with
  | empty => rfl
  | push _ hp ih => rw [(used_of_push hp).1, cost_of_push hp, ih]

theorem used_le_limit (hb : Built limit h) : h.used ≤ limit := by
  cases hb with
  | empty => exact Nat.zero_le limit
  | push hb hp => exact hb.limit_eq ▸ (used_of_push hp).2

theorem length_le_limit (hb : Built limit h) (hpos : 0 < h.length) :
    16000 + 80 * h.length ≤ limit := by
  have hcost := length_le_cost hpos
  rw [← hb.used_eq_cost] at hcost
  exact Nat.le_trans hcost hb.used_le_limit

theorem pop (hb : Built limit h) : Built limit h.pop := by
  cases hb with
  | empty => exact .empty
  | push hb hp => exact pop_of_push hp ▸ hb

theorem dropLast (hb : Built limit h) (n : Nat) : Built limit (h.dropLast n) := by
  induction n generalizing h with
  | zero => exact hb
  | succ n ih => exact ih hb.pop

theorem truncate (hb : Built limit h) (n : Nat) : Built limit (h.truncate n) := hb.dropLast _

/-- What the last state of a history gives back, the history has in use. -/
theorem released_le_used (hb : Built limit h) (hlast : h.states.back? = some s) :
    charge h.states.pop s ≤ h.used := by
  cases hb with
  | empty => cases hlast
  | @push k _ t hb hp =>
    obtain ⟨-, rfl⟩ := push_eq_ok_iff.mp hp
    obtain rfl : t = s := by simpa using hlast
    simp

end Built

/-- Adds states in turn, up to the first one that does not fit. -/
def pushAll (h : History) (states : List State) : Attempt Overflow History Unit :=
  states.foldl (fun r s => r.andThen fun _ h => h.push s) (.ok (), h)

theorem pushAll_concat {k : History} {states : List State}
    (hk : h.pushAll states = (.ok (), k)) (hp : k.push s = (.ok (), h')) :
    h.pushAll (states ++ [s]) = (.ok (), h') := by
  unfold pushAll at hk ⊢
  rw [List.foldl_append, hk]
  exact hp

theorem Built.pushAll_states (hb : Built limit h) :
    (History.empty limit).pushAll h.states.toList = (.ok (), h) := by
  induction hb with
  | empty => rfl
  | push _ hp ih =>
    rw [states_of_push hp]
    exact pushAll_concat ih hp

theorem states_truncate (n : Nat) (h : History) :
    (h.truncate n).states.toList = h.states.toList.take n := by
  apply List.ext_getElem?
  intro i
  have hi := get?_truncate n h i
  simp only [get?] at hi
  rw [List.getElem?_take, Array.getElem?_toList, Array.getElem?_toList, hi]

inductive Request where
  | push (s : State)
  | truncate (n : Nat)

/-- What a request leaves behind, granted or not. -/
def handle (h : History) : Request → History
  | .push s => (h.push s).2
  | .truncate n => h.truncate n

def handleAll (h : History) (requests : List Request) : History := requests.foldl handle h

theorem Built.handle (hb : Built limit h) (r : Request) : Built limit (h.handle r) := by
  cases r with
  | truncate n => exact hb.truncate n
  | push s =>
    rw [History.handle]
    rcases hp : h.push s with ⟨overflow | _, h'⟩
    · obtain ⟨-, -, rfl⟩ := push_eq_error_iff.mp hp
      exact hb
    · exact hb.push hp

theorem Built.handleAll (hb : Built limit h) (requests : List Request) :
    Built limit (h.handleAll requests) := by
  induction requests generalizing h with
  | nil => exact hb
  | cons r requests ih => exact ih (hb.handle r)

/-- Whatever is asked of a history, the bytes in use are what its states cost and within the limit.
A state that fits is held from then on and paid for, one that does not fit is refused and changes
nothing, a state that is dropped never gives back more than is in use, and a history that was cut
is the one that its states build up. -/
theorem account_exact (limit : Nat) (requests : List Request) :
    let h := (empty limit).handleAll requests
    h.used = h.cost ∧ h.used ≤ limit ∧
      (∀ s, h.used + charge h.states s ≤ limit → ∃ h', h.push s = (.ok (), h') ∧
        h'.states = h.states.push s ∧ h'.used = h.used + charge h.states s) ∧
      (∀ s, limit < h.used + charge h.states s → ∃ overflow, h.push s = (.error overflow, h)) ∧
      (∀ n s, (h.dropLast n).states.back? = some s →
        charge (h.dropLast n).states.pop s ≤ (h.dropLast n).used) ∧
      ∀ n, (empty limit).pushAll (h.states.toList.take n) = (.ok (), h.truncate n) := by
  intro h
  have hb : Built limit h := Built.empty.handleAll requests
  refine ⟨hb.used_eq_cost, hb.used_le_limit, ?_, ?_, ?_, ?_⟩
  · intro s hfits
    exact ⟨_, push_eq_ok_iff.mpr ⟨hb.limit_eq.symm ▸ hfits, rfl⟩, rfl, rfl⟩
  · intro s hover
    exact ⟨_, push_eq_error_iff.mpr ⟨hb.limit_eq.symm ▸ hover, rfl, rfl⟩⟩
  · intro n s hlast
    exact (hb.dropLast n).released_le_used hlast
  · intro n
    rw [← states_truncate]
    exact (hb.truncate n).pushAll_states

/-- A state with a playfield of its own is dropped by a cut and added again. The state that follows
it shares its playfield and does not fit, before the cut and after it. -/
theorem account_exact_across_cut :
    let a := State.initial .blank
    let b := { a with edition := 1 }
    let c := b.push 7
    let h := (empty 32200).handleAll [.push a, .push b, .push c, .truncate 1, .push b]
    h.states = #[a, b] ∧ h.used = 32160 ∧ h.used = h.cost ∧ charge h.states c = 88 ∧
      (∃ overflow, h.push c = (.error overflow, h)) ∧
      (empty 32200).pushAll [a] = (.ok (), h.truncate 1) := by
  intro a b c
  have hall := account_exact 32200 [.push a, .push b, .push c, .truncate 1, .push b]
  have hheld : (empty 32200).handleAll [.push a, .push b, .push c, .truncate 1, .push b] =
      ⟨32200, 32160, #[a, b]⟩ := by
    simp [a, b, c, handleAll, handle, empty, push, charge, State.initial, State.size, State.push,
      Stack.depth, Stack.push, Playfield.size, width, height, truncate, dropLast, length, pop]
  have hcharge : charge #[a, b] c = 88 := by
    simp [a, b, c, charge, State.initial, State.size, State.push, Stack.depth, Stack.push]
  rw [hheld] at hall ⊢
  obtain ⟨hcost, -, -, hrefused, -, hcut⟩ := hall
  exact ⟨rfl, rfl, hcost, hcharge, hrefused c (by simp [hcharge]), hcut 1⟩

end Befunge.History
