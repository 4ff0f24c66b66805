import Befunge.Proofs.Machine.Transition

/-!
# Chronicles

A history is seen through the states it has at its indices. It is a chronicle when it begins at the
start of a program and each further state follows from the one before by a transition.
-/

namespace Befunge

namespace History

variable {h h' : History} {s t : State} {i n : Nat}

theorem get?_isSome_iff : (h.get? i).isSome ↔ i < h.length := by
  simp [get?, length]

theorem lt_length_of_get? (hi : h.get? i = some t) : i < h.length :=
  get?_isSome_iff.mp (by simp [hi])

theorem exists_get?_of_lt (hi : i < h.length) : ∃ t, h.get? i = some t :=
  Option.isSome_iff_exists.mp (get?_isSome_iff.mpr hi)

theorem get?_of_push (hp : h.push s = (.ok (), h')) (i : Nat) :
    h'.get? i = if i = h.length then some s else h.get? i := by
  obtain ⟨-, rfl⟩ := push_eq_ok_iff.mp hp
  exact Array.getElem?_push

theorem get?_pop (h : History) (i : Nat) :
    h.pop.get? i = if i < h.length - 1 then h.get? i else none := by
  have hstates : h.pop.states = h.states.pop := by
    obtain ⟨limit, used, states⟩ := h
    simp only [pop]
    cases hb : states.back? with
    | none => simp [Array.back?_eq_none_iff.mp hb]
    | some s => rfl
  rw [get?, hstates]
  exact Array.getElem?_pop

theorem get?_dropLast (n : Nat) (h : History) (i : Nat) :
    (h.dropLast n).get? i = if i < h.length - n then h.get? i else none := by
  induction n generalizing h with
  | zero =>
    rw [dropLast, Nat.sub_zero]
    split
    · rfl
    · next hi => exact Option.not_isSome_iff_eq_none.mp (mt get?_isSome_iff.mp hi)
  | succ n ih =>
    rw [dropLast, ih, get?_pop, length_pop]
    grind

theorem get?_truncate (n : Nat) (h : History) (i : Nat) :
    (h.truncate n).get? i = if i < n then h.get? i else none := by
  rw [truncate, get?_dropLast]
  by_cases hi : i < h.length
  · have hiff : i < h.length - (h.length - n) ↔ i < n := by omega
    simp [hiff]
  · have hnone : h.get? i = none := Option.not_isSome_iff_eq_none.mp (mt get?_isSome_iff.mp hi)
    simp [hnone]

/-- The texts that the first `n` recorded steps wrote, one after the other. Step `i + 1` is the one
that left the state at index `i`. -/
def transcript (h : History) (n : Nat) : String :=
  String.join ((h.states.toList.take n).map State.emission)

@[simp]
theorem transcript_zero (h : History) : h.transcript 0 = "" := by
  simp [transcript]

theorem transcript_succ (hi : h.get? n = some t) :
    h.transcript (n + 1) = h.transcript n ++ t.emission := by
  have hn : h.states.toList[n]? = some t := by simpa [get?] using hi
  simp [transcript, List.take_add_one, hn]

theorem transcript_congr (hsame : ∀ i < n, h.get? i = h'.get? i) :
    h.transcript n = h'.transcript n := by
  have htake : h.states.toList.take n = h'.states.toList.take n := by
    apply List.ext_getElem?
    intro i
    by_cases hi : i < n
    · simpa [List.getElem?_take, hi, get?] using hsame i hi
    · rw [List.getElem?_take_eq_none (by omega), List.getElem?_take_eq_none (by omega)]
  rw [transcript, transcript, htake]

theorem transcript_prefix (h : History) {m n : Nat} (hmn : m ≤ n) :
    ∃ rest, h.transcript n = h.transcript m ++ rest := by
  refine ⟨String.join (((h.states.toList.drop m).take (n - m)).map State.emission), ?_⟩
  rw [transcript, transcript, ← String.join_append, ← List.map_append, ← List.take_add,
    Nat.add_sub_cancel' hmn]

end History

/-- The history begins at `start`, and each state that has a successor is a state that has not
halted, was executed, and leads to its successor. -/
structure Chronicle (executed : List State) (start : State) (h : History) : Prop where
  first : ∀ t, h.get? 0 = some t → t = start
  linked : ∀ i a b, h.get? i = some a → h.get? (i + 1) = some b →
    a.halted = false ∧ a ∈ executed ∧ ∃ o, a.Transition o b

namespace Chronicle

variable {executed executed' : List State} {start s t : State} {h h' : History} {i j n : Nat}

theorem of_length_eq_zero (hlength : h.length = 0) : Chronicle executed start h where
  first t ht := absurd (History.lt_length_of_get? ht) (by omega)
  linked i a b ha _ := absurd (History.lt_length_of_get? ha) (by omega)

theorem mono (hc : Chronicle executed start h) (hsub : executed ⊆ executed') :
    Chronicle executed' start h where
  first := hc.first
  linked i a b ha hb := by
    obtain ⟨halted, hmem, htrans⟩ := hc.linked i a b ha hb
    exact ⟨halted, hsub hmem, htrans⟩

theorem truncate (hc : Chronicle executed start h) (n : Nat) :
    Chronicle executed start (h.truncate n) where
  first t ht := by
    rw [History.get?_truncate] at ht
    split at ht
    · exact hc.first t ht
    · cases ht
  linked i a b ha hb := by
    rw [History.get?_truncate] at ha hb
    split at hb
    · rw [if_pos (by omega)] at ha
      exact hc.linked i a b ha hb
    · cases hb

theorem push_first (hlength : h.length = 0) (hp : h.push start = (.ok (), h')) :
    Chronicle executed start h' where
  first t ht := by
    rw [History.get?_of_push hp, hlength, if_pos rfl] at ht
    exact (Option.some.inj ht).symm
  linked i a b _ hb := by
    rw [History.get?_of_push hp, if_neg (by omega)] at hb
    exact absurd (History.lt_length_of_get? hb) (by omega)

theorem push {o : Outcome} (hc : Chronicle executed start h)
    (hlast : h.get? (h.length - 1) = some s) (halted : s.halted = false) (hmem : s ∈ executed)
    (ht : s.Transition o t) (hp : h.push t = (.ok (), h')) : Chronicle executed start h' where
  first u hu := by
    have hpos := History.lt_length_of_get? hlast
    rw [History.get?_of_push hp, if_neg (by omega)] at hu
    exact hc.first u hu
  linked i a b ha hb := by
    have hi : i < h.length := by
      have := History.lt_length_of_get? hb
      rw [History.length_of_push hp] at this
      omega
    rw [History.get?_of_push hp, if_neg (by omega)] at ha
    rw [History.get?_of_push hp] at hb
    split at hb
    · next hlength =>
      have hia : i = h.length - 1 := by omega
      rw [hia, hlast] at ha
      obtain rfl := Option.some.inj ha
      obtain rfl := Option.some.inj hb
      exact ⟨halted, hmem, o, ht⟩
    · exact hc.linked i a b ha hb

/-- What holds at the start and along every link holds at every index. -/
theorem induction_on {P : Nat → State → Prop} (hc : Chronicle executed start h)
    (hstart : P 0 start)
    (hstep : ∀ i a b o, h.get? i = some a → P i a → a.halted = false → a ∈ executed →
      a.Transition o b → P (i + 1) b) :
    ∀ i t, h.get? i = some t → P i t := by
  intro i
  induction i with
  | zero =>
    intro t ht
    exact hc.first t ht ▸ hstart
  | succ i ih =>
    intro b hb
    obtain ⟨a, ha⟩ := History.exists_get?_of_lt (h := h) (i := i)
      (by have := History.lt_length_of_get? hb; omega)
    obtain ⟨halted, hmem, o, ht⟩ := hc.linked i a b ha hb
    exact hstep i a b o ha (ih a ha) halted hmem ht

theorem steps_eq (hc : Chronicle executed start h) (hstart : start.steps = 0)
    (hi : h.get? i = some t) : t.steps = i := by
  refine hc.induction_on (P := fun i t => t.steps = i) hstart ?_ i t hi
  intro i a b o _ ha _ _ ht
  rw [ht.steps_eq, ha]

theorem outputLength_eq (hc : Chronicle executed start h) (hstart : start.outputLength = 0)
    (hi : h.get? i = some t) : t.outputLength = (h.transcript i).utf8ByteSize := by
  refine hc.induction_on (P := fun i t => t.outputLength = (h.transcript i).utf8ByteSize)
    (by simp [hstart]) ?_ i t hi
  intro i a b o hia ha _ _ ht
  rw [ht.outputLength_eq, ha, History.transcript_succ hia, String.utf8ByteSize_append]

theorem outputLength_mono (hc : Chronicle executed start h) (hstart : start.outputLength = 0)
    (hij : i ≤ j) (hi : h.get? i = some s) (hj : h.get? j = some t) :
    s.outputLength ≤ t.outputLength := by
  obtain ⟨rest, hrest⟩ := h.transcript_prefix hij
  rw [hc.outputLength_eq hstart hi, hc.outputLength_eq hstart hj, hrest,
    String.utf8ByteSize_append]
  omega

theorem eq_length_of_halted (hc : Chronicle executed start h) (hi : h.get? i = some t)
    (halted : t.halted = true) : i + 1 = h.length := by
  have hlt := History.lt_length_of_get? hi
  rcases Nat.lt_or_ge (i + 1) h.length with hnext | hge
  · obtain ⟨b, hb⟩ := History.exists_get?_of_lt hnext
    rw [(hc.linked i t b hi hb).1] at halted
    cases halted
  · omega

end Chronicle

end Befunge
