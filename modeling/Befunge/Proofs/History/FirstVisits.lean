import Befunge.Profile
import Befunge.Proofs.History.Chronicle

/-!
# First visits on record

A profile is one for the whole record and belongs to none of its states. It still tells for each of
them which cells were executed before, as long as an entry is dated by the first recorded state at
its cell: the state at index `j` is left by step `j + 1`. A step that is not recorded dates its cell
with the step that would be recorded next.
-/

namespace Befunge

namespace History

variable {h h' : History} {p : Position} {s : State} {i j k m n : Nat}

/-- The state at index `j` is the first one on record with its cursor at `p`. -/
structure FirstAt (h : History) (p : Position) (j : Nat) : Prop where
  here : ∃ a, h.get? j = some a ∧ a.cursor.position = p
  notBefore : ∀ k a, k < j → h.get? k = some a → a.cursor.position ≠ p

theorem FirstAt.congr (hsame : ∀ k, k ≤ j → h.get? k = h'.get? k) (hj : h.FirstAt p j) :
    h'.FirstAt p j where
  here := by
    rw [← hsame j (Nat.le_refl j)]
    exact hj.here
  notBefore k a hk ha := by
    rw [← hsame k (Nat.le_of_lt hk)] at ha
    exact hj.notBefore k a hk ha

theorem FirstAt.lt_length (hj : h.FirstAt p j) : j < h.length := by
  obtain ⟨a, ha, -⟩ := hj.here
  exact lt_length_of_get? ha

theorem FirstAt.unique (hj : h.FirstAt p j) (hk : h.FirstAt p k) : j = k := by
  obtain ⟨a, ha, hap⟩ := hj.here
  obtain ⟨b, hb, hbp⟩ := hk.here
  rcases Nat.lt_trichotomy j k with hlt | heq | hlt
  · exact absurd hap (hk.notBefore j a hlt ha)
  · exact heq
  · exact absurd hbp (hj.notBefore k b hlt hb)

theorem exists_firstAt (hi : h.get? i = some s) (hp : s.cursor.position = p) :
    ∃ j, j ≤ i ∧ h.FirstAt p j := by
  induction i using Nat.strongRecOn generalizing s with
  | ind i ih =>
    by_cases hearlier : ∃ k a, k < i ∧ h.get? k = some a ∧ a.cursor.position = p
    · obtain ⟨k, a, hk, ha, hap⟩ := hearlier
      obtain ⟨j, hj, hfirst⟩ := ih k hk ha hap
      exact ⟨j, by omega, hfirst⟩
    · refine ⟨i, Nat.le_refl i, ⟨s, hi, hp⟩, ?_⟩
      intro k a hk ha hap
      exact hearlier ⟨k, a, hk, ha, hap⟩

/-- Every entry of the profile has the date of the first visit on record, and every cell that one of
the first `n` recorded steps executed has an entry. -/
structure Dates (h : History) (n : Nat) (profile : Profile) : Prop where
  dated : ∀ p v, profile.visit? p = some v → ∃ j, v.firstStep = j + 1 ∧ h.FirstAt p j
  entered : ∀ p j, h.FirstAt p j → j < n → ∃ v, profile.visit? p = some v

namespace Dates

variable {profile : Profile}

theorem empty (h : History) : h.Dates 0 .empty where
  dated p v hv := by
    rw [Profile.visit?_empty] at hv
    cases hv
  entered p j _ hj := absurd hj (Nat.not_lt_zero j)

theorem mono (hd : h.Dates n profile) (hmn : m ≤ n) : h.Dates m profile where
  dated := hd.dated
  entered p j hfirst hj := hd.entered p j hfirst (Nat.lt_of_lt_of_le hj hmn)

theorem exists_visit (hd : h.Dates n profile) (hfirst : h.FirstAt p j) (hj : j < n) :
    ∃ v, profile.visit? p = some v ∧ v.firstStep = j + 1 := by
  obtain ⟨v, hv⟩ := hd.entered p j hfirst hj
  obtain ⟨k, hk, hkfirst⟩ := hd.dated p v hv
  obtain rfl := hfirst.unique hkfirst
  exact ⟨v, hv, hk⟩

theorem push (hd : h.Dates n profile) (hn : n ≤ h.length) (hp : h.push s = (.ok (), h')) :
    h'.Dates n profile := by
  have hsame : ∀ k, k < h.length → h.get? k = h'.get? k := by
    intro k hk
    rw [get?_of_push hp, if_neg (Nat.ne_of_lt hk)]
  constructor
  · intro p v hv
    obtain ⟨j, hj, hfirst⟩ := hd.dated p v hv
    have hlt := hfirst.lt_length
    exact ⟨j, hj, hfirst.congr fun k hk => hsame k (by omega)⟩
  · intro p j hfirst hj
    exact hd.entered p j (hfirst.congr fun k hk => (hsame k (by omega)).symm) hj

/-- Cutting the record after index `m` and forgetting the later visits go together. -/
theorem forget (hd : h.Dates n profile) (hmn : m ≤ n) :
    (h.truncate (m + 1)).Dates m (profile.forget m) := by
  have hsame : ∀ k, k ≤ m → h.get? k = (h.truncate (m + 1)).get? k := by
    intro k hk
    rw [get?_truncate, if_pos (by omega)]
  constructor
  · intro p v hv
    rw [Profile.visit?_forget] at hv
    obtain ⟨hv, hle⟩ := Option.filter_eq_some_iff.mp hv
    obtain ⟨j, hj, hfirst⟩ := hd.dated p v hv
    have hjm : j + 1 ≤ m := by
      rw [← hj]
      exact of_decide_eq_true hle
    exact ⟨j, hj, hfirst.congr fun k hk => hsame k (by omega)⟩
  · intro p j hfirst hj
    have hfirst : h.FirstAt p j := hfirst.congr fun k hk => (hsame k (by omega)).symm
    obtain ⟨v, hv, hdate⟩ := hd.exists_visit hfirst (by omega)
    refine ⟨v, ?_⟩
    rw [Profile.visit?_forget, hv]
    exact Option.filter_some_pos (decide_eq_true (by omega))

/-- A cycle from the last recorded state enters its cell, if none of the steps before did. -/
theorem count (hd : h.Dates n profile) (hn : h.get? n = some s)
    (hs : s.cursor.position.InBounds) :
    h.Dates (n + 1) (profile.count s.cursor.position (n + 1)) := by
  have hvisit : ∀ p, (profile.count s.cursor.position (n + 1)).visit? p =
      if s.cursor.position = p then
        some ((profile.visit? p).elim ⟨1, n + 1⟩ fun v => { v with hits := v.hits + 1 })
      else profile.visit? p := by
    intro p
    rw [Profile.visit?_count]
    by_cases hp : s.cursor.position = p
    · subst hp
      rw [if_pos ⟨rfl, hs⟩, if_pos rfl]
    · rw [if_neg fun hc => hp hc.1, if_neg hp]
  constructor
  · intro p v hv
    rw [hvisit] at hv
    split at hv
    · next hp =>
      cases hold : profile.visit? p with
      | some w =>
        rw [hold] at hv
        obtain rfl := Option.some.inj hv
        exact hd.dated p w hold
      | none =>
        rw [hold] at hv
        obtain rfl := Option.some.inj hv
        -- an earlier state at the cell would have left an entry
        refine ⟨n, rfl, ⟨s, hn, hp⟩, ?_⟩
        intro k a hk ha hap
        obtain ⟨j, hj, hfirst⟩ := exists_firstAt ha hap
        obtain ⟨w, hw⟩ := hd.entered p j hfirst (by omega)
        rw [hold] at hw
        cases hw
    · exact hd.dated p v hv
  · intro p j hfirst hj
    rw [hvisit]
    split
    · exact ⟨_, rfl⟩
    · next hp =>
      refine hd.entered p j hfirst (Nat.lt_of_le_of_ne (Nat.le_of_lt_succ hj) ?_)
      rintro rfl
      obtain ⟨a, ha, hap⟩ := hfirst.here
      obtain rfl := Option.some.inj (hn.symm.trans ha)
      exact hp hap

/-- What the profile says of a cell at a moment of the record: whether a step before that moment
executed it. -/
theorem exists_visit_iff (hd : h.Dates n profile) (hi : i ≤ n) :
    (∃ v, profile.visit? p = some v ∧ v.firstStep ≤ i) ↔
      ∃ j a, j < i ∧ h.get? j = some a ∧ a.cursor.position = p := by
  constructor
  · rintro ⟨v, hv, hle⟩
    obtain ⟨j, hj, hfirst⟩ := hd.dated p v hv
    obtain ⟨a, ha, hap⟩ := hfirst.here
    exact ⟨j, a, by omega, ha, hap⟩
  · rintro ⟨j, a, hj, ha, hap⟩
    obtain ⟨k, hk, hfirst⟩ := exists_firstAt ha hap
    obtain ⟨v, hv, hdate⟩ := hd.exists_visit hfirst (by omega)
    exact ⟨v, hv, by omega⟩

end Dates

end History

end Befunge
