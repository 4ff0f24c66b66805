import Befunge.Proofs.History.Account

/-!
# Editions of the playfield

Only `p` makes a new edition of the playfield, and it makes one even where it writes the value that
stands there already. Along a chronicle an edition is numbered after the step that made it, so that
no later one has the number of an earlier one: two recorded states share a playfield exactly if no
`p` was executed between them.
-/

namespace Befunge

namespace State

/-- The next cycle writes to the playfield. -/
def Writes (s : State) : Prop := s.instruction? = some .put

instance (s : State) : Decidable s.Writes := inferInstanceAs (Decidable (_ = _))

section Apply

variable {s : State} {i : Instruction}

theorem apply_edition (s : State) (i : Instruction) :
    (s.apply i).edition = if i = .put then s.steps else s.edition := by
  cases i <;> rfl

theorem apply_field (hi : i ≠ .put) : (s.apply i).field = s.field := by
  cases i with
  | put => exact absurd rfl hi
  | _ => rfl

end Apply

namespace Transition

variable {s t : State} {o : Outcome}

theorem edition_of_writes (h : s.Transition o t) (hw : s.Writes) : t.edition = s.steps + 1 := by
  unfold Writes at hw
  cases h with
  | plain i hi =>
    obtain rfl : i = .put := Option.some.inj (hi.symm.trans hw)
    rfl
  | input _ hi | output hi => rcases hi with hi | hi <;> cases hi.symm.trans hw
  | literal hi | halt hi | wander _ hi | arith _ _ hi => cases hi.symm.trans hw

theorem field_of_not_writes (h : s.Transition o t) (hw : ¬s.Writes) :
    t.edition = s.edition ∧ t.field = s.field := by
  cases h with
  | plain i hi =>
    have hne : i ≠ .put := by
      rintro rfl
      exact hw hi
    constructor
    · exact (apply_edition s.tick i).trans (if_neg hne)
    · exact apply_field (s := s.tick) hne
  | _ => exact ⟨rfl, rfl⟩

end Transition

end State

/-- How many of the recorded steps wrote to the playfield. -/
def History.writes (h : History) : Nat :=
  (List.range (h.length - 1)).countP fun i => (h.get? i).any (·.Writes)

namespace Chronicle

variable {executed : List State} {start a b c : State} {h : History} {i j k : Nat}

/-- What holds at one index and along every link after it holds at every later index. -/
theorem induction_from {P : Nat → State → Prop} (hc : Chronicle executed start h)
    (ha : h.get? i = some a) (hP : P i a)
    (hstep : ∀ j u v o, i ≤ j → h.get? j = some u → P j u → u.Transition o v → P (j + 1) v) :
    ∀ n b, h.get? (i + n) = some b → P (i + n) b := by
  intro n
  induction n with
  | zero =>
    intro b hb
    obtain rfl := Option.some.inj (ha.symm.trans hb)
    exact hP
  | succ n ih =>
    intro v hv
    obtain ⟨u, hu⟩ := History.exists_get?_of_lt (h := h) (i := i + n)
      (by have := History.lt_length_of_get? hv; omega)
    obtain ⟨-, -, o, ht⟩ := hc.linked _ u v hu hv
    exact hstep (i + n) u v o (Nat.le_add_right i n) hu (ih u hu) ht

theorem field_eq_of_not_writes (hc : Chronicle executed start h) (hij : i ≤ j)
    (ha : h.get? i = some a) (hb : h.get? j = some b)
    (hquiet : ∀ k u, i ≤ k → k < j → h.get? k = some u → ¬u.Writes) :
    b.edition = a.edition ∧ b.field = a.field := by
  obtain ⟨n, rfl⟩ := Nat.exists_eq_add_of_le hij
  refine hc.induction_from (P := fun j t => (∀ k u, i ≤ k → k < j → h.get? k = some u → ¬u.Writes) →
    t.edition = a.edition ∧ t.field = a.field) ha (fun _ => ⟨rfl, rfl⟩) ?_ n b hb hquiet
  intro j u v o hij hu ih ht hquiet
  obtain ⟨hedition, hfield⟩ := ih fun k w hik hkj => hquiet k w hik (by omega)
  obtain ⟨hedition', hfield'⟩ := ht.field_of_not_writes (hquiet j u hij (by omega) hu)
  exact ⟨hedition'.trans hedition, hfield'.trans hfield⟩

section Editions

variable (hc : Chronicle executed start h) (hsteps : start.steps = 0)
  (hedition : start.edition = 0)

include hc hsteps hedition

theorem edition_le_index (ha : h.get? i = some a) : a.edition ≤ i := by
  refine hc.induction_on (P := fun i t => t.edition ≤ i) (by omega) ?_ i a ha
  intro i a b o ha hle _ _ ht
  by_cases hw : a.Writes
  · have hi := hc.steps_eq hsteps ha
    have hb := ht.edition_of_writes hw
    omega
  · have hb := (ht.field_of_not_writes hw).1
    omega

theorem edition_lt_of_writes {o : Outcome} (ha : h.get? i = some a) (hw : a.Writes)
    (ht : a.Transition o b) : a.edition < b.edition := by
  have hle := hc.edition_le_index hsteps hedition ha
  rw [ht.edition_of_writes hw, hc.steps_eq hsteps ha]
  omega

theorem edition_mono (hij : i ≤ j) (ha : h.get? i = some a) (hb : h.get? j = some b) :
    a.edition ≤ b.edition := by
  obtain ⟨n, rfl⟩ := Nat.exists_eq_add_of_le hij
  refine hc.induction_from (P := fun _ t => a.edition ≤ t.edition) ha (Nat.le_refl _) ?_ n b hb
  intro j u v o _ hu hle ht
  by_cases hw : u.Writes
  · have hlt := hc.edition_lt_of_writes hsteps hedition hu hw ht
    omega
  · rw [(ht.field_of_not_writes hw).1]
    exact hle

/-- Two recorded states have one edition exactly if nothing was written between them. -/
theorem edition_eq_iff (hij : i ≤ j) (ha : h.get? i = some a) (hb : h.get? j = some b) :
    a.edition = b.edition ↔ ∀ k u, i ≤ k → k < j → h.get? k = some u → ¬u.Writes := by
  constructor
  · -- a write in between makes a greater number, and no later state has a smaller one
    intro heq k u hik hkj hu hw
    obtain ⟨v, hv⟩ := History.exists_get?_of_lt (h := h) (i := k + 1)
      (by have := History.lt_length_of_get? hb; omega)
    obtain ⟨-, -, o, ht⟩ := hc.linked k u v hu hv
    have hau := hc.edition_mono hsteps hedition hik ha hu
    have huv := hc.edition_lt_of_writes hsteps hedition hu hw ht
    have hvb := hc.edition_mono hsteps hedition hkj hv hb
    omega
  · intro hquiet
    exact (hc.field_eq_of_not_writes hij ha hb hquiet).1.symm

theorem ownsField_succ_iff (hi : i + 1 < h.length) :
    h.OwnsField (i + 1) ↔ (h.get? i).any (·.Writes) = true := by
  obtain ⟨a, ha⟩ := History.exists_get?_of_lt (h := h) (i := i) (by omega)
  obtain ⟨b, hb⟩ := History.exists_get?_of_lt hi
  have hiff := hc.edition_eq_iff hsteps hedition (Nat.le_add_right i 1) ha hb
  have hone : (∀ k u, i ≤ k → k < i + 1 → h.get? k = some u → ¬u.Writes) ↔ ¬a.Writes := by
    constructor
    · intro hquiet
      exact hquiet i a (Nat.le_refl i) (Nat.lt_succ_self i) ha
    · intro hw k u hik hki hu
      obtain rfl : k = i := by omega
      obtain rfl := Option.some.inj (ha.symm.trans hu)
      exact hw
  have hown : h.OwnsField (i + 1) ↔ ¬a.edition = b.edition := by
    simp [History.OwnsField, ha, hb]
  rw [hown, hiff, hone, ha]
  simp

theorem cost_eq (hpos : 0 < h.length) :
    h.cost = History.sizes h.states.toList + 16000 * (1 + h.writes) := by
  obtain ⟨n, hn⟩ : ∃ n, h.length = n + 1 := ⟨h.length - 1, by omega⟩
  have hcount : ((List.range n).countP ((h.OwnsField ·) ∘ Nat.succ)) =
      (List.range n).countP fun i => (h.get? i).any (·.Writes) := by
    apply List.countP_congr
    intro i hi
    have hlt := List.mem_range.mp hi
    simp only [Function.comp_apply, decide_eq_true_eq]
    exact hc.ownsField_succ_iff hsteps hedition (by omega)
  have hfirst : h.OwnsField 0 := .inl rfl
  unfold History.cost History.writes
  rw [hn, List.range_succ_eq_map, List.countP_cons_of_pos (by simpa using hfirst),
    List.countP_map, hcount, Nat.add_sub_cancel, Nat.add_comm 1]

end Editions

end Chronicle

end Befunge
