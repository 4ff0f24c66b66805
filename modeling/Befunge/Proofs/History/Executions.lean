import Befunge.Profile
import Befunge.State

/-!
# Executions and what became of them

The cycles of a session are listed by the states they were executed from. Who goes back in the
record and executes again takes the place of executions that were made there and after. Those that
still stand are what the record tells. A profile, however, counts from the first execution of a
cell that still stands, and from there on it counts those that were overtaken as well.
-/

namespace Befunge

def State.isAt (p : Position) (s : State) : Bool := s.cursor.position = p

theorem State.isAt_iff {p : Position} {s : State} : s.isAt p = true ↔ s.cursor.position = p :=
  decide_eq_true_iff

namespace Executions

/-- No later execution has taken the place of this one. -/
def Stands (u : State) (later : List State) : Prop := ∀ w ∈ later, u.steps < w.steps

instance (u : State) (later : List State) : Decidable (Stands u later) :=
  inferInstanceAs (Decidable (∀ w ∈ later, _))

def standing : List State → List State
  | [] => []
  | u :: later => if Stands u later then u :: standing later else standing later

def overtaken : List State → List State
  | [] => []
  | u :: later => if Stands u later then overtaken later else u :: overtaken later

/-- The executions from the first standing one of a cell on. -/
def since (p : Position) : List State → List State
  | [] => []
  | u :: later => if u.isAt p ∧ Stands u later then u :: later else since p later

/-- What a profile says of a cell that was executed first in the first of these executions. -/
def visit? (p : Position) : List State → Option Visit
  | [] => none
  | u :: later => some ⟨(u :: later).countP (·.isAt p), u.steps + 1⟩

variable {p : Position} {a u e : State} {l later : List State}

theorem stands_concat_iff : Stands u (l ++ [a]) ↔ Stands u l ∧ u.steps < a.steps := by
  constructor
  · intro h
    refine ⟨?_, h a (List.mem_append_right l (List.mem_singleton_self a))⟩
    intro w hw
    exact h w (List.mem_append_left _ hw)
  · rintro ⟨h, ha⟩ w hw
    rcases List.mem_append.mp hw with hw | hw
    · exact h w hw
    · rw [List.mem_singleton.mp hw]
      exact ha

theorem standing_concat (l : List State) (a : State) :
    standing (l ++ [a]) = (standing l).filter (·.steps < a.steps) ++ [a] := by
  induction l with
  | nil => rfl
  | cons u l ih =>
    simp only [List.cons_append, standing, stands_concat_iff, ih]
    by_cases hu : Stands u l
    · by_cases ha : u.steps < a.steps <;> simp [hu, ha]
    · simp [hu]

theorem mem_of_since (h : since p l = e :: later) :
    e ∈ standing l ∧ e.isAt p = true ∧ Stands e later := by
  induction l with
  | nil => cases h
  | cons u l ih =>
    rw [since] at h
    split at h
    · next hu =>
      obtain ⟨rfl, rfl⟩ := List.cons.inj h
      rw [standing, if_pos hu.2]
      exact ⟨List.mem_cons_self, hu⟩
    · obtain ⟨hmem, hrest⟩ := ih h
      refine ⟨?_, hrest⟩
      rw [standing]
      split
      · exact List.mem_cons_of_mem u hmem
      · exact hmem

theorem since_concat_of_lt (h : since p l = e :: later) (ha : e.steps < a.steps) :
    since p (l ++ [a]) = e :: later ++ [a] := by
  induction l with
  | nil => cases h
  | cons u l ih =>
    rw [since] at h
    rw [List.cons_append, since]
    split at h
    · next hu =>
      obtain ⟨rfl, rfl⟩ := List.cons.inj h
      rw [if_pos ⟨hu.1, stands_concat_iff.mpr ⟨hu.2, ha⟩⟩]
      rfl
    · next hu =>
      rw [if_neg fun hc => hu ⟨hc.1, (stands_concat_iff.mp hc.2).1⟩]
      exact ih h

theorem mem_of_mem_standing (h : e ∈ standing l) : e ∈ l := by
  induction l with
  | nil => cases h
  | cons u l ih =>
    rw [standing] at h
    split at h
    · rcases List.mem_cons.mp h with rfl | h
      · exact List.mem_cons_self
      · exact List.mem_cons_of_mem u (ih h)
    · exact List.mem_cons_of_mem u (ih h)

theorem since_concat_of_overtaken (h : ∀ e later, since p l = e :: later → a.steps ≤ e.steps) :
    since p (l ++ [a]) = if a.isAt p then [a] else [] := by
  induction l with
  | nil => simp [since, Stands]
  | cons u l ih =>
    rw [List.cons_append, since]
    rw [since] at h
    by_cases hu : u.isAt p ∧ Stands u l
    · rw [if_pos hu] at h
      -- a later standing execution of the cell has made more steps than `u`, so it is overtaken too
      have hau := h u l rfl
      rw [if_neg fun hc => by have := (stands_concat_iff.mp hc.2).2; omega]
      apply ih
      intro e later he
      have hue := hu.2 e (mem_of_mem_standing (mem_of_since he).1)
      omega
    · rw [if_neg hu] at h
      rw [if_neg fun hc => hu ⟨hc.1, (stands_concat_iff.mp hc.2).1⟩]
      exact ih h

theorem countP_eq_standing_add_overtaken (q : State → Bool) (l : List State) :
    l.countP q = (standing l).countP q + (overtaken l).countP q := by
  induction l with
  | nil => rfl
  | cons u l ih =>
    rw [standing, overtaken]
    by_cases hu : Stands u l
    · rw [if_pos hu, if_pos hu, List.countP_cons, List.countP_cons, ih]
      omega
    · rw [if_neg hu, if_neg hu, List.countP_cons, List.countP_cons, ih]
      omega

theorem countP_standing_since (p : Position) (l : List State) :
    (standing (since p l)).countP (·.isAt p) = (standing l).countP (·.isAt p) := by
  induction l with
  | nil => rfl
  | cons u l ih =>
    rw [since]
    split
    · rfl
    · next hu =>
      rw [ih, standing]
      split
      · next hs =>
        have hnot : ¬u.isAt p = true := fun hp => hu ⟨hp, hs⟩
        rw [List.countP_cons_of_neg hnot]
      · rfl

theorem since_eq_nil_iff : since p l = [] ↔ (standing l).countP (·.isAt p) = 0 := by
  rw [← countP_standing_since]
  constructor
  · intro h
    rw [h]
    rfl
  · intro h
    cases hl : since p l with
    | nil => rfl
    | cons e later =>
      obtain ⟨-, hp, hs⟩ := mem_of_since hl
      rw [hl, standing, if_pos hs, List.countP_cons_of_pos hp] at h
      omega

theorem visit?_eq_none_iff : visit? p l = none ↔ l = [] := by
  cases l with
  | nil => exact iff_of_true rfl rfl
  | cons u later => exact iff_of_false nofun nofun

theorem hits_of_visit? {v : Visit} (h : visit? p l = some v) : v.hits = l.countP (·.isAt p) := by
  cases l with
  | nil => cases h
  | cons u later =>
    obtain rfl := Option.some.inj h
    rfl

theorem filter_visit?_cons (p : Position) (e : State) (later : List State) (n : Nat) :
    (visit? p (e :: later)).filter (·.firstStep ≤ n) =
      if e.steps < n then visit? p (e :: later) else none := by
  by_cases h : e.steps < n
  · rw [if_pos h]
    exact Option.filter_some_pos (decide_eq_true_iff.mpr h)
  · rw [if_neg h]
    exact Option.filter_some_neg (decide_eq_false h)

/-- One more execution in a profile: what was first executed later is forgotten, and then the visit
is counted. -/
theorem visit?_concat (p : Position) (l : List State) (a : State) :
    visit? p (since p (l ++ [a])) =
      if a.isAt p then
        some (((visit? p (since p l)).filter (·.firstStep ≤ a.steps)).elim ⟨1, a.steps + 1⟩
          fun v => { v with hits := v.hits + 1 })
      else (visit? p (since p l)).filter (·.firstStep ≤ a.steps) := by
  cases hl : since p l with
  | nil =>
    rw [since_concat_of_overtaken (by simp [hl])]
    by_cases hp : a.isAt p <;> simp [visit?, hp]
  | cons e later =>
    rw [filter_visit?_cons]
    by_cases ha : e.steps < a.steps
    · rw [since_concat_of_lt hl ha, if_pos ha]
      by_cases hp : a.isAt p <;> simp [visit?, hp, List.countP_cons, List.countP_append]
      omega
    · -- with the first standing execution of the cell, all later ones of it are overtaken
      have hle : ∀ u rest, since p l = u :: rest → a.steps ≤ u.steps := by
        intro u rest hu
        obtain ⟨rfl, -⟩ := List.cons.inj (hl.symm.trans hu)
        omega
      rw [since_concat_of_overtaken hle, if_neg ha]
      by_cases hp : a.isAt p <;> simp [visit?, hp]

end Executions

end Befunge
