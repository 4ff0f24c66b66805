/-!
# Attempts

The result of something that may fail half way: a value or an error, together with the state that
was left behind either way.
-/

namespace Befunge

/-- A value or an error, with the state afterwards. -/
abbrev Attempt (ε σ α : Type) := Except ε α × σ

namespace Attempt

variable {ε ε' σ τ α β : Type}

@[inline]
def andThen (r : Attempt ε σ α) (next : α → σ → Attempt ε σ β) : Attempt ε σ β :=
  match r with
  | (.ok a, s) => next a s
  | (.error e, s) => (.error e, s)

/-- Renames the error and puts the state into a larger one. -/
@[inline]
def within (r : Attempt ε σ α) (wrap : ε → ε') (put : σ → τ) : Attempt ε' τ α :=
  match r with
  | (.ok a, s) => (.ok a, put s)
  | (.error e, s) => (.error (wrap e), put s)

@[simp]
theorem andThen_ok (a : α) (s : σ) (next : α → σ → Attempt ε σ β) :
    andThen (.ok a, s) next = next a s := rfl

@[simp]
theorem andThen_error (e : ε) (s : σ) (next : α → σ → Attempt ε σ β) :
    andThen (.error e, s) next = (.error e, s) := rfl

@[simp]
theorem within_ok (a : α) (s : σ) (wrap : ε → ε') (put : σ → τ) :
    within (.ok a, s) wrap put = (.ok a, put s) := rfl

@[simp]
theorem within_error (e : ε) (s : σ) (wrap : ε → ε') (put : σ → τ) :
    within ((.error e, s) : Attempt ε σ α) wrap put = (.error (wrap e), put s) := rfl

@[simp]
theorem fst_within_id (r : Attempt ε σ α) (put : σ → τ) : (r.within id put).1 = r.1 := by
  obtain ⟨_ | _, s⟩ := r <;> rfl

@[simp]
theorem snd_within (r : Attempt ε σ α) (wrap : ε → ε') (put : σ → τ) :
    (r.within wrap put).2 = put r.2 := by
  obtain ⟨_ | _, s⟩ := r <;> rfl

theorem within_andThen {r : Attempt ε σ α} {next : α → σ → Attempt ε σ β}
    {next' : α → τ → Attempt ε τ β} {put : σ → τ}
    (hnext : ∀ a s, next' a (put s) = (next a s).within id put) :
    (r.within id put).andThen next' = (r.andThen next).within id put := by
  obtain ⟨e | a, s⟩ := r
  · rfl
  · exact hnext a s

end Attempt

end Befunge
