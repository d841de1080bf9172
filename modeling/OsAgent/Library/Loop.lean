import OsAgent.Library.Program

/-!
# Loops

`while (again a) a = body(a)` need not end. `loopWhile` runs it for a number of passes and is stopped, with
`none`, when they do not suffice; its passes are numbered, as what is outside the program may answer each of
them otherwise. If something decreases in every pass after which the loop goes on, the loop is never stopped
(`wp_loopWhile`), and a loop that is not stopped does the same with more passes (`loopWhile_succ`).
-/

namespace OsAgent.Library

variable {ε σ α : Type}

/-- At most `fuel` passes of a loop, from its `k`-th. -/
def loopWhile (again : α → Bool) (body : ℕ → α → EStateM ε σ α) :
    ℕ → ℕ → α → EStateM ε σ (Option α)
  | 0, _, a => pure (if again a then none else some a)
  | fuel + 1, k, a =>
    if again a then body k a >>= loopWhile again body fuel (k + 1) else pure (some a)

section Rules

variable {again : α → Bool} {body : ℕ → α → EStateM ε σ α} {fuel k : ℕ} {a : α} {s : σ}

/-- A loop that is not to go on returns what it has. -/
theorem loopWhile_done (h : again a = false) : loopWhile again body fuel k a = pure (some a) := by
  cases fuel <;> simp [loopWhile, h]

/-- A loop that is to go on runs its body and then itself. -/
theorem loopWhile_again (h : again a = true) :
    loopWhile again body (fuel + 1) k a = body k a >>= loopWhile again body fuel (k + 1) := by
  simp [loopWhile, h]

/-- What every pass keeps, the loop keeps. -/
theorem ends_loopWhile {I : σ → Prop} (hbody : ∀ k a s, I s → Ends (body k a) I s) (hI : I s) :
    Ends (loopWhile again body fuel k a) I s := by
  induction fuel generalizing k a s with
  | zero => exact hI
  | succ fuel ih =>
    cases hagain : again a with
    | false =>
      rw [loopWhile_done hagain]
      exact hI
    | true =>
      rw [loopWhile_again hagain]
      exact wp_bind_of (hbody k a s hI) (fun _ _ hI' => ih hI') (fun _ _ hI' => hI')

/-- A loop whose invariant every pass keeps, and whose rank falls in every pass after which it goes on,
comes to its end. -/
theorem wp_loopWhile {I : α → σ → Prop} {E : ε → σ → Prop} (rank : σ → ℕ)
    (hbody : ∀ k a s, I a s → again a = true →
      wp (body k a) (fun a' s' => I a' s' ∧ (again a' = true → rank s' < rank s)) E s)
    (hI : I a s) (hfuel : again a = true → rank s < fuel) :
    wp (loopWhile again body fuel k a) (fun r s' => ∃ a', r = some a' ∧ I a' s' ∧ again a' = false)
      E s := by
  induction fuel generalizing k a s with
  | zero =>
    have hdone : again a = false := by
      cases h : again a with
      | true => exact absurd (hfuel h) (Nat.not_lt_zero _)
      | false => rfl
    rw [loopWhile_done hdone]
    exact ⟨a, rfl, hI, hdone⟩
  | succ fuel ih =>
    cases hagain : again a with
    | false =>
      rw [loopWhile_done hagain]
      exact ⟨a, rfl, hI, hagain⟩
    | true =>
      rw [loopWhile_again hagain]
      refine wp_bind_of (hbody k a s hI hagain) ?_ (fun _ _ h => h)
      rintro a' s' ⟨hI', hrank⟩
      apply ih hI'
      intro hagain'
      have hless := hrank hagain'
      have hbefore := hfuel hagain
      omega

/-- A loop that was not stopped does the same with one more pass allowed. -/
theorem loopWhile_succ
    (h : wp (loopWhile again body fuel k a) (fun r _ => r.isSome = true) (fun _ _ => True) s) :
    loopWhile again body (fuel + 1) k a s = loopWhile again body fuel k a s := by
  induction fuel generalizing k a s with
  | zero =>
    cases hagain : again a with
    | false => rw [loopWhile_done hagain, loopWhile_done hagain]
    | true => simp [loopWhile, hagain] at h
  | succ fuel ih =>
    cases hagain : again a with
    | false => rw [loopWhile_done hagain, loopWhile_done hagain]
    | true =>
      rw [loopWhile_again hagain, wp_bind] at h
      rw [loopWhile_again hagain, loopWhile_again hagain]
      show EStateM.bind _ _ s = EStateM.bind _ _ s
      unfold EStateM.bind
      cases hbody : body k a s with
      | ok a' s' =>
        have hrest := wp_ok h hbody
        exact ih hrest
      | error e s' => rfl

/-- With every number of passes that suffices, a loop does the same. -/
theorem loopWhile_eq {fuel' : ℕ} (hle : fuel ≤ fuel')
    (h : wp (loopWhile again body fuel k a) (fun r _ => r.isSome = true) (fun _ _ => True) s) :
    loopWhile again body fuel' k a s = loopWhile again body fuel k a s := by
  induction hle with
  | refl => rfl
  | @step fuel' _ ih =>
    have hsame : wp (loopWhile again body fuel' k a) (fun r _ => r.isSome = true) (fun _ _ => True) s := by
      unfold wp at h ⊢
      rw [ih]
      exact h
    rw [loopWhile_succ hsame, ih]

end Rules

end OsAgent.Library
