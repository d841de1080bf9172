import Mathlib.Tactic.Common

/-!
# Programs with a state and exceptions

A method of an object reads and writes the object's fields and may throw, in which case the fields
keep what was written before. `EStateM ε σ` is the monad of such programs: a run ends in a result
or in an error, and in a state either way. `wp x Q E s` says that `x`, started in `s`, either
returns a result and a state that satisfy `Q`, or throws an error and leaves a state that satisfy
`E`. The simp lemmas compute `wp` along a program; `wp_mono` and `wp_and` combine what is known of
a procedure with what its caller needs.
-/

namespace OsAgent.Library

variable {ε σ α β γ : Type}

/-- `x` started in `s` returns into `Q` or throws into `E`. -/
def wp (x : EStateM ε σ α) (Q : α → σ → Prop) (E : ε → σ → Prop) (s : σ) : Prop :=
  match x s with
  | .ok a s' => Q a s'
  | .error e s' => E e s'

/-- However `x` ends when started in `s`, it ends in a state that satisfies `P`. -/
abbrev Ends (x : EStateM ε σ α) (P : σ → Prop) (s : σ) : Prop :=
  wp x (fun _ => P) (fun _ => P) s

/-- If `x` started in `s` returns, then into `Q`. -/
abbrev Returns (x : EStateM ε σ α) (Q : α → σ → Prop) (s : σ) : Prop :=
  wp x Q (fun _ _ => True) s

/-- A computation without a state, run within a program. -/
def ofExcept : Except ε α → EStateM ε σ α
  | .ok a => pure a
  | .error e => throw e

/-- A computation without state is one that leaves the state as it is. -/
instance liftExcept : MonadLift (Except ε) (EStateM ε σ) := ⟨ofExcept⟩

/-- The state in which a run ends. -/
def finalState : EStateM.Result ε σ α → σ
  | .ok _ s => s
  | .error _ s => s

section Rules

variable {Q Q' : α → σ → Prop} {E E' : ε → σ → Prop} {s : σ}

/-- What returns leaves the state as it is. -/
@[simp]
theorem wp_pure (a : α) : wp (pure a : EStateM ε σ α) Q E s ↔ Q a s := Iff.rfl

/-- One program after another. -/
@[simp]
theorem wp_bind (x : EStateM ε σ β) (f : β → EStateM ε σ α) :
    wp (x >>= f) Q E s ↔ wp x (fun b s' => wp (f b) Q E s') E s := by
  show wp (EStateM.bind x f) Q E s ↔ _
  unfold wp EStateM.bind
  cases x s <;> rfl

/-- A program whose result is changed. -/
@[simp]
theorem wp_map (f : β → α) (x : EStateM ε σ β) :
    wp (f <$> x) Q E s ↔ wp x (fun b => Q (f b)) E s := by
  show wp (EStateM.map f x) Q E s ↔ _
  unfold wp EStateM.map
  cases x s <;> rfl

/-- To read the state is to return it. -/
@[simp]
theorem wp_get {Q : σ → σ → Prop} : wp (get : EStateM ε σ σ) Q E s ↔ Q s s := Iff.rfl

/-- To write the state is to be in it. -/
@[simp]
theorem wp_set {Q : PUnit → σ → Prop} (s' : σ) :
    wp (set s' : EStateM ε σ PUnit) Q E s ↔ Q ⟨⟩ s' := Iff.rfl

/-- To change the state is to be in the changed one. -/
@[simp]
theorem wp_modify {Q : PUnit → σ → Prop} (f : σ → σ) :
    wp (modify f : EStateM ε σ PUnit) Q E s ↔ Q ⟨⟩ (f s) := Iff.rfl

/-- A change of the state that also returns something. -/
@[simp]
theorem wp_modifyGet (f : σ → α × σ) :
    wp (modifyGet f : EStateM ε σ α) Q E s ↔ Q (f s).1 (f s).2 := Iff.rfl

/-- What throws leaves the state as it is. -/
@[simp]
theorem wp_throw (e : ε) : wp (throw e : EStateM ε σ α) Q E s ↔ E e s := Iff.rfl

/-- A handler sees the state that the failing part left. -/
@[simp]
theorem wp_tryCatch (x : EStateM ε σ α) (h : ε → EStateM ε σ α) :
    wp (tryCatch x h) Q E s ↔ wp x Q (fun e s' => wp (h e) Q E s') s := by
  show wp (EStateM.tryCatch x h) Q E s ↔ _
  unfold wp EStateM.tryCatch
  cases x s <;> rfl

/-- A choice is that of the branch that is taken. -/
@[simp]
theorem wp_ite (c : Prop) [Decidable c] (x y : EStateM ε σ α) :
    wp (if c then x else y) Q E s ↔ if c then wp x Q E s else wp y Q E s := by
  split_ifs <;> rfl

/-- A check within a program. -/
@[simp]
theorem wp_lift {x : Except ε α} : wp (liftM x : EStateM ε σ α) Q E s ↔
    (∀ a, x = .ok a → Q a s) ∧ (∀ e, x = .error e → E e s) := by
  show wp (ofExcept x) Q E s ↔ _
  cases x with
  | ok a => simp [ofExcept]
  | error e => simp [ofExcept]

/-- Weaker assertions follow. -/
theorem wp_mono {x : EStateM ε σ α} (h : wp x Q E s) (hQ : ∀ a s', Q a s' → Q' a s')
    (hE : ∀ e s', E e s' → E' e s') : wp x Q' E' s := by
  unfold wp at *
  split at h
  · exact hQ _ _ h
  · exact hE _ _ h

/-- Two facts about a run hold together. -/
theorem wp_and {x : EStateM ε σ α} (h : wp x Q E s) (h' : wp x Q' E' s) :
    wp x (fun a s' => Q a s' ∧ Q' a s') (fun e s' => E e s' ∧ E' e s') s := by
  unfold wp at *
  split at h <;> simp_all

/-- Assertions that agree on what is known of a run are the same for it. -/
theorem wp_congr_of {x : EStateM ε σ α} {R : α → σ → Prop} {F : ε → σ → Prop} (h : wp x R F s)
    (hQ : ∀ a s', R a s' → (Q a s' ↔ Q' a s')) (hE : ∀ e s', F e s' → (E e s' ↔ E' e s')) :
    wp x Q E s ↔ wp x Q' E' s := by
  constructor
  · intro hx
    exact wp_mono (wp_and h hx) (fun a s' ha => (hQ a s' ha.1).mp ha.2)
      (fun e s' he => (hE e s' he.1).mp he.2)
  · intro hx
    exact wp_mono (wp_and h hx) (fun a s' ha => (hQ a s' ha.1).mpr ha.2)
      (fun e s' he => (hE e s' he.1).mpr he.2)

/-- A procedure's fact, followed by what its caller does next. -/
theorem wp_bind_of {x : EStateM ε σ β} {f : β → EStateM ε σ α} {R : β → σ → Prop}
    {F : ε → σ → Prop} (h : wp x R F s) (hR : ∀ b s', R b s' → wp (f b) Q E s')
    (hF : ∀ e s', F e s' → E e s') : wp (x >>= f) Q E s := by
  rw [wp_bind]
  exact wp_mono h hR hF

/-- A run that returns satisfies the first assertion. -/
theorem wp_ok {x : EStateM ε σ α} {a : α} {s' : σ} (h : wp x Q E s) (hx : x s = .ok a s') :
    Q a s' := by
  unfold wp at h
  rwa [hx] at h

/-- A run that throws satisfies the second assertion. -/
theorem wp_error {x : EStateM ε σ α} {e : ε} {s' : σ} (h : wp x Q E s) (hx : x s = .error e s') :
    E e s' := by
  unfold wp at h
  rwa [hx] at h

/-- A run is known once it ends as another run does. -/
theorem eq_of_wp {x : EStateM ε σ α} {res : EStateM.Result ε σ α}
    (h : wp x (fun a s' => res = .ok a s') (fun e s' => res = .error e s') s) : x s = res := by
  unfold wp at h
  cases hx : x s <;> rw [hx] at h <;> exact h.symm

/-- A run ends as it does. -/
theorem wp_result {x : EStateM ε σ α} {res : EStateM.Result ε σ α} (h : x s = res) :
    wp x (fun a s' => res = .ok a s') (fun e s' => res = .error e s') s := by
  subst h
  unfold wp
  cases x s <;> rfl

/-- Two runs that satisfy the same assertions are equal. -/
theorem eq_of_wp_iff {x y : EStateM ε σ α} {s' : σ}
    (h : ∀ (Q : α → σ → Prop) (E : ε → σ → Prop), wp x Q E s ↔ wp y Q E s') : x s = y s' :=
  eq_of_wp ((h _ _).mpr (wp_result rfl))

/-- An assertion about a run is one about its result. -/
theorem wp_of_eq {x : EStateM ε σ α} {a : α} {s' : σ} (h : x s = .ok a s') :
    wp x Q E s ↔ Q a s' := by
  unfold wp
  rw [h]

/-- The rule for a loop over a list: every pass takes what holds before it, with its element in
front of the elements still to come, to what holds before the next. -/
theorem wp_forM {f : β → EStateM ε σ PUnit} {I : List β → σ → Prop} {l : List β}
    (h : ∀ b rest s, I (b :: rest) s → wp (f b) (fun _ => I rest) E s) (hI : I l s) :
    wp (l.forM f) (fun _ => I []) E s := by
  induction l generalizing s with
  | nil => exact hI
  | cons b rest ih =>
    show wp (f b >>= fun _ => rest.forM f) (fun _ => I []) E s
    rw [wp_bind]
    exact wp_mono (h b rest s hI) (fun _ _ => ih) fun _ _ he => he

/-- What holds however a run ends holds of the state in which it ends. -/
theorem wp_finalState {x : EStateM ε σ α} {P : σ → Prop} (h : Ends x P s) :
    P (finalState (x s)) := by
  unfold Ends wp at h
  cases hx : x s <;> rw [hx] at h <;> exact h

end Rules

/-! ## Transactions -/

/-- A transaction: when the program throws, what it has written is taken back. -/
def transaction (x : EStateM ε σ α) : EStateM ε σ α := fun s =>
  match x s with
  | .ok a s' => .ok a s'
  | .error e _ => .error e s

/-- What a program comes to that is run in a transaction: a result with the state after it, or only an
error. -/
def Commits (x : EStateM ε σ α) (r : Except ε (α × σ)) (s : σ) : Prop :=
  wp x (fun a s' => r = .ok (a, s')) (fun e _ => r = .error e) s

section Transactions

variable {x : EStateM ε σ α} {r : Except ε (α × σ)} {s : σ}

/-- A transaction leaves what its result says, and nothing where it fails. -/
theorem wp_transaction (h : Commits x r s) :
    wp (transaction x) (fun a s' => r = .ok (a, s')) (fun e s' => r = .error e ∧ s' = s) s := by
  unfold Commits wp at h
  unfold wp transaction
  cases hx : x s with
  | ok a s' =>
    rw [hx] at h
    exact h
  | error e s' =>
    rw [hx] at h
    exact ⟨h, rfl⟩

/-- A check in front of a program is one in front of what the program comes to. -/
theorem commits_lift_bind {y : Except ε β} {f : β → EStateM ε σ α}
    {g : β → Except ε (α × σ)} (h : ∀ b, y = .ok b → Commits (f b) (g b) s) :
    Commits (liftM y >>= f) (y >>= g) s := by
  unfold Commits
  rw [wp_bind, wp_lift]
  constructor
  · rintro b rfl
    exact h b rfl
  · rintro e rfl
    rfl

/-- A program that reads the state first commits what it then does. -/
theorem commits_get_bind {f : σ → EStateM ε σ α} (h : Commits (f s) r s) :
    Commits (get >>= f) r s := h

/-- A program that changes the state first commits what it then does. -/
theorem commits_modify_bind {f : PUnit → EStateM ε σ α} {g : σ → σ}
    (h : Commits (f ⟨⟩) r (g s)) : Commits (modify g >>= f) r s := h

/-- A part of a program that comes to a value, and the program after it. -/
theorem commits_bind {x : EStateM ε σ β} {y : Except ε γ} {f : β → EStateM ε σ α}
    {g : γ → Except ε (α × σ)} {after : γ → β × σ}
    (hx : Commits x (y.map after) s)
    (h : ∀ c, y = .ok c → Commits (f (after c).1) (g c) (after c).2) :
    Commits (x >>= f) (y >>= g) s := by
  unfold Commits
  apply wp_bind_of hx
  · intro b s' hy
    cases y with
    | ok c =>
      obtain ⟨rfl, rfl⟩ := Prod.mk.inj (Except.ok.inj hy)
      exact h c rfl
    | error e => cases hy
  · intro e s' hy
    cases y with
    | ok c => cases hy
    | error e' =>
      cases hy
      rfl

end Transactions

/-! ## A part of the state -/

/-- A program on a part of a state, whose errors are wrapped. -/
def within {τ ε' : Type} (part : τ → σ) (change : τ → σ → τ) (wrap : ε → ε') (x : EStateM ε σ α) :
    EStateM ε' τ α := fun t =>
  match x (part t) with
  | .ok a s => .ok a (change t s)
  | .error e s => .error (wrap e) (change t s)

/-- A program on a part of a state, seen from the whole. -/
@[simp]
theorem wp_within {τ ε' : Type} {part : τ → σ} {change : τ → σ → τ} {wrap : ε → ε'}
    {x : EStateM ε σ α} {Q : α → τ → Prop} {E : ε' → τ → Prop} {t : τ} :
    wp (within part change wrap x) Q E t ↔
      wp x (fun a s => Q a (change t s)) (fun e s => E (wrap e) (change t s)) (part t) := by
  unfold wp within
  cases x (part t) <;> rfl

end OsAgent.Library
