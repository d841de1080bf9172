import OsAgent.Library.Program

/-!
# Programs that call a shared object

A program that makes its calls one at a time, so that others may act between two of them. `call c next`
makes the call `c` and goes on with what it is answered, or with the error with which the call fails.
`run` makes all calls against one state, with nothing in between, and is a program of `EStateM`;
`Calls P` says that every call that the program may make, whatever it is answered, satisfies `P`.
-/

namespace OsAgent.Library

/-- A program with calls `C`, answers `A`, errors `ε` and results `α`. -/
inductive Interaction (C : Type) (A : C → Type) (ε α : Type) : Type
  | done (result : Except ε α)
  | call (c : C) (next : Except ε (A c) → Interaction C A ε α)

namespace Interaction

variable {C : Type} {A : C → Type} {ε α β σ : Type}

/-- Go on with the result of a program. An error ends both. -/
def bind : Interaction C A ε α → (α → Interaction C A ε β) → Interaction C A ε β
  | done (.ok a), f => f a
  | done (.error e), _ => done (.error e)
  | call c next, f => call c fun r => (next r).bind f

/-- An interaction goes on with what the one before it returned. -/
instance monad : Monad (Interaction C A ε) where
  pure a := done (.ok a)
  bind := bind

/-- What returns or fails without a call is an interaction. -/
instance liftDone : MonadLift (Except ε) (Interaction C A ε) := ⟨done⟩

/-- Make one call. -/
def request (c : C) : Interaction C A ε (A c) := call c done

/-- Make all calls in a row. -/
def run (handle : (c : C) → EStateM ε σ (A c)) : Interaction C A ε α → EStateM ε σ α
  | done (.ok a) => pure a
  | done (.error e) => throw e
  | call c next => fun s =>
    match handle c s with
    | .ok a s' => (next (.ok a)).run handle s'
    | .error e s' => (next (.error e)).run handle s'

section Rules

variable (handle : (c : C) → EStateM ε σ (A c)) {Q : α → σ → Prop} {E : ε → σ → Prop} {s : σ}

/-- What returns leaves the state as it is. -/
@[simp]
theorem wp_run_pure (a : α) :
    wp ((pure a : Interaction C A ε α).run handle) Q E s ↔ Q a s := Iff.rfl

/-- What makes no call leaves the state as it is, whether it returns or fails. -/
@[simp]
theorem wp_run_lift (x : Except ε α) : wp ((liftM x : Interaction C A ε α).run handle) Q E s ↔
    (∀ a, x = .ok a → Q a s) ∧ ∀ e, x = .error e → E e s := by
  show wp ((done x : Interaction C A ε α).run handle) Q E s ↔ _
  cases x with
  | ok a => simp [run]
  | error e => simp [run]

/-- A call is as good as what answers it. -/
@[simp]
theorem wp_run_request {Q : A c → σ → Prop} :
    wp ((request c : Interaction C A ε (A c)).run handle) Q E s ↔ wp (handle c) Q E s := by
  unfold wp
  simp only [request, run]
  cases handle c s <;> rfl

/-- One interaction after another is run one after the other. -/
@[simp]
theorem wp_run_bind (x : Interaction C A ε β) (f : β → Interaction C A ε α) :
    wp ((x >>= f).run handle) Q E s ↔
      wp (x.run handle) (fun b s' => wp ((f b).run handle) Q E s') E s := by
  show wp ((x.bind f).run handle) Q E s ↔ _
  induction x generalizing s with
  | done result =>
    cases result with
    | ok a => exact Iff.rfl
    | error e => exact Iff.rfl
  | call c next ih =>
    unfold wp
    simp only [bind, run]
    cases handle c s with
    | ok a s' => exact ih (.ok a)
    | error e s' => exact ih (.error e)

/-- A choice is that of the branch that is taken. -/
@[simp]
theorem wp_run_ite (c : Prop) [Decidable c] (x y : Interaction C A ε α) :
    wp ((if c then x else y).run handle) Q E s ↔
      if c then wp (x.run handle) Q E s else wp (y.run handle) Q E s := by
  split_ifs <;> rfl

end Rules

/-- Every call that a program may make satisfies `P`, the error of a call ends the program, and its
result satisfies `Q`. -/
inductive Calls (P : C → Prop) (Q : α → Prop) : Interaction C A ε α → Prop
  | done (result : Except ε α) (h : ∀ a, result = .ok a → Q a) : Calls P Q (done result)
  | call (c : C) (next : Except ε (A c) → Interaction C A ε α) (h : P c)
    (hok : ∀ a, Calls P Q (next (.ok a))) (herror : ∀ e, next (.error e) = .done (.error e)) :
    Calls P Q (call c next)

section Calls

variable {P : C → Prop} {Q : α → Prop} {R : β → Prop}

/-- What returns makes no call. -/
theorem calls_pure {a : α} (h : Q a) : Calls P Q (pure a : Interaction C A ε α) :=
  .done _ fun b hb => by rwa [← Except.ok.inj hb]

/-- A check makes no call, and its result is what it computes. -/
theorem calls_lift (x : Except ε α) : Calls P (x = .ok ·) (liftM x : Interaction C A ε α) :=
  .done x fun _ h => h

/-- A request makes its own call alone. -/
theorem calls_request {c : C} (h : P c) :
    Calls P (fun _ => True) (request c : Interaction C A ε (A c)) :=
  .call c _ h (fun _ => .done _ fun _ _ => trivial) fun _ => rfl

/-- The calls of two programs in a row. -/
theorem calls_bind {x : Interaction C A ε β} {f : β → Interaction C A ε α} (hx : Calls P R x)
    (hf : ∀ b, R b → Calls P Q (f b)) : Calls P Q (x >>= f) := by
  show Calls P Q (x.bind f)
  induction hx with
  | done result h =>
    cases result with
    | ok a => exact hf a (h a rfl)
    | error e => exact .done _ (fun _ h => (by cases h))
  | call c next h _ herror ih =>
    refine .call c _ h ih fun e => ?_
    rw [herror e]
    rfl

end Calls

end Interaction

end OsAgent.Library
