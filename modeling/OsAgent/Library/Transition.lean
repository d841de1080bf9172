import Mathlib.Logic.Relation

/-!
# Transition systems

A system whose state changes in steps. `Reachable` is reachability from the initial states, and
`Reachable.invariant` is the rule by which every property of all reachable states is proved here:
it holds initially, and every step from a reachable state that has it keeps it. `Later` relates a
state to the states of its continuations, and `Later.invariant` is the same rule for a property
that a state has from some moment on.
-/

namespace OsAgent.Library

/-- A transition system: which states a run may start in, and which steps it may take. -/
structure TransitionSystem (σ : Type*) where
  /-- The states in which a run may start. -/
  init : σ → Prop
  /-- The steps. -/
  step : σ → σ → Prop

namespace TransitionSystem

variable {σ τ : Type*} (T : TransitionSystem σ)

/-- `s'` is a state of some run after `s`, or `s` itself. -/
def Later : σ → σ → Prop := Relation.ReflTransGen T.step

/-- `s` is a state of some run. -/
def Reachable (s : σ) : Prop := ∃ s₀, T.init s₀ ∧ T.Later s₀ s

variable {T}

/-- A run starts in a reachable state. -/
theorem Reachable.of_init {s : σ} (h : T.init s) : T.Reachable s := ⟨s, h, .refl⟩

/-- A step from a reachable state leads to one. -/
theorem Reachable.step {s s' : σ} (h : T.Reachable s) (hs : T.step s s') : T.Reachable s' := by
  obtain ⟨s₀, h0, hl⟩ := h
  exact ⟨s₀, h0, hl.tail hs⟩

/-- What follows a reachable state is reachable. -/
theorem Reachable.later {s s' : σ} (h : T.Reachable s) (hs : T.Later s s') : T.Reachable s' := by
  obtain ⟨s₀, h0, hl⟩ := h
  exact ⟨s₀, h0, hl.trans hs⟩

/-- The induction along a run: a property that holds initially and that every step from a
reachable state keeps holds of every reachable state. -/
theorem Reachable.invariant {P : σ → Prop} (h0 : ∀ s, T.init s → P s)
    (hs : ∀ s s', T.Reachable s → P s → T.step s s' → P s') {s : σ} (h : T.Reachable s) : P s := by
  obtain ⟨s₀, hi, hl⟩ := h
  induction hl with
  | refl => exact h0 _ hi
  | tail hl hstep ih => exact hs _ _ ⟨s₀, hi, hl⟩ ih hstep

/-- The induction along the continuations of a reachable state. -/
theorem Later.invariant {P : σ → Prop} {s s' : σ} (hr : T.Reachable s) (h0 : P s)
    (hs : ∀ t t', T.Reachable t → P t → T.step t t' → P t') (h : T.Later s s') : P s' := by
  induction h with
  | refl => exact h0
  | tail hl hstep ih => exact hs _ _ (hr.later hl) ih hstep

/-- A system each of whose steps is a step of another, from initial states of the other, reaches
only what the other reaches. -/
theorem Reachable.mono {T' : TransitionSystem σ} (hi : ∀ s, T.init s → T'.init s)
    (hs : ∀ s s', T.step s s' → T'.step s s') {s : σ} (h : T.Reachable s) : T'.Reachable s := by
  obtain ⟨s₀, h0, hl⟩ := h
  exact ⟨s₀, hi _ h0, Relation.ReflTransGen.mono hs _ _ hl⟩

end TransitionSystem

end OsAgent.Library
