import Mathlib.Data.List.Forall2

/-!
# Checks

A check of a value either passes or throws. Its result is an `Except ε Unit`, and a check is known by
the values that it passes. The simp lemmas here turn "the check passes" into a conjunction of what
its parts require, in the order in which it makes them.
-/

namespace OsAgent.Library

variable {ε α β : Type}

/-- Throw the error unless the condition holds. -/
def require (condition : Prop) [Decidable condition] (error : ε) : Except ε Unit :=
  if condition then .ok () else .error error

/-- A requirement passes exactly if it holds. -/
@[simp]
theorem require_eq_ok {c : Prop} [Decidable c] {e : ε} {u : Unit} : require c e = .ok u ↔ c := by
  unfold require
  split_ifs with h <;> simp [h]

/-- What follows a check is reached when the check passes. -/
@[simp]
theorem check_bind_eq_ok {x : Except ε Unit} {f : Unit → Except ε β} {b : β} :
    (x >>= f) = .ok b ↔ x = .ok () ∧ f () = .ok b := by
  cases x with
  | error e => simp [bind, Except.bind]
  | ok u => simp [bind, Except.bind]

/-- What follows a computation is reached with its result. -/
theorem bind_eq_ok {x : Except ε α} {f : α → Except ε β} {b : β} :
    (x >>= f) = .ok b ↔ ∃ a, x = .ok a ∧ f a = .ok b := by
  cases x <;> simp [bind, Except.bind]

/-- A requirement fails exactly if it does not hold, and with its own error. -/
@[simp]
theorem require_eq_error {c : Prop} [Decidable c] {e e' : ε} :
    require c e = .error e' ↔ ¬ c ∧ e = e' := by
  unfold require
  split_ifs with h <;> simp [h]

/-- A sequence of computations fails where the first of them does. -/
theorem bind_eq_error {x : Except ε α} {f : α → Except ε β} {e : ε} :
    (x >>= f) = .error e ↔ x = .error e ∨ ∃ a, x = .ok a ∧ f a = .error e := by
  cases x <;> simp [bind, Except.bind]

/-- What returns does not fail. -/
@[simp]
theorem pure_ne_error {a : α} {e : ε} : (pure a : Except ε α) ≠ .error e := by
  simp [pure, Except.pure]

/-- The result of a check says nothing. -/
theorem exists_unit {p : Unit → Prop} : (∃ u, p u) ↔ p () :=
  ⟨fun ⟨_, h⟩ => h, fun h => ⟨(), h⟩⟩

/-- A result is kept exactly by what returns. -/
theorem toOption_eq_some {x : Except ε α} {a : α} : x.toOption = some a ↔ x = .ok a := by
  cases x <;> simp [Except.toOption]

/-- What is changed afterwards returns exactly where the computation does. -/
theorem map_eq_ok {x : Except ε α} {f : α → β} {b : β} :
    x.map f = .ok b ↔ ∃ a, x = .ok a ∧ f a = b := by
  cases x <;> simp [Except.map]

/-- What returns is the value that was given. -/
@[simp]
theorem pure_eq_ok {a b : α} : (pure a : Except ε α) = .ok b ↔ a = b := by
  simp [pure, Except.pure]

/-- A check of every item of a list passes when it passes each of them. -/
@[simp]
theorem forM_eq_ok {check : α → Except ε Unit} {l : List α} {u : Unit} :
    l.forM check = .ok u ↔ ∀ a ∈ l, check a = .ok () := by
  induction l with
  | nil => simp [List.forM]
  | cons a l ih =>
    show (check a >>= fun _ => l.forM check) = .ok u ↔ _
    rw [check_bind_eq_ok, ih, List.forall_mem_cons]

/-- A computation over a list succeeds with the list of the results. -/
theorem mapM_eq_ok {f : α → Except ε β} {l : List α} {r : List β} :
    l.mapM f = .ok r ↔ List.Forall₂ (fun a b => f a = .ok b) l r := by
  induction l generalizing r with
  | nil =>
    rw [List.mapM_nil, pure_eq_ok, List.forall₂_nil_left_iff, eq_comm]
  | cons a l ih =>
    simp only [List.mapM_cons, bind_eq_ok, pure_eq_ok, ih, List.forall₂_cons_left_iff]
    constructor
    · rintro ⟨b, hb, bs, hbs, rfl⟩
      exact ⟨b, bs, hb, hbs, rfl⟩
    · rintro ⟨b, bs, hb, hbs, rfl⟩
      exact ⟨b, hb, bs, hbs, rfl⟩

/-- The same for what may be missing. -/
theorem forall₂_of_mapM {f : α → Option β} {l : List α} {r : List β}
    (h : l.mapM f = some r) : List.Forall₂ (fun a b => f a = some b) l r := by
  induction l generalizing r with
  | nil =>
    rw [List.mapM_nil, Option.pure_def, Option.some.injEq] at h
    rw [← h]
    exact .nil
  | cons a l ih =>
    rw [List.mapM_cons] at h
    obtain ⟨b, hb, h⟩ := Option.bind_eq_some_iff.mp h
    obtain ⟨bs, hbs, h⟩ := Option.bind_eq_some_iff.mp h
    rw [← Option.some.inj h]
    exact .cons hb (ih hbs)

/-- Where each item is read, the whole list is. -/
theorem mapM_of_forall₂ {f : α → Option β} {l : List α} {r : List β}
    (h : List.Forall₂ (fun a b => f a = some b) l r) : l.mapM f = some r := by
  induction h with
  | nil => rfl
  | cons hb _ ih =>
    rw [List.mapM_cons, hb, ih]
    rfl

/-- A loop whose steps all return returns. -/
theorem exists_mapM_eq_ok {f : α → Except ε β} {l : List α} (h : ∀ a ∈ l, ∃ b, f a = .ok b) :
    ∃ r, l.mapM f = .ok r := by
  induction l with
  | nil => exact ⟨[], rfl⟩
  | cons a l ih =>
    obtain ⟨b, hb⟩ := h a List.mem_cons_self
    obtain ⟨r, hr⟩ := ih fun a' ha' => h a' (List.mem_cons_of_mem _ ha')
    exact ⟨b :: r, mapM_eq_ok.mpr (List.Forall₂.cons hb (mapM_eq_ok.mp hr))⟩

/-- What lists that are related item by item say of an item on the right. -/
theorem exists_left_of_mem {R : α → β → Prop} {l : List α} {r : List β} (h : List.Forall₂ R l r)
    {b : β} (hb : b ∈ r) : ∃ a ∈ l, R a b := by
  induction h with
  | nil => cases hb
  | cons hab _ ih =>
    rcases List.mem_cons.mp hb with rfl | hb
    · exact ⟨_, List.mem_cons_self, hab⟩
    · obtain ⟨a, ha, hR⟩ := ih hb
      exact ⟨a, List.mem_cons_of_mem _ ha, hR⟩

/-- What lists that are related item by item say of an item on the left. -/
theorem exists_right_of_mem {R : α → β → Prop} {l : List α} {r : List β} (h : List.Forall₂ R l r)
    {a : α} (ha : a ∈ l) : ∃ b ∈ r, R a b := by
  have hflip : List.Forall₂ (flip R) r l := List.Forall₂.flip h
  exact exists_left_of_mem hflip ha

/-! ## Computations with a state -/

variable {σ : Type}

/-- What follows a computation starts from its result and its state. -/
theorem run_bind_eq_ok {x : StateT σ (Except ε) α} {f : α → StateT σ (Except ε) β} {s : σ}
    {r : β × σ} :
    (x >>= f).run s = .ok r ↔ ∃ a s', x.run s = .ok (a, s') ∧ (f a).run s' = .ok r := by
  rw [StateT.run_bind, bind_eq_ok]
  exact Prod.exists

/-- A computation without a state that succeeds leaves the state to what follows it. -/
theorem run_lift_bind {x : Except ε α} {f : α → StateT σ (Except ε) β} {a : α} (h : x = .ok a)
    (s : σ) : ((liftM x : StateT σ (Except ε) α) >>= f).run s = (f a).run s := by
  rw [h]
  rfl

/-- A computation without a state that fails ends what follows it. -/
theorem run_lift_bind_error {x : Except ε α} {f : α → StateT σ (Except ε) β} {e : ε}
    (h : x = .error e) (s : σ) :
    ((liftM x : StateT σ (Except ε) α) >>= f).run s = .error e := by
  rw [h]
  rfl

/-- A computation over a list succeeds with the results of its items, in order. -/
theorem mapM_run {f : α → StateT σ (Except ε) β} {l : List α} {s s' : σ} {r : List β}
    (h : (l.mapM f).run s = .ok (r, s')) :
    List.Forall₂ (fun a b => ∃ t t', (f a).run t = .ok (b, t')) l r := by
  induction l generalizing s s' r with
  | nil =>
    rw [List.mapM_nil, StateT.run_pure, pure_eq_ok, Prod.mk.injEq] at h
    rw [← h.1]
    exact List.Forall₂.nil
  | cons a l ih =>
    rw [List.mapM_cons, run_bind_eq_ok] at h
    obtain ⟨b, t, hb, h⟩ := h
    rw [run_bind_eq_ok] at h
    obtain ⟨bs, t', hbs, h⟩ := h
    rw [StateT.run_pure, pure_eq_ok, Prod.mk.injEq] at h
    rw [← h.1]
    exact List.Forall₂.cons ⟨s, t, hb⟩ (ih hbs)

/-- A computation that succeeds on every item succeeds on the list. -/
theorem exists_mapM_run {f : α → StateT σ (Except ε) β} {l : List α}
    (h : ∀ a ∈ l, ∀ s, ∃ r, (f a).run s = .ok r) (s : σ) : ∃ r, (l.mapM f).run s = .ok r := by
  induction l generalizing s with
  | nil => exact ⟨([], s), rfl⟩
  | cons a l ih =>
    obtain ⟨⟨b, t⟩, hb⟩ := h a List.mem_cons_self s
    obtain ⟨⟨bs, t'⟩, hbs⟩ := ih (fun a' ha' => h a' (List.mem_cons_of_mem _ ha')) t
    refine ⟨(b :: bs, t'), ?_⟩
    rw [List.mapM_cons, run_bind_eq_ok]
    refine ⟨b, t, hb, ?_⟩
    rw [run_bind_eq_ok]
    exact ⟨bs, t', hbs, rfl⟩

/-! ## Checks of optional values -/

/-- A check that is made only when there is a value. -/
def checkIfPresent (check : α → Except ε Unit) : Option α → Except ε Unit
  | none => .ok ()
  | some a => check a

/-- A value that is absent passes, and one that is present passes its check. -/
@[simp]
theorem checkIfPresent_eq_ok {check : α → Except ε Unit} {o : Option α} {u : Unit} :
    checkIfPresent check o = .ok u ↔ ∀ a ∈ o, check a = .ok () := by
  cases o <;> simp [checkIfPresent]

end OsAgent.Library
