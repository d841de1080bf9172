import Mathlib.Algebra.Order.BigOperators.Group.List
import Mathlib.Algebra.Order.Group.Basic
import Mathlib.Data.List.Induction

/-!
# Sliding windows

A log of events, each with a time and a weight, to which an event is added only if the weights in the
window that ends with it are within the limits. Which totals are within the limits is a predicate that
holds of every smaller total. `Roomy.total_within` shows that the weights in every window are then
within the limits, not only in the windows that end with an event: a window has a last event, and what
it holds before that event was in the window of that event. What a program keeps of the log is a list
that it prunes from time to time. `Keeps` says that enough of the log is left.
-/

namespace OsAgent.Library

variable {E K M : Type*} [AddCommGroup K] [LinearOrder K] [AddCommMonoid M] {time : E → K}
  {width : K} {weight : E → M} {within : M → Prop}

/-- The events of the window that ends now. -/
def recent (time : E → K) (width now : K) (log : List E) : List E :=
  log.filter fun e => now - width < time e

/-- Drops the oldest events that have left the window that ends now. -/
def prune (time : E → K) (width now : K) (log : List E) : List E :=
  log.dropWhile fun e => time e ≤ now - width

/-- The weights of some events. -/
def totalWeight (weight : E → M) (log : List E) : M := (log.map weight).sum

/-- The weights in every window of the given width are within the limits, whichever of its two ends the
window contains. -/
def WindowBounded (time : E → K) (width : K) (weight : E → M) (within : M → Prop) (log : List E) :
    Prop :=
  ∀ start,
    within (totalWeight weight (log.filter fun e => start ≤ time e ∧ time e < start + width)) ∧
    within (totalWeight weight (log.filter fun e => start < time e ∧ time e ≤ start + width))

/-- What is within some limits in every window is so within wider ones. -/
theorem WindowBounded.imp {within' : M → Prop} {log : List E}
    (h : WindowBounded time width weight within log) (himp : ∀ m, within m → within' m) :
    WindowBounded time width weight within' log :=
  fun start => ⟨himp _ (h start).1, himp _ (h start).2⟩

/-- The events are in the order of their times. -/
def Ordered (time : E → K) (log : List E) : Prop := log.Pairwise fun e e' => time e ≤ time e'

/-- What was kept of the log agrees with it in every window that ends from now on. -/
def Keeps (time : E → K) (width now : K) (stored log : List E) : Prop :=
  ∀ now', now ≤ now' → recent time width now' stored = recent time width now' log

/-- Where there are no entries, there is no weight. -/
@[simp]
theorem totalWeight_nil : totalWeight weight [] = 0 := rfl

/-- The weights of two lists add up. -/
@[simp]
theorem totalWeight_append (l l' : List E) :
    totalWeight weight (l ++ l') = totalWeight weight l + totalWeight weight l' := by
  simp [totalWeight]

/-- Events of weight one are counted. -/
@[simp]
theorem totalWeight_one (l : List E) : totalWeight (fun _ => 1) l = l.length := by
  simp [totalWeight]

/-- The weight of a list is that of its first entry and of the rest. -/
@[simp]
theorem totalWeight_cons (e : E) (l : List E) :
    totalWeight weight (e :: l) = weight e + totalWeight weight l := by
  simp [totalWeight]

/-- What is recent of two lists is so of each. -/
@[simp]
theorem recent_append (now : K) (l l' : List E) :
    recent time width now (l ++ l') = recent time width now l ++ recent time width now l' :=
  List.filter_append ..

/-! ## Weights that leave room -/

/-- There was room for every event when it was added. -/
def Roomy (time : E → K) (width : K) (weight : E → M) (within : M → Prop) (log : List E) : Prop :=
  ∀ before e after, log = before ++ e :: after →
    within (totalWeight weight (recent time width (time e) before) + weight e)

/-- The empty log is roomy. -/
theorem Roomy.nil : Roomy time width weight within [] := by
  intro before e after h
  cases before <;> cases h

/-- An event for which there is room can be added. -/
theorem Roomy.concat {log : List E} {e : E} (h : Roomy time width weight within log)
    (hroom : within (totalWeight weight (recent time width (time e) log) + weight e)) :
    Roomy time width weight within (log ++ [e]) := by
  intro before e' after hsplit
  rcases List.eq_nil_or_concat after with rfl | ⟨after', last, rfl⟩
  · obtain ⟨rfl, hlast⟩ := List.append_inj' hsplit rfl
    obtain rfl := (List.cons.inj hlast).1
    exact hroom
  · have hsplit' : log ++ [e] = (before ++ e' :: after') ++ [last] := by simpa using hsplit
    exact h before e' after' (List.append_inj' hsplit' rfl).1

variable [PartialOrder M] [IsOrderedAddMonoid M]

/-- Fewer events weigh no more. -/
theorem totalWeight_le_of_sublist {l l' : List E} (h : l.Sublist l')
    (hweight : ∀ e ∈ l', 0 ≤ weight e) : totalWeight weight l ≤ totalWeight weight l' := by
  induction h with
  | slnil => exact le_refl _
  | cons a _ ih =>
    rw [totalWeight_cons]
    have hle := ih fun e he => hweight e (List.mem_cons_of_mem _ he)
    exact hle.trans (le_add_of_nonneg_left (hweight a List.mem_cons_self))
  | cons_cons a _ ih =>
    rw [totalWeight_cons, totalWeight_cons]
    exact add_le_add_right (ih fun e he => hweight e (List.mem_cons_of_mem _ he)) _

/-- The weights of the events whose times are less than the width apart are within the limits. -/
theorem Roomy.total_within {log : List E} (h : Roomy time width weight within log)
    (hweight : ∀ e ∈ log, 0 ≤ weight e) (hdown : ∀ a b, a ≤ b → within b → within a)
    (hzero : within 0) (window : K → Prop) [DecidablePred window]
    (hwindow : ∀ s t, window s → window t → t - width < s) :
    within (totalWeight weight (log.filter fun e => window (time e))) := by
  -- By induction on the log from its end, since the room was checked when an event came last.
  induction log using List.reverseRecOn with
  | nil => exact hzero
  | append_singleton log e ih =>
    have hbefore : Roomy time width weight within log := by
      intro before e' after hsplit
      exact h before e' (after ++ [e]) (by simp [hsplit])
    have hweights : ∀ e' ∈ log, 0 ≤ weight e' := fun e' he' => hweight e' (List.mem_append_left _ he')
    rw [List.filter_append]
    by_cases he : window (time e)
    · -- The last event of the window: what the window holds before it was recent then.
      rw [List.filter_cons_of_pos (by simpa using he), List.filter_nil, totalWeight_append]
      have hsub : (log.filter fun e => window (time e)).Sublist
          (recent time width (time e) log) := by
        have hall : (log.filter fun e => window (time e)).filter
            (fun e' => time e - width < time e') = log.filter fun e => window (time e) := by
          apply List.filter_eq_self.mpr
          intro e' he'
          have hin : window (time e') := by simpa using (List.mem_filter.mp he').2
          simpa using hwindow _ _ hin he
        rw [← hall, recent]
        exact List.filter_sublist.filter _
      have hle := totalWeight_le_of_sublist hsub fun e' he' =>
        hweights e' (List.mem_filter.mp he').1
      have htotal : totalWeight weight (log.filter fun e => window (time e)) +
          totalWeight weight [e] ≤
            totalWeight weight (recent time width (time e) log) + weight e := by
        rw [totalWeight_cons, totalWeight_nil, add_zero]
        exact add_le_add_left hle _
      exact hdown _ _ htotal (h log e [] rfl)
    · -- The last event is not in the window.
      rw [List.filter_cons_of_neg (by simpa using he), List.filter_nil, List.append_nil]
      exact ih hbefore hweights

section Windows

variable [IsOrderedAddMonoid K]

/-- In a log with room for every event, every window is within the limits. -/
theorem Roomy.windowBounded {log : List E} (h : Roomy time width weight within log)
    (hweight : ∀ e ∈ log, 0 ≤ weight e) (hdown : ∀ a b, a ≤ b → within b → within a)
    (hzero : within 0) : WindowBounded time width weight within log := by
  intro start
  constructor
  · apply h.total_within hweight hdown hzero (fun t => start ≤ t ∧ t < start + width)
    intro s t hs ht
    exact (sub_lt_iff_lt_add.mpr ht.2).trans_le hs.1
  · apply h.total_within hweight hdown hzero (fun t => start < t ∧ t ≤ start + width)
    intro s t hs ht
    exact (sub_le_iff_le_add.mpr ht.2).trans_lt hs.1

end Windows

/-! ## Pruning -/

/-- Pruning an ordered log leaves the recent events. -/
theorem prune_eq_recent {log : List E} (h : Ordered time log) (now : K) :
    prune time width now log = recent time width now log := by
  induction log with
  | nil => rfl
  | cons e log ih =>
    obtain ⟨hfirst, hrest⟩ := List.pairwise_cons.mp h
    unfold prune recent
    by_cases he : time e ≤ now - width
    · rw [List.dropWhile_cons_of_pos (by simpa using he),
        List.filter_cons_of_neg (by simpa using he)]
      exact ih hrest
    · rw [List.dropWhile_cons_of_neg (by simpa using he)]
      apply Eq.symm
      apply List.filter_eq_self.mpr
      intro e' he'
      rcases List.mem_cons.mp he' with rfl | he'
      · simpa using he
      · simpa using (not_le.mp he).trans_le (hfirst e' he')

/-- The whole log keeps all of it. -/
theorem Keeps.refl (now : K) (log : List E) : Keeps time width now log log := fun _ _ => rfl

/-- An event that is added to both is kept. -/
theorem Keeps.concat {now : K} {stored log : List E} (h : Keeps time width now stored log) (e : E) :
    Keeps time width now (stored ++ [e]) (log ++ [e]) := by
  intro later hlater
  rw [recent_append, recent_append, h later hlater]

omit [AddCommGroup K] in
/-- Events of an ordered log that are added in order stay in order. -/
theorem Ordered.concat {log : List E} {e : E} (h : Ordered time log)
    (hlast : ∀ e' ∈ log, time e' ≤ time e) : Ordered time (log ++ [e]) := by
  rw [Ordered, List.pairwise_append]
  refine ⟨h, List.pairwise_singleton _ _, ?_⟩
  intro e' he' e'' he''
  rw [List.mem_singleton.mp he'']
  exact hlast e' he'

/-- The recent events of an ordered log are in order. -/
theorem Ordered.recent {log : List E} (h : Ordered time log) (now : K) :
    Ordered time (recent time width now log) := List.Pairwise.sublist List.filter_sublist h

variable [IsOrderedAddMonoid K]

/-- Pruning again, later, is pruning once. -/
theorem prune_prune {now now' : K} (h : now ≤ now') (log : List E) :
    prune time width now' (prune time width now log) = prune time width now' log := by
  unfold prune
  induction log with
  | nil => rfl
  | cons e log ih =>
    by_cases he : time e ≤ now - width
    · have he' : time e ≤ now' - width := he.trans (sub_le_sub_right h _)
      rw [List.dropWhile_cons_of_pos (by simpa using he),
        List.dropWhile_cons_of_pos (by simpa using he')]
      exact ih
    · rw [List.dropWhile_cons_of_neg (by simpa using he)]

/-- The recent events of the recent events are those of the later window. -/
theorem recent_recent {now now' : K} (h : now ≤ now') (log : List E) :
    recent time width now' (recent time width now log) = recent time width now' log := by
  unfold recent
  rw [List.filter_filter]
  apply List.filter_congr
  intro e _
  by_cases he : now' - width < time e
  · simp [he, (sub_le_sub_right h width).trans_lt he]
  · simp [he]

/-- Pruning keeps what is in later windows. -/
theorem Keeps.recent {now now' : K} {stored log : List E} (h : Keeps time width now stored log)
    (hle : now ≤ now') : Keeps time width now' (recent time width now' stored) log := by
  intro later hlater
  rw [recent_recent hlater]
  exact h later (hle.trans hlater)

end OsAgent.Library
