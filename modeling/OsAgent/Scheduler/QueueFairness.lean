import Mathlib.Data.Fintype.EquivFin
import Mathlib.Tactic.Linarith
import OsAgent.Scheduler.QueueTurns

/-!
# The fairness of the ready queue

How long does an entry wait? `ReadyQueue.patience` bounds the turns that it waits if nothing is
enqueued. It counts the entries that are served before it, the depths that it may still rise, and the
slots up to the next one of its depth. A turn that does not serve the entry takes a slot of its
depth, and then one entry less is before it, or brings the cursor nearer to such a slot. Time does not
raise the patience, and neither does an entry that is enqueued later, unless it is of a parent that
was woken up: such an entry comes before all others of the greatest depth. So a task waits for a number
of turns that is bounded when it is enqueued only if it is such a parent itself, or never reaches that
depth, because the threshold of aging is infinite (`QueueEntry.Sheltered`). Every other task waits
longer with every such parent that is enqueued meanwhile, and for ever if the threshold is no number.
-/

namespace OsAgent.Scheduler

open OsAgent.Library

/-- No parent that is enqueued later, after it was woken up, comes before the entry: the entry is of
such a parent itself, or never has their depth. -/
def QueueEntry.Sheltered (policy : ReadyQueuePolicy) (x : QueueEntry) : Prop :=
  x.parentWakeupBoost = true ∨ (policy.agingThresholdMs = .posInfinity ∧ x.task.depth < 3)

instance (policy : ReadyQueuePolicy) (x : QueueEntry) : Decidable (x.Sheltered policy) :=
  inferInstanceAs (Decidable (_ ∨ _))

/-- What is sheltered has an effective depth. -/
theorem QueueEntry.Sheltered.ranked {policy : ReadyQueuePolicy} {x : QueueEntry}
    (h : x.Sheltered policy) : x.Ranked policy := by
  rcases h with hboost | ⟨hinf, -⟩
  · exact Or.inl hboost
  · exact Or.inr (by rw [hinf]; exact Number.noConfusion)

/-- The delay of an entry by the parents that are enqueued later, after they were woken up. -/
def QueueEntry.delay (policy : ReadyQueuePolicy) (x : QueueEntry) (slots boosted : ℕ) : ℕ :=
  if x.Sheltered policy then 0 else boosted * slots

/-- An entry that may be served before another one, in a slot for which both are candidates. -/
def mayPrecede (policy : ReadyQueuePolicy) (e x : QueueEntry) : Bool :=
  servedBefore e x ∧ (x.parentWakeupBoost ∨ ¬(e.parentWakeupBoost ∧ x.Sheltered policy))

namespace ReadyQueue

variable {s : ReadyQueue} {x : QueueEntry}

/-- The number of entries that may be served before an entry, and itself. -/
def ahead (s : ReadyQueue) (x : QueueEntry) : ℕ := s.entries.countP fun e => mayPrecede s.policy e x

/-- A bound for the turns that an entry waits, if nothing is enqueued. -/
def patience (s : ReadyQueue) (x : QueueEntry) (now : ℚ) : ℕ :=
  (s.ahead x + (3 - depthAt s.policy x now)) * s.schedule.length +
    waitFor s.schedule s.scheduleCursor (depthAt s.policy x now)

/-- The effective depth of an entry that waits is a depth of the schedule. -/
theorem Valid.depthAt_mem (h : s.Valid) (hx : x ∈ s.entries) (hranked : x.Ranked s.policy)
    (now : ℚ) : depthAt s.policy x now ∈ s.schedule :=
  h.effectiveDepth_mem hx (hranked.effectiveDepth_eq now)

/-- The entry that is served before another one in a slot of both is one that may be. -/
theorem mayPrecede_of_same {policy : ReadyQueuePolicy} {e : QueueEntry} {now : ℚ} {depth : ℕ}
    (hbefore : servedBefore e x = true) (he : effectiveDepth policy e now = some depth)
    (hx : effectiveDepth policy x now = some depth) : mayPrecede policy e x = true := by
  unfold mayPrecede
  rw [decide_eq_true_eq]
  refine ⟨hbefore, ?_⟩
  by_cases hboost : x.parentWakeupBoost = true
  · exact Or.inl hboost
  · right
    rintro ⟨heboost, hsheltered⟩
    -- The depth of a sheltered entry is less than that of a parent that was woken up.
    obtain ⟨hinf, hlow⟩ := hsheltered.resolve_left hboost
    rw [effectiveDepth_of_boost policy heboost] at he
    rw [effectiveDepth_of_infinite (Bool.eq_false_iff.mpr hboost) hinf, ← he,
      Option.some.injEq] at hx
    omega

/-- Of the entries that are enqueued later only a parent that was woken up may precede one that is not
sheltered from it. -/
theorem mayPrecede_later {policy : ReadyQueuePolicy} {e : QueueEntry} (hlate : x.order < e.order) :
    mayPrecede policy e x = true ↔ e.parentWakeupBoost = true ∧ ¬ x.Sheltered policy := by
  have horder : ¬ e.order ≤ x.order := not_le.mpr hlate
  unfold mayPrecede servedBefore
  rw [decide_eq_true_eq]
  cases hboost : x.parentWakeupBoost with
  | true =>
    have hsheltered : x.Sheltered policy := Or.inl hboost
    cases e.parentWakeupBoost <;> simp [horder, hsheltered]
  | false => cases e.parentWakeupBoost <;> simp [horder]

/-- Time does not raise the patience. -/
theorem patience_mono (h : s.Valid) (hx : x ∈ s.entries) (hranked : x.Ranked s.policy)
    {now now' : ℚ} (hle : now ≤ now') : s.patience x now' ≤ s.patience x now := by
  have hmono := depthAt_mono h.aging hranked hle
  have hhigh := (effectiveDepth_mem (h.depth x hx) (hranked.effectiveDepth_eq now')).2
  have hlt := waitFor_lt (h.depthAt_mem hx hranked now') s.scheduleCursor
  unfold patience
  rcases hmono.eq_or_lt with heq | hgrown
  · rw [heq]
  · -- A depth that was risen makes up for the whole schedule.
    have hrisen : s.ahead x + (3 - depthAt s.policy x now') + 1 ≤
        s.ahead x + (3 - depthAt s.policy x now) := by omega
    calc (s.ahead x + (3 - depthAt s.policy x now')) * s.schedule.length +
          waitFor s.schedule s.scheduleCursor (depthAt s.policy x now')
        ≤ (s.ahead x + (3 - depthAt s.policy x now') + 1) * s.schedule.length := by
          rw [Nat.add_mul _ 1, Nat.one_mul]
          omega
      _ ≤ (s.ahead x + (3 - depthAt s.policy x now)) * s.schedule.length :=
          Nat.mul_le_mul_right _ hrisen
      _ ≤ _ := Nat.le_add_right _ _

/-- An entry that leaves the queue leaves one less before those that it may precede. -/
theorem ahead_without {i : ℕ} {e : QueueEntry} (hi : s.entries[i]? = some e) (taskId : String)
    (cursor : ℕ) : (s.without i taskId cursor).ahead x +
      (if mayPrecede s.policy e x then 1 else 0) = s.ahead x := by
  obtain ⟨hlt, rfl⟩ := List.getElem?_eq_some_iff.mp hi
  unfold ahead
  rw [← (List.getElem_cons_eraseIdx_perm hlt).countP_eq, List.countP_cons]
  rfl

/-- A turn that does not serve an entry lowers its patience. -/
theorem patience_dequeue (h : s.Valid) (hx : x ∈ s.entries) (hranked : x.Ranked s.policy) {now : ℚ}
    {selected : Selection} {depth : ℕ} (hselected : s.Selected now selected depth) :
    (s.take selected).patience x now + 1 ≤ s.patience x now := by
  have hrank := hranked.effectiveDepth_eq now
  have hdepth := h.depthAt_mem hx hranked now
  have hslot := slotAt_waitFor hdepth s.scheduleCursor
  have hahead := ahead_without (x := x) hselected.entry selected.entry.task.id
    (nextCursor s.schedule s.scheduleCursor selected.offset)
  have hnear : selected.offset ≤ waitFor s.schedule s.scheduleCursor
      (depthAt s.policy x now) := by
    by_contra hfar
    exact hselected.passed x hx _ (not_le.mp hfar) _ hrank hslot
  unfold patience
  show ((s.without _ _ _).ahead x + (3 - depthAt s.policy x now)) * s.schedule.length +
    waitFor s.schedule (nextCursor s.schedule s.scheduleCursor selected.offset)
      (depthAt s.policy x now) + 1 ≤ _
  rcases hnear.eq_or_lt with hhere | hthere
  · -- The turn takes a slot of the depth of the entry, for one that is served before it.
    have hslot' := hselected.slot
    rw [hhere, hslot, Option.some.injEq] at hslot'
    rw [hslot'] at hrank
    have hbefore := hselected.first x hx hrank
    rw [if_pos (mayPrecede_of_same hbefore hselected.ranked hrank)] at hahead
    have hlt := waitFor_lt hdepth (nextCursor s.schedule s.scheduleCursor selected.offset)
    rw [← hahead, Nat.add_right_comm _ 1, Nat.add_mul _ 1, Nat.one_mul]
    omega
  · -- The turn brings the cursor nearer to such a slot.
    have hlt := waitFor_next_lt hdepth hthere
    have hle : (s.without selected.entryIndex selected.entry.task.id
        (nextCursor s.schedule s.scheduleCursor selected.offset)).ahead x ≤ s.ahead x := by omega
    have hmul := Nat.mul_le_mul_right s.schedule.length
      (Nat.add_le_add_right hle (3 - depthAt s.policy x now))
    omega

/-- What an enqueue adds to the patience of the entries that wait. -/
theorem patience_enqueue (h : s.Valid) (hx : x ∈ s.entries) (now' : ℚ) {now : ℚ}
    {task : QueueTask} {boost : Bool} {s' : ReadyQueue} (henqueue : s.enqueue now task boost = .ok s') :
    s'.patience x now' ≤
      s.patience x now' + x.delay s.policy s.schedule.length (if boost then 1 else 0) := by
  obtain ⟨-, -, rfl⟩ := enqueue_spec henqueue
  have hlater : mayPrecede s.policy ⟨task, s.nextOrder, now, boost⟩ x = true ↔
      boost = true ∧ ¬ x.Sheltered s.policy := mayPrecede_later (h.fresh x hx)
  have hahead : (s.entries ++ [QueueEntry.mk task s.nextOrder now boost]).countP
      (fun e => mayPrecede s.policy e x) = s.ahead x +
        if boost = true ∧ ¬ x.Sheltered s.policy then 1 else 0 := by
    rw [List.countP_append, List.countP_singleton]
    congr 1
    exact if_congr hlater rfl rfl
  unfold patience
  show (List.countP _ _ + (3 - depthAt s.policy x now')) * s.schedule.length +
    waitFor s.schedule s.scheduleCursor (depthAt s.policy x now') ≤ _
  rw [hahead]
  by_cases hboost : boost = true ∧ ¬ x.Sheltered s.policy
  · have hdelay : x.delay s.policy s.schedule.length (if boost then 1 else 0) =
        s.schedule.length := by
      unfold QueueEntry.delay
      rw [if_neg hboost.2, hboost.1, if_pos rfl, Nat.one_mul]
    rw [if_pos hboost, hdelay, Nat.add_right_comm _ 1, Nat.add_mul _ 1, Nat.one_mul]
    omega
  · rw [if_neg hboost, Nat.add_zero]
    exact Nat.le_add_right _ _

/-- An entry that is neither taken nor removed stays. -/
theorem mem_without {i : ℕ} {e : QueueEntry} (hi : s.entries[i]? = some e) (hne : x ≠ e)
    (hx : x ∈ s.entries) (taskId : String) (cursor : ℕ) : x ∈ (s.without i taskId cursor).entries := by
  obtain ⟨j, hj⟩ := List.mem_iff_getElem?.mp hx
  have hindex : j ≠ i := by
    rintro rfl
    exact hne (Option.some.inj (hj.symm.trans hi))
  exact List.mem_eraseIdx_iff_getElem?.mpr ⟨j, hindex, hj⟩

/-- The policy and the schedule are never changed. -/
theorem after_fixed (s : ReadyQueue) (call : QueueCall) :
    (s.after call).policy = s.policy ∧ (s.after call).schedule = s.schedule := by
  cases call with
  | enqueue now task boost =>
    unfold ReadyQueue.after
    dsimp only
    cases henqueue : s.enqueue now task boost with
    | ok s' =>
      obtain ⟨-, -, rfl⟩ := enqueue_spec henqueue
      exact ⟨rfl, rfl⟩
    | error e => exact ⟨rfl, rfl⟩
  | dequeue now =>
    unfold ReadyQueue.after dequeue
    dsimp only
    split <;> exact ⟨rfl, rfl⟩
  | remove taskId =>
    unfold ReadyQueue.after remove
    dsimp only
    split <;> exact ⟨rfl, rfl⟩

/-- What a call does to an entry that waits. -/
theorem patience_after (h : s.Valid) (hx : x ∈ s.entries) (hranked : x.Ranked s.policy) {clock : ℚ}
    {call : QueueCall} (hclock : ∀ now, call.time? = some now → clock ≤ now)
    (hremove : call ≠ .remove x.task.id) (hserved : s.served call ≠ some x.task) :
    x ∈ (s.after call).entries ∧
      (s.after call).patience x (call.time?.getD clock) + (if call.isDequeue then 1 else 0) ≤
        s.patience x clock + x.delay s.policy s.schedule.length (if s.boosts call then 1 else 0) := by
  -- One case per call: a dequeue takes a step, the others add nothing.
  cases call with
  | enqueue now task boost =>
    have hmono := patience_mono h hx hranked (hclock now rfl)
    unfold ReadyQueue.after
    dsimp only
    cases henqueue : s.enqueue now task boost with
    | ok s' =>
      have hle := patience_enqueue h hx now henqueue
      have hboosts : s.boosts (.enqueue now task boost) = boost := by
        cases boost with
        | false => rfl
        | true => simp [boosts, henqueue, Except.isOk, Except.toBool]
      rw [hboosts]
      refine ⟨?_, ?_⟩
      · obtain ⟨-, -, rfl⟩ := enqueue_spec henqueue
        exact List.mem_append_left _ hx
      · show s'.patience x now + 0 ≤ _
        omega
    | error e =>
      refine ⟨hx, ?_⟩
      show s.patience x now + 0 ≤ _
      omega
  | dequeue now =>
    have hmono := patience_mono h hx hranked (hclock now rfl)
    -- A queue with an entry of an effective depth serves one.
    obtain ⟨selected, hselect⟩ :=
      exists_selectNextEntry hx (hranked.effectiveDepth_eq now) (h.depthAt_mem hx hranked now)
    obtain ⟨depth, hselected⟩ := selectNextEntry_spec hselect
    have hdequeue : s.dequeue now = (some selected.entry.task, s.take selected) := by
      unfold dequeue
      rw [hselect]
    have hne : x ≠ selected.entry := by
      rintro rfl
      exact hserved (congrArg Prod.fst hdequeue)
    have hafter : s.after (.dequeue now) = s.take selected := congrArg Prod.snd hdequeue
    rw [hafter]
    refine ⟨mem_without hselected.entry hne hx _ _, ?_⟩
    -- The entry served was ahead of the other, or it was a turn of another depth.
    have hless := patience_dequeue h hx hranked hselected
    show (s.take selected).patience x now + 1 ≤ _
    omega
  | remove taskId =>
    unfold ReadyQueue.after remove
    dsimp only
    cases hfind : s.entries.findIdx? fun entry => entry.task.id = taskId with
    | none => exact ⟨hx, Nat.le_add_right _ _⟩
    -- What is removed is another entry, so the waiting one is not put back.
    | some i =>
      obtain ⟨hlt, hid, -⟩ := List.findIdx?_eq_some_iff_getElem.mp hfind
      rw [decide_eq_true_eq] at hid
      have hi := List.getElem?_eq_getElem hlt
      have hne : x ≠ s.entries[i] := by
        rintro hxe
        apply hremove
        rw [← hid, hxe]
      refine ⟨mem_without hi hne hx taskId s.scheduleCursor, ?_⟩
      have hahead := ahead_without (x := x) hi taskId s.scheduleCursor
      have hle : (s.without i taskId s.scheduleCursor).ahead x ≤ s.ahead x := by omega
      have hmul := Nat.mul_le_mul_right s.schedule.length
        (Nat.add_le_add_right hle (3 - depthAt s.policy x clock))
      show (s.without i taskId s.scheduleCursor).patience x clock + 0 ≤ _
      unfold patience
      show ((s.without i taskId s.scheduleCursor).ahead x +
        (3 - depthAt s.policy x clock)) * s.schedule.length +
          waitFor s.schedule s.scheduleCursor (depthAt s.policy x clock) + 0 ≤ _
      omega

/-- Delays add up. -/
theorem delay_add (policy : ReadyQueuePolicy) (x : QueueEntry) (slots a b : ℕ) :
    x.delay policy slots (a + b) = x.delay policy slots a + x.delay policy slots b := by
  unfold QueueEntry.delay
  split_ifs
  · rfl
  · exact Nat.add_mul a b slots

/-- While an entry waits, its patience bounds the turns. -/
theorem dequeues_le {clock : ℚ} {calls : List QueueCall} (h : s.Valid) (hx : x ∈ s.entries)
    (hranked : x.Ranked s.policy) (hforward : Forward clock calls)
    (hremove : .remove x.task.id ∉ calls) (hserved : x.task ∉ s.servedAll calls) :
    x ∈ (s.afterAll calls).entries ∧ dequeues calls ≤
      s.patience x clock + x.delay s.policy s.schedule.length (s.boostsAll calls) := by
  induction calls generalizing s clock with
  | nil => exact ⟨hx, Nat.zero_le _⟩
  | cons call calls ih =>
    obtain ⟨hclock, hforward⟩ := hforward
    rw [List.mem_cons, not_or] at hremove
    rw [servedAll, List.mem_append, not_or, Option.mem_toList] at hserved
    obtain ⟨hpolicy, hschedule⟩ := s.after_fixed call
    obtain ⟨hmem, hstep⟩ := patience_after h hx hranked hclock (Ne.symm hremove.1) hserved.1
    obtain ⟨hlast, hrest⟩ :=
      ih (h.after call) hmem (hpolicy ▸ hranked) hforward hremove.2 hserved.2
    refine ⟨hlast, ?_⟩
    rw [hpolicy, hschedule] at hrest
    rw [boostsAll, delay_add, dequeues, List.countP_cons]
    unfold dequeues at hrest
    omega

/-- The patience of an entry of the queue is bounded by the number of entries. -/
theorem patience_lt (h : s.Valid) (hx : x ∈ s.entries) (hranked : x.Ranked s.policy) (clock : ℚ) :
    s.patience x clock < (s.entries.length + 3) * s.schedule.length := by
  have hdepth := (effectiveDepth_mem (h.depth x hx) (hranked.effectiveDepth_eq clock)).1
  have hlt := waitFor_lt (h.depthAt_mem hx hranked clock) s.scheduleCursor
  have hahead : s.ahead x ≤ s.entries.length := List.countP_le_length
  have hmul := Nat.mul_le_mul_right s.schedule.length
    (show s.ahead x + (3 - depthAt s.policy x clock) + 1 ≤ s.entries.length + 3 by omega)
  rw [Nat.add_mul _ 1, Nat.one_mul] at hmul
  unfold patience
  omega

/-! ## Starvation -/

/-- Whatever is called from now on, an entry is served within a number of turns. -/
def ServedWithin (s : ReadyQueue) (x : QueueEntry) (clock : ℚ) (turns : ℕ) : Prop :=
  ∀ calls, Forward clock calls → .remove x.task.id ∉ calls → turns ≤ dequeues calls →
    x.task ∈ s.servedAll calls

/-- An entry that is not sheltered and has an effective depth has the greatest one at some time. -/
theorem exists_greatest {policy : ReadyQueuePolicy} (hpolicy : ¬ policy.agingThresholdMs ≤ .finite 0)
    (hdepth : 1 ≤ x.task.depth) (hranked : x.Ranked policy) (hsheltered : ¬ x.Sheltered policy)
    (clock : ℚ) : ∃ now, clock ≤ now ∧ effectiveDepth policy x now = some 3 := by
  unfold QueueEntry.Sheltered at hsheltered
  rw [not_or, Bool.not_eq_true] at hsheltered
  obtain ⟨hboost, hlow⟩ := hsheltered
  cases hthreshold : policy.agingThresholdMs with
  | finite threshold =>
    rw [hthreshold, Number.finite_le_finite, not_le] at hpolicy
    -- After two thresholds every depth has risen to the greatest one.
    refine ⟨max clock (x.enqueuedAt + 2 * threshold), le_max_left _ _, ?_⟩
    have hfloor : 2 ≤ ⌊max 0 (max clock (x.enqueuedAt + 2 * threshold) - x.enqueuedAt) /
        threshold⌋₊ := by
      apply Nat.le_floor
      rw [Nat.cast_ofNat, le_div_iff₀ hpolicy]
      apply le_max_of_le_right
      have hwaited := le_max_right clock (x.enqueuedAt + 2 * threshold)
      linarith
    unfold effectiveDepth maxSchedulingDepth
    rw [if_neg (by simp [hboost]), hthreshold, agingBoost, Option.map_some, Option.some.injEq]
    omega
  | posInfinity =>
    have hhigh : ¬ x.task.depth < 3 := fun hlt => hlow ⟨hthreshold, hlt⟩
    refine ⟨clock, le_refl _, ?_⟩
    rw [effectiveDepth_of_infinite hboost hthreshold, Option.some.injEq]
    omega
  | negInfinity =>
    rw [hthreshold] at hpolicy
    exact absurd Number.negInfinity_le hpolicy
  | nan =>
    rcases hranked with hboost' | hnumber
    · exact absurd hboost' (by simp [hboost])
    · exact absurd hthreshold hnumber

/-- An entry of the greatest depth is not served while a parent waits that was woken up. -/
theorem Selected.ne_of_boost {now : ℚ} {selected : Selection} {depth : ℕ}
    (h : s.Selected now selected depth) (hboost : x.parentWakeupBoost = false)
    (hdepth : effectiveDepth s.policy x now = some 3) {y : QueueEntry} (hy : y ∈ s.entries)
    (hyboost : y.parentWakeupBoost = true) : x ≠ selected.entry := by
  rintro rfl
  have hbefore := h.first y hy (by
    rw [effectiveDepth_of_boost s.policy hyboost, ← hdepth, h.ranked])
  unfold servedBefore at hbefore
  simp [hboost, hyboost] at hbefore

/-- One more parent that was woken up, and one more turn that does not serve the entry. -/
theorem exists_passed (h : s.Valid) (hx : x ∈ s.entries) (hboost : x.parentWakeupBoost = false)
    {now : ℚ} (hdepth : effectiveDepth s.policy x now = some 3) :
    ∃ task, s.served (.enqueue now task true) ≠ some x.task ∧
      (s.after (.enqueue now task true)).served (.dequeue now) ≠ some x.task ∧
      x ∈ ((s.after (.enqueue now task true)).after (.dequeue now)).entries ∧
      ((s.after (.enqueue now task true)).after (.dequeue now)).policy = s.policy := by
  obtain ⟨id, hid⟩ := Infinite.exists_notMem_finset s.taskIds
  let parent : QueueEntry := ⟨{ id, depth := 3 }, s.nextOrder, now, true⟩
  let grown : ReadyQueue := { s with
    entries := s.entries ++ [parent]
    nextOrder := s.nextOrder + 1
    taskIds := insert id s.taskIds
    peakSize := max s.peakSize (s.entries.length + 1) }
  have henqueue : s.enqueue now { id, depth := 3 } true = .ok grown := by
    unfold enqueue
    simp [require, hid, maxSchedulingDepth, bind, Except.bind, pure, Except.pure, grown, parent]
  have hafter : s.after (.enqueue now { id, depth := 3 } true) = grown := by
    unfold ReadyQueue.after
    dsimp only
    rw [henqueue]
  have hgrown : grown.Valid := h.enqueue henqueue
  have hmem : x ∈ grown.entries := List.mem_append_left _ hx
  -- The parent is a candidate for every slot that the entry is a candidate for.
  obtain ⟨selected, hselect⟩ :=
    exists_selectNextEntry hmem hdepth (hgrown.effectiveDepth_mem hmem hdepth)
  obtain ⟨depth, hselected⟩ := selectNextEntry_spec hselect
  have hne : x ≠ selected.entry :=
    hselected.ne_of_boost hboost hdepth (List.mem_append_right _ (List.mem_singleton.mpr rfl)) rfl
  have hdequeue : grown.dequeue now = (some selected.entry.task, grown.take selected) := by
    unfold dequeue
    rw [hselect]
  refine ⟨{ id, depth := 3 }, by simp [served], ?_, ?_, ?_⟩
  · rw [hafter]
    show (grown.dequeue now).1 ≠ some x.task
    rw [hdequeue]
    intro hsame
    have hentry := List.mem_of_getElem? hselected.entry
    exact hne (hgrown.eq_of_id hmem hentry (congrArg QueueTask.id (Option.some.inj hsame)).symm)
  · rw [hafter]
    show x ∈ (grown.dequeue now).2.entries
    rw [hdequeue]
    exact mem_without hselected.entry hne hmem _ _
  · rw [hafter]
    show (grown.dequeue now).2.policy = s.policy
    rw [hdequeue]
    rfl

/-- Any number of turns can pass an entry by. -/
theorem exists_starving (h : s.Valid) (hx : x ∈ s.entries) (hboost : x.parentWakeupBoost = false)
    {now : ℚ} (hdepth : effectiveDepth s.policy x now = some 3) (turns : ℕ) :
    ∃ calls, Forward now calls ∧ .remove x.task.id ∉ calls ∧ dequeues calls = turns ∧
      x.task ∉ s.servedAll calls := by
  induction turns generalizing s with
  | zero => exact ⟨[], trivial, by simp, rfl, by simp [servedAll]⟩
  | succ turns ih =>
    obtain ⟨task, henqueue, hdequeue, hmem, hpolicy⟩ := exists_passed h hx hboost hdepth
    have hvalid := (h.after (.enqueue now task true)).after (.dequeue now)
    obtain ⟨calls, hforward, hremove, hturns, hserved⟩ := ih hvalid hmem (by rw [hpolicy, hdepth])
    refine ⟨.enqueue now task true :: .dequeue now :: calls, ?_, ?_, ?_, ?_⟩
    · exact ⟨fun _ h => (Option.some.inj h).le, fun _ h => (Option.some.inj h).le, hforward⟩
    · simp [hremove]
    · rw [← hturns]
      unfold dequeues
      rw [List.countP_cons, List.countP_cons]
      rfl
    · simp only [servedAll, List.mem_append, Option.mem_toList, not_or]
      exact ⟨henqueue, hdequeue, hserved⟩

/-- Calls that may begin later may begin now. -/
theorem forward_of_le {clock clock' : ℚ} {calls : List QueueCall} (hle : clock ≤ clock')
    (h : Forward clock' calls) : Forward clock calls := by
  induction calls generalizing clock clock' with
  | nil => trivial
  | cons call calls ih =>
    refine ⟨fun now hnow => hle.trans (h.1 now hnow), ?_⟩
    cases htime : call.time? with
    | none =>
      have hrest := h.2
      rw [htime] at hrest
      exact ih hle hrest
    | some now =>
      have hrest := h.2
      rw [htime] at hrest
      exact hrest

/-- A turn does not select an entry whose effective depth is no number. -/
theorem served_ne_of_nan (h : s.Valid) (hx : x ∈ s.entries) (hboost : x.parentWakeupBoost = false)
    (hnan : s.policy.agingThresholdMs = .nan) (now : ℚ) :
    s.served (.dequeue now) ≠ some x.task ∧ x ∈ (s.after (.dequeue now)).entries := by
  cases hselect : s.selectNextEntry now with
  | none =>
    have hdequeue : s.dequeue now = (none, s) := by
      unfold dequeue
      rw [hselect]
    refine ⟨?_, ?_⟩
    · show (s.dequeue now).1 ≠ some x.task
      rw [hdequeue]
      exact (Option.some_ne_none _).symm
    · show x ∈ (s.dequeue now).2.entries
      rw [hdequeue]
      exact hx
  -- An entry was selected: it has a rank, so it is not this one.
  | some selected =>
    obtain ⟨depth, hselected⟩ := selectNextEntry_spec hselect
    have hdequeue : s.dequeue now = (some selected.entry.task, s.take selected) := by
      unfold dequeue
      rw [hselect]
    have hne : x ≠ selected.entry := by
      rintro rfl
      have hranked := hselected.ranked
      rw [effectiveDepth_of_nan hboost hnan] at hranked
      cases hranked
    refine ⟨?_, ?_⟩
    · show (s.dequeue now).1 ≠ some x.task
      rw [hdequeue]
      intro hsame
      have hentry := List.mem_of_getElem? hselected.entry
      exact hne (h.eq_of_id hx hentry (congrArg QueueTask.id (Option.some.inj hsame)).symm)
    · show x ∈ (s.dequeue now).2.entries
      rw [hdequeue]
      exact mem_without hselected.entry hne hx _ _

/-- Under a threshold that is no number, no number of turns serves an entry that has to age. -/
theorem exists_unranked (h : s.Valid) (hx : x ∈ s.entries) (hboost : x.parentWakeupBoost = false)
    (hnan : s.policy.agingThresholdMs = .nan) (now : ℚ) (turns : ℕ) :
    ∃ calls, Forward now calls ∧ .remove x.task.id ∉ calls ∧ dequeues calls = turns ∧
      x.task ∉ s.servedAll calls := by
  induction turns generalizing s with
  | zero => exact ⟨[], trivial, by simp, rfl, by simp [servedAll]⟩
  | succ turns ih =>
    obtain ⟨hserved, hmem⟩ := served_ne_of_nan h hx hboost hnan now
    have hpolicy := (s.after_fixed (.dequeue now)).1
    obtain ⟨calls, hforward, hremove, hturns, hrest⟩ :=
      ih (h.after (.dequeue now)) hmem (by rw [hpolicy, hnan])
    refine ⟨.dequeue now :: calls, ⟨fun _ h => (Option.some.inj h).le, hforward⟩, ?_, ?_, ?_⟩
    · simp [hremove]
    · rw [← hturns]
      unfold dequeues
      rw [List.countP_cons]
      rfl
    · simp only [servedAll, List.mem_append, Option.mem_toList, not_or]
      exact ⟨hserved, hrest⟩

/-- No number of turns is enough for an entry that is not sheltered. -/
theorem not_servedWithin (h : s.Valid) (hx : x ∈ s.entries) (hsheltered : ¬ x.Sheltered s.policy)
    (clock : ℚ) (turns : ℕ) : ¬ s.ServedWithin x clock turns := by
  intro hwithin
  have hboost : x.parentWakeupBoost = false :=
    Bool.eq_false_iff.mpr fun hboost => hsheltered (Or.inl hboost)
  by_cases hranked : x.Ranked s.policy
  · obtain ⟨now, hle, hdepth⟩ := exists_greatest h.aging (h.depth x hx) hranked hsheltered clock
    obtain ⟨calls, hforward, hremove, hturns, hserved⟩ := exists_starving h hx hboost hdepth turns
    exact hserved (hwithin calls (forward_of_le hle hforward) hremove hturns.ge)
  · have hnan : s.policy.agingThresholdMs = .nan :=
      not_not.mp fun hnumber => hranked (Or.inr hnumber)
    obtain ⟨calls, hforward, hremove, hturns, hserved⟩ :=
      exists_unranked h hx hboost hnan clock turns
    exact hserved (hwithin calls hforward hremove hturns.ge)

end ReadyQueue

/-! ## How long a task waits -/

/-- The number of slots of a policy. -/
def ReadyQueuePolicy.slots (policy : ReadyQueuePolicy) : ℕ :=
  match buildSchedule policy.depthWeights with
  | .ok schedule => schedule.length
  | .error _ => 0

/-- The turns after which an entry has been served, if it was enqueued when these entries waited, and a
number of parents that were woken up have been enqueued since. -/
def turnBound (policy : ReadyQueuePolicy) (entries : List QueueEntry) (boosted : ℕ) : ℕ :=
  (entries.length + 3 + boosted) * policy.slots

/-- The queue is valid in every run, and its policy is the one that it was created with. -/
theorem queue_valid_of_reachable {policy : ReadyQueuePolicy} {r : QueueRun}
    (h : (queueSystem policy).Reachable r) : r.queue.Valid ∧ r.queue.policy = policy := by
  apply h.invariant (P := fun r => r.queue.Valid ∧ r.queue.policy = policy)
  · intro r hcreate
    refine ⟨ReadyQueue.Valid.create hcreate, ?_⟩
    have hcreate' : ReadyQueue.create policy = .ok r.queue := hcreate
    unfold ReadyQueue.create at hcreate'
    rw [check_bind_eq_ok, bind_eq_ok] at hcreate'
    obtain ⟨-, schedule, -, hs⟩ := hcreate'
    rw [pure_eq_ok] at hs
    rw [← hs]
  · rintro r r' _ ⟨hvalid, hpolicy⟩ ⟨call, -, rfl⟩
    exact ⟨hvalid.after call, (r.queue.after_fixed call).1.trans hpolicy⟩

/-- A task that is enqueued, and has an effective depth, is served after a number of turns that its
policy, the entries that wait, and the parents that are enqueued later after they were woken up bound.
If it is sheltered from those, they do not count. If it is not, no number of turns is enough whatever is
enqueued. -/
theorem served_within_turnBound {policy : ReadyQueuePolicy} {r : QueueRun} {now : ℚ}
    {task : QueueTask} {boost : Bool} {s' : ReadyQueue} (hr : (queueSystem policy).Reachable r)
    (henqueue : r.queue.enqueue now task boost = .ok s') :
    (boost = true ∨ policy.agingThresholdMs ≠ .nan →
      ∀ calls, Forward now calls → .remove task.id ∉ calls →
        turnBound policy s'.entries
          (if boost ∨ (policy.agingThresholdMs = .posInfinity ∧ task.depth < 3) then 0
            else s'.boostsAll calls) ≤ dequeues calls →
          task ∈ s'.servedAll calls) ∧
    ((∃ turns, s'.ServedWithin ⟨task, r.queue.nextOrder, now, boost⟩ now turns) ↔
      boost = true ∨ (policy.agingThresholdMs = .posInfinity ∧ task.depth < 3)) := by
  obtain ⟨hvalid, hpolicy⟩ := queue_valid_of_reachable hr
  have hvalid' := hvalid.enqueue henqueue
  obtain ⟨hmem, hpolicy'⟩ : QueueEntry.mk task r.queue.nextOrder now boost ∈ s'.entries ∧
      s'.policy = policy := by
    obtain ⟨-, -, rfl⟩ := ReadyQueue.enqueue_spec henqueue
    exact ⟨List.mem_append_right _ (List.mem_singleton.mpr rfl), hpolicy⟩
  have hslots : policy.slots = s'.schedule.length := by
    unfold ReadyQueuePolicy.slots
    rw [← hpolicy', hvalid'.built]
  have hserved : boost = true ∨ policy.agingThresholdMs ≠ .nan →
      ∀ calls, Forward now calls → .remove task.id ∉ calls →
        turnBound policy s'.entries
          (if boost ∨ (policy.agingThresholdMs = .posInfinity ∧ task.depth < 3) then 0
            else s'.boostsAll calls) ≤ dequeues calls →
          task ∈ s'.servedAll calls := by
    -- As long as it is not served, each dequeue takes from its patience.
    intro hranked calls hforward hremove hturns
    by_contra hnot
    rw [← hpolicy'] at hranked hturns
    have hle := (ReadyQueue.dequeues_le hvalid' hmem hranked hforward hremove hnot).2
    have hlt := ReadyQueue.patience_lt hvalid' hmem hranked now
    have hdelay : (QueueEntry.mk task r.queue.nextOrder now boost).delay s'.policy
        s'.schedule.length (s'.boostsAll calls) =
          (if boost ∨ (s'.policy.agingThresholdMs = .posInfinity ∧ task.depth < 3) then 0
            else s'.boostsAll calls) * s'.schedule.length := by
      -- A sheltered task is waited for by no older one; another waits for its age at most.
      by_cases hsheltered : boost = true ∨ (s'.policy.agingThresholdMs = .posInfinity ∧ task.depth < 3)
      · rw [if_pos hsheltered, Nat.zero_mul]
        exact if_pos hsheltered
      · rw [if_neg hsheltered]
        exact if_neg hsheltered
    rw [turnBound, hpolicy', hslots, Nat.add_mul _ (ite _ _ _), ← hpolicy'] at hturns
    omega
  refine ⟨hserved, ?_, ?_⟩
  · -- Boosted tasks that keep coming would otherwise be served before it for ever.
    rintro ⟨turns, hwithin⟩
    by_contra hsheltered
    rw [← hpolicy'] at hsheltered
    exact ReadyQueue.not_servedWithin hvalid' hmem hsheltered now turns hwithin
  · intro hsheltered
    have hranked : boost = true ∨ policy.agingThresholdMs ≠ .nan :=
      QueueEntry.Sheltered.ranked (x := QueueEntry.mk task r.queue.nextOrder now boost) hsheltered
    refine ⟨turnBound policy s'.entries 0, ?_⟩
    intro calls hforward hremove hturns
    apply hserved hranked calls hforward hremove
    rwa [if_pos hsheltered]

/-! ## A root that starves -/

/-- The slots of one turn under the default weights. -/
def standardSchedule : List ℕ := [3, 3, 3, 3, 2, 2, 1]

/-- A new queue of the default policy. -/
def standardQueue : ReadyQueue where
  policy := .standard
  schedule := standardSchedule

/-- The default weights, without aging. -/
def ReadyQueuePolicy.ageless : ReadyQueuePolicy :=
  { ReadyQueuePolicy.standard with agingThresholdMs := .posInfinity }

/-- A new queue without aging. -/
def agelessQueue : ReadyQueue where
  policy := .ageless
  schedule := standardSchedule

/-- A root task. -/
def rootTask : QueueTask := { id := "root", depth := 1 }

/-- The queue in which only the root task waits. -/
def rootQueue : ReadyQueue := standardQueue.after (.enqueue 0 rootTask false)

/-- A new queue is a run. -/
theorem reachable_standardQueue : (queueSystem .standard).Reachable ⟨standardQueue, 0⟩ := by
  apply TransitionSystem.Reachable.of_init
  show ReadyQueue.create .standard = .ok standardQueue
  rfl

/-- A new queue without aging is a run. -/
theorem reachable_agelessQueue : (queueSystem .ageless).Reachable ⟨agelessQueue, 0⟩ := by
  apply TransitionSystem.Reachable.of_init
  show ReadyQueue.create .ageless = .ok agelessQueue
  rfl

/-- The root task is enqueued. -/
theorem enqueue_rootTask : standardQueue.enqueue 0 rootTask false = .ok rootQueue := by
  rfl

/-- No function of the policy and of the entries that wait bounds the turns after which a task is
served. -/
theorem starves_rootTask :
    ¬ ∃ bound : ReadyQueuePolicy → List QueueEntry → ℕ,
      ∀ policy r now task boost s', (queueSystem policy).Reachable r → r.clock ≤ now →
        r.queue.enqueue now task boost = .ok s' →
          s'.ServedWithin ⟨task, r.queue.nextOrder, now, boost⟩ now (bound policy s'.entries) := by
  rintro ⟨bound, hbound⟩
  have hwithin := hbound .standard ⟨standardQueue, 0⟩ 0 rootTask false rootQueue
    reachable_standardQueue (le_refl _) enqueue_rootTask
  have hvalid := (queue_valid_of_reachable reachable_standardQueue).1.enqueue enqueue_rootTask
  exact ReadyQueue.not_servedWithin hvalid (List.mem_singleton.mpr rfl) (by decide) 0 _ hwithin

/-- If nothing is enqueued, the root task is served within as many turns as four rounds have. No number
of turns is enough in general, and some number is in a queue without aging. -/
theorem served_rootTask :
    rootTask ∈ rootQueue.servedAll (List.replicate 28 (.dequeue 0)) ∧
      (¬ ∃ turns, rootQueue.ServedWithin ⟨rootTask, 0, 0, false⟩ 0 turns) ∧
      ∃ turns, (agelessQueue.after (.enqueue 0 rootTask false)).ServedWithin
        ⟨rootTask, 0, 0, false⟩ 0 turns := by
  obtain ⟨hserved, hwithin⟩ := served_within_turnBound reachable_standardQueue enqueue_rootTask
  have hageless : agelessQueue.enqueue 0 rootTask false =
      .ok (agelessQueue.after (.enqueue 0 rootTask false)) := rfl
  obtain ⟨-, hsheltered⟩ := served_within_turnBound reachable_agelessQueue hageless
  refine ⟨hserved (by decide) _ ?_ ?_ ?_, ?_, hsheltered.mpr (by decide)⟩
  · simp [List.replicate, Forward, QueueCall.time?]
  · decide
  · decide +kernel
  · intro hturns
    exact absurd (hwithin.mp hturns) (by decide)

end OsAgent.Scheduler
