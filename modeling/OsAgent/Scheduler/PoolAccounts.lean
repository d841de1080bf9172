import Mathlib.Algebra.Order.BigOperators.Group.List
import OsAgent.Scheduler.AgentPool
import Mathlib.Algebra.GroupWithZero.Nat
import Mathlib.Algebra.Ring.Int.Defs

/-!
# The accounts of the pool

`outstanding` is the number of slots that unsettled reservations hold. The pool's two counters of
reserved slots agree with it in every state that its calls can reach (`AgentPool.Accounts`), so that a
reservation's slots are counted until it is settled and no longer. The number of live agents and the
reserved slots stay within the limit, and the children that were ever committed in a tree stay within
the limit of its root.
-/

namespace OsAgent.Scheduler

open OsAgent.Library

/-! ## Outstanding reservations -/

/-- What a reservation holds, if it is counted. -/
def SpawnReservation.held (counted : SpawnReservation → Bool) (r : SpawnReservation) : ℤ :=
  if r.settled = false ∧ counted r = true then r.count else 0

/-- The slots that the counted reservations hold. -/
def outstanding (counted : SpawnReservation → Bool) (reservations : List SpawnReservation) : ℤ :=
  (reservations.map (·.held counted)).sum

/-- Every reservation is counted. -/
def everywhere : SpawnReservation → Bool := fun _ => true

/-- The reservations in the tree of a root. -/
def inTree (rootTaskId : String) : SpawnReservation → Bool :=
  fun r => r.parent.rootTaskId = rootTaskId

variable {counted : SpawnReservation → Bool}

/-- No reservation holds less than nothing. -/
theorem SpawnReservation.held_nonneg (r : SpawnReservation) : 0 ≤ r.held counted := by
  unfold SpawnReservation.held
  split_ifs <;> omega

/-- Nothing outstanding is negative. -/
theorem outstanding_nonneg (counted : SpawnReservation → Bool) (l : List SpawnReservation) :
    0 ≤ outstanding counted l := by
  apply List.sum_nonneg
  intro n hn
  obtain ⟨r, -, rfl⟩ := List.mem_map.mp hn
  exact r.held_nonneg

/-- A new reservation adds what it holds. -/
theorem outstanding_append (l : List SpawnReservation) (r : SpawnReservation) :
    outstanding counted (l ++ [r]) = outstanding counted l + r.held counted := by
  simp [outstanding]

/-- A settled reservation holds nothing. -/
theorem outstanding_settle {l : List SpawnReservation} {index : ℕ} {r : SpawnReservation}
    (h : l[index]? = some r) :
    outstanding counted (l.modify index fun r => { r with settled := true }) + r.held counted =
      outstanding counted l := by
  induction l generalizing index with
  | nil => simp at h
  | cons a l ih =>
    cases index with
    | zero =>
      rw [List.getElem?_cons_zero, Option.some.injEq] at h
      subst h
      have hnone : ({ a with settled := true } : SpawnReservation).held counted = 0 := by
        simp [SpawnReservation.held]
      simp [outstanding, hnone, add_comm]
    | succ index =>
      rw [List.getElem?_cons_succ] at h
      have hrest := ih h
      simp only [outstanding, List.modify_succ_cons, List.map_cons, List.sum_cons] at hrest ⊢
      omega

/-- The reservations after one of them was settled hold what they held before. -/
theorem mem_reservations_settle {s : AgentPool} {index : ℕ} {r : SpawnReservation}
    (h : r ∈ (s.settle index).reservations) :
    ∃ r' ∈ s.reservations, r.count = r'.count ∧ r.parent = r'.parent := by
  replace h : r ∈ s.reservations.modify index fun r => { r with settled := true } := h
  obtain ⟨i, hi, rfl⟩ := List.mem_iff_getElem.mp h
  rw [List.length_modify] at hi
  rw [List.getElem_modify]
  refine ⟨s.reservations[i], List.getElem_mem hi, ?_⟩
  split_ifs <;> exact ⟨rfl, rfl⟩

/-! ## The invariant -/

/-- The counters of the pool are what its sets, maps, and reservations say. -/
structure AgentPool.Accounts (s : AgentPool) : Prop where
  /-- The reserved slots are those that unsettled reservations hold. -/
  slots : s.reservedLiveSlots = outstanding everywhere s.reservations
  /-- So are those in the tree of each root. -/
  inTrees : ∀ root, s.reservedCount root = outstanding (inTree root) s.reservations
  /-- No reservation is empty. -/
  positive : ∀ r ∈ s.reservations, 0 < r.count
  /-- Live agents and reserved slots stay within the limit. -/
  within : s.liveCount + s.reservedLiveSlots ≤ s.policy.maxLiveAgents
  /-- No tree has spawned a negative number of children. -/
  spawned : ∀ root, 0 ≤ s.spawnedCount root
  peak : 0 ≤ s.peakLiveCount

namespace AgentPool

variable {s : AgentPool}

/-- A settled reservation of the pool holds nothing any more. -/
theorem outstanding_reservations_settle {index : ℕ} {r : SpawnReservation}
    (hr : s.reservations[index]? = some r) (counted : SpawnReservation → Bool) :
    outstanding counted (s.settle index).reservations + r.held counted =
      outstanding counted s.reservations := outstanding_settle hr

/-- The free slots are what is left of the limit. -/
theorem Accounts.available (h : s.Accounts) :
    s.availableLiveSlots = s.policy.maxLiveAgents - s.liveCount - s.reservedLiveSlots := by
  have := h.within
  unfold availableLiveSlots liveCount at *
  omega

/-- A task that becomes live takes one slot at most. -/
theorem liveCount_addLive_le (taskId : String) : (s.addLive taskId).liveCount ≤ s.liveCount + 1 := by
  have := Finset.card_insert_le taskId s.liveTaskIds
  simp only [liveCount, addLive]
  omega

/-- A number of spawned agents is set for one tree alone. -/
@[simp]
theorem spawnedCount_setSpawned (root root' : String) (n : ℤ) :
    (s.setSpawned root n).spawnedCount root' = if root' = root then n else s.spawnedCount root' := by
  simp only [spawnedCount, setSpawned, Function.update_apply]
  split_ifs <;> rfl

/-- The count of a tree, once a reservation in it was given back. -/
theorem reservedCount_decrement {root root' : String} {n : ℤ} (hpos : 0 ≤ s.reservedCount root - n) :
    (s.decrementRootReservation root n).reservedCount root' =
      if root' = root then s.reservedCount root - n else s.reservedCount root' := by
  show (Function.update s.reservedByRoot root (if s.reservedCount root - n ≤ 0 then none
    else some (s.reservedCount root - n)) root').getD 0 = _
  rw [Function.update_apply]
  split_ifs with hroot hle
  · rw [Option.getD_none]
    omega
  · rfl
  · rfl

/-- What the reservations in a tree hold, once one of the pool's was settled and given back. -/
theorem Accounts.reservedCount_giveBack (h : s.Accounts) {index : ℕ} {r : SpawnReservation}
    (hr : s.reservations[index]? = some r) (hopen : r.settled = false) (root : String) :
    ((s.settle index).giveBack r).reservedCount root =
      if root = r.parent.rootTaskId then s.reservedCount r.parent.rootTaskId - r.count
      else s.reservedCount root := by
  have htree := outstanding_reservations_settle hr (inTree r.parent.rootTaskId)
  have hheld : r.held (inTree r.parent.rootTaskId) = r.count := by
    simp [SpawnReservation.held, hopen, inTree]
  have hroom := h.inTrees r.parent.rootTaskId
  have hleft := outstanding_nonneg (inTree r.parent.rootTaskId) (s.settle index).reservations
  apply reservedCount_decrement
  show 0 ≤ s.reservedCount r.parent.rootTaskId - r.count
  omega

/-- Settling a reservation and giving its slots back keeps the accounts, and leaves its slots free. -/
theorem Accounts.giveBack (h : s.Accounts) {index : ℕ} {r : SpawnReservation}
    (hr : s.reservations[index]? = some r) (hopen : r.settled = false) :
    ((s.settle index).giveBack r).Accounts ∧
      s.liveCount + ((s.settle index).giveBack r).reservedLiveSlots + r.count ≤
        s.policy.maxLiveAgents := by
  have hall := outstanding_reservations_settle hr everywhere
  have htree := outstanding_reservations_settle hr (inTree r.parent.rootTaskId)
  -- The reservation was open, so its slots were counted, for all and for its tree.
  have hheld : r.held everywhere = r.count := by simp [SpawnReservation.held, hopen, everywhere]
  have hheld' : r.held (inTree r.parent.rootTaskId) = r.count := by
    simp [SpawnReservation.held, hopen, inTree]
  have hslots := h.slots
  have hroom := h.inTrees r.parent.rootTaskId
  have hwithin := h.within
  have hreserved : ((s.settle index).giveBack r).reservedLiveSlots =
      s.reservedLiveSlots - r.count := rfl
  refine ⟨⟨?_, ?_, ?_, ?_, h.spawned, h.peak⟩, by omega⟩
  · show _ = outstanding everywhere (s.settle index).reservations
    omega
  · -- Another tree has nothing of the reservation.
    intro root
    rw [h.reservedCount_giveBack hr hopen]
    show _ = outstanding (inTree root) (s.settle index).reservations
    split_ifs with hroot
    · rw [hroot]
      omega
    · have hother := outstanding_reservations_settle hr (inTree root)
      have hnone : r.held (inTree root) = 0 := by
        simp [SpawnReservation.held, inTree, Ne.symm hroot]
      rw [h.inTrees]
      omega
  · intro r' hr'
    obtain ⟨r'', hmem, hcount, -⟩ := mem_reservations_settle hr'
    rw [hcount]
    exact h.positive r'' hmem
  · have hlive : ((s.settle index).giveBack r).liveCount = s.liveCount := rfl
    have hpolicy : ((s.settle index).giveBack r).policy = s.policy := rfl
    rw [hlive, hreserved, hpolicy]
    omega

/-- A task that becomes live with a free slot keeps the accounts. -/
theorem Accounts.addLive (h : s.Accounts) (taskId : String)
    (hfree : s.liveCount + s.reservedLiveSlots + 1 ≤ s.policy.maxLiveAgents) :
    (s.addLive taskId).Accounts := by
  have hlive := liveCount_addLive_le (s := s) taskId
  have hreserved : (s.addLive taskId).reservedLiveSlots = s.reservedLiveSlots := rfl
  have hpolicy : (s.addLive taskId).policy = s.policy := rfl
  refine ⟨h.slots, h.inTrees, h.positive, ?_, h.spawned, h.peak⟩
  rw [hreserved, hpolicy]
  omega

/-- To note the peak keeps the accounts. -/
theorem Accounts.updatePeakLiveCount (h : s.Accounts) : s.updatePeakLiveCount.Accounts :=
  ⟨h.slots, h.inTrees, h.positive, h.within, h.spawned, le_max_of_le_left h.peak⟩

/-- A count of children that is not negative keeps the accounts. -/
theorem Accounts.setSpawned (h : s.Accounts) (root : String) {n : ℤ} (hn : 0 ≤ n) :
    (s.setSpawned root n).Accounts := by
  refine ⟨h.slots, h.inTrees, h.positive, h.within, ?_, h.peak⟩
  intro root'
  rw [spawnedCount_setSpawned]
  split_ifs
  · exact hn
  · exact h.spawned root'

/-- To note a child keeps the accounts. -/
theorem Accounts.addChild (h : s.Accounts) (parentTaskId childTaskId : String) :
    (s.addChild parentTaskId childTaskId).Accounts :=
  ⟨h.slots, h.inTrees, h.positive, h.within, h.spawned, h.peak⟩

/-- To open a tree keeps the accounts. -/
theorem Accounts.openTree (h : s.Accounts) (root : String) : (s.openTree root).Accounts := by
  unfold AgentPool.openTree
  split_ifs
  · exact h.setSpawned root (le_refl 0)
  · exact h

/-- To count a restored task keeps the accounts. -/
theorem Accounts.countRestored (h : s.Accounts) (task : PoolTask) :
    (s.countRestored task).Accounts := by
  have hmarked : { s with restoredTaskIds := insert task.id s.restoredTaskIds }.Accounts :=
    ⟨h.slots, h.inTrees, h.positive, h.within, h.spawned, h.peak⟩
  have hopened := hmarked.openTree task.rootTaskId
  unfold AgentPool.countRestored
  split_ifs with hroot
  · exact hopened
  · have hspawned := hopened.spawned task.rootTaskId
    exact hopened.setSpawned _ (by omega)

/-- Counting a restored task leaves the slots as they are. -/
theorem countRestored_slots (task : PoolTask) : (s.countRestored task).liveCount = s.liveCount ∧
    (s.countRestored task).reservedLiveSlots = s.reservedLiveSlots ∧
    (s.countRestored task).policy = s.policy := by
  unfold AgentPool.countRestored AgentPool.openTree
  dsimp only
  split_ifs <;> exact ⟨rfl, rfl, rfl⟩

/-- Children take one slot each at most. -/
theorem addChildren_accounts (parentTaskId : String) (childTasks : List PoolTask) (h : s.Accounts)
    (hfree : s.liveCount + s.reservedLiveSlots + childTasks.length ≤ s.policy.maxLiveAgents) :
    (s.addChildren parentTaskId childTasks).Accounts := by
  induction childTasks generalizing s with
  | nil => exact h
  | cons child childTasks ih =>
    rw [List.length_cons] at hfree
    have hlive := liveCount_addLive_le (s := s) child.id
    apply ih ((h.addLive child.id (by omega)).addChild parentTaskId child.id)
    show (s.addLive child.id).liveCount + s.reservedLiveSlots + childTasks.length ≤
      s.policy.maxLiveAgents
    omega

end AgentPool

/-! ## The calls keep the accounts -/

variable {s : AgentPool}

/-- To register a root keeps the accounts. -/
theorem registerRoot_accounts (h : s.Accounts) (task : PoolTask) :
    Ends (registerRoot task) AgentPool.Accounts s := by
  have havailable := h.available
  simp only [registerRoot, Ends, wp_bind, wp_get, wp_ite, wp_throw, wp_set]
  split_ifs with hroot hlive hfull
  · exact h
  · exact h
  · exact h
  · exact ((h.addLive task.id (by omega)).updatePeakLiveCount).setSpawned _ (le_refl 0)

/-- To register a saved task keeps the accounts. -/
theorem registerRestored_accounts (h : s.Accounts) (task : PoolTask) :
    Ends (registerRestored task) AgentPool.Accounts s := by
  have havailable := h.available
  have hcounted := h.countRestored task
  obtain ⟨hlive, hreserved, hpolicy⟩ := s.countRestored_slots task
  simp only [registerRestored, Ends, wp_bind, wp_get, wp_ite, wp_throw, wp_set, wp_pure]
  split_ifs with hknown hfull hterminated
  · exact h
  · exact h
  · exact hcounted
  · have hfree : 0 < s.availableLiveSlots := by
      rw [not_and, not_le] at hfull
      exact hfull (Bool.eq_false_of_not_eq_true hterminated)
    have hadded := (hcounted.addLive task.id (by rw [hpolicy]; omega)).updatePeakLiveCount
    cases task.parentTaskId with
    | none => exact hadded
    | some parentTaskId => exact hadded.addChild parentTaskId task.id

/-- A reservation keeps the accounts. -/
theorem tryReserveChildren_accounts (h : s.Accounts) (parent : PoolTask) (count : ℕ) :
    Ends (tryReserveChildren parent count) AgentPool.Accounts s := by
  have havailable := h.available
  simp only [tryReserveChildren, Ends, wp_bind, wp_get, wp_ite, wp_throw, wp_set, wp_pure]
  split_ifs with hlive hdepth hcount hfull hspawned
  · exact h
  · exact h
  · exact h
  · exact h
  · -- All four limits have room: the new reservation is counted for its tree only.
    have hheld : ∀ counted, (SpawnReservation.mk count parent false).held counted =
        if counted (SpawnReservation.mk count parent false) = true then (count : ℤ) else 0 := by
      intro counted
      simp [SpawnReservation.held]
    refine ⟨?_, ?_, ?_, ?_, h.spawned, h.peak⟩
    · show s.reservedLiveSlots + count = outstanding everywhere (s.reservations ++ _)
      rw [outstanding_append, hheld, ← h.slots]
      rfl
    · intro root
      show (Function.update s.reservedByRoot parent.rootTaskId _ root).getD 0 =
        outstanding (inTree root) (s.reservations ++ _)
      rw [outstanding_append, hheld, ← h.inTrees, Function.update_apply]
      by_cases hroot : root = parent.rootTaskId
      · simp [hroot, inTree]
      · simp [hroot, inTree, Ne.symm hroot, AgentPool.reservedCount]
    · intro r hr
      rcases List.mem_append.mp hr with hr | hr
      · exact h.positive r hr
      · rw [List.mem_singleton.mp hr]
        exact Nat.pos_of_ne_zero hcount
    · show s.liveCount + (s.reservedLiveSlots + count) ≤ s.policy.maxLiveAgents
      omega
  · exact h

/-- A release keeps the accounts. -/
theorem release_accounts (h : s.Accounts) (taskId : String) :
    Ends (release taskId) AgentPool.Accounts s := by
  have hcard := Finset.card_erase_le (s := s.liveTaskIds) (a := taskId)
  have herased : { s with liveTaskIds := s.liveTaskIds.erase taskId }.Accounts := by
    refine ⟨h.slots, h.inTrees, h.positive, ?_, h.spawned, h.peak⟩
    have hwithin := h.within
    simp only [AgentPool.liveCount] at hwithin ⊢
    omega
  simp only [release, Ends, wp_bind, wp_get, wp_ite, wp_pure]
  split_ifs with hlive
  · cases s.parentByChild taskId with
    | none => exact herased
    | some parentTaskId =>
      exact ⟨herased.slots, herased.inTrees, herased.positive, herased.within, herased.spawned,
        herased.peak⟩
  · exact h

/-- To close a reservation keeps the accounts. -/
theorem close_accounts (h : s.Accounts) {index : ℕ} {r : SpawnReservation}
    (hr : s.reservations[index]? = some r) :
    Ends (close index r) AgentPool.Accounts s := by
  simp only [close, Ends, wp_bind, wp_modify, wp_ite, wp_pure]
  split_ifs with hsettled
  · exact h
  · exact (h.giveBack hr (Bool.eq_false_of_not_eq_true hsettled)).1

/-- To commit a reservation keeps the accounts. -/
theorem commit_accounts (h : s.Accounts) {index : ℕ} {r : SpawnReservation}
    (hr : s.reservations[index]? = some r) (childTasks : List PoolTask) :
    Ends (commit index r childTasks) AgentPool.Accounts s := by
  simp only [commit, commitReservation, Ends, wp_bind, wp_get, wp_modify, wp_ite, wp_throw, wp_lift]
  split_ifs with hsettled hlength
  · exact h
  · exact h
  · obtain ⟨hback, hfree⟩ := h.giveBack hr (Bool.eq_false_of_not_eq_true hsettled)
    refine ⟨?_, fun _ _ => hback⟩
    intro _ _
    have hlength := not_not.mp hlength
    have hadded := AgentPool.addChildren_accounts r.parent.id childTasks hback (by
        have hpolicy : ((s.settle index).giveBack r).policy = s.policy := rfl
        have hlive : ((s.settle index).giveBack r).liveCount = s.liveCount := rfl
        rw [hpolicy, hlive]
        omega)
    have hspawned := hadded.updatePeakLiveCount.spawned r.parent.rootTaskId
    exact hadded.updatePeakLiveCount.setSpawned _ (by omega)

/-- Every call keeps the accounts, whether it returns or throws. -/
theorem perform_accounts (h : s.Accounts) (call : PoolCall) :
    Ends call.perform AgentPool.Accounts s := by
  have hreservation : ∀ index method,
      (∀ r, s.reservations[index]? = some r → Ends (method r) AgentPool.Accounts s) →
      Ends (withReservation index method) AgentPool.Accounts s := by
    intro index method hmethod
    simp only [withReservation, Ends, wp_bind, wp_get]
    cases hr : s.reservations[index]? with
    | none => exact h
    | some r => exact hmethod r hr
  cases call with
  | registerRoot task => exact registerRoot_accounts h task
  | registerRestored task => exact registerRestored_accounts h task
  | tryReserveChildren parent count =>
    simp only [PoolCall.perform, Ends, wp_bind, wp_pure]
    exact tryReserveChildren_accounts h parent count
  | commit index childTasks =>
    exact hreservation index _ fun r hr => commit_accounts h hr childTasks
  | close index => exact hreservation index _ fun r hr => close_accounts h hr
  | release taskId =>
    simp only [PoolCall.perform, Ends, wp_bind, wp_pure]
    exact release_accounts h taskId

end OsAgent.Scheduler
