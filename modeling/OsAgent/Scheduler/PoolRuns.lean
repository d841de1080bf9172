import OsAgent.Scheduler.PoolAccounts

/-!
# Runs of the pool

What one call can do to the reservations (`PoolEvent.Effect`), to the lists of children, and to the
number of children in a tree, and what follows for every run. `accounted_of_reachable` puts together
what holds after any sequence of calls.
-/

namespace OsAgent.Scheduler

open OsAgent.Library

variable {policy : AgentPoolPolicy} {s : AgentPool}

/-- What holds however a call ends holds after its event. -/
theorem event_after {call : PoolCall} {P : AgentPool → Prop} (h : Ends call.perform P s) :
    P (call.event s).after := by
  unfold PoolCall.event
  unfold Ends wp at h
  cases hrun : call.perform s <;> rw [hrun] at h <;> exact h

/-- What holds of a call that returns, and of a call that throws, holds of its event. -/
theorem event_of_wp {call : PoolCall} {P : PoolEvent → Prop}
    (h : wp call.perform (fun _ s' => P ⟨call, true, s, s'⟩) (fun _ s' => P ⟨call, false, s, s'⟩) s) :
    P (call.event s) := by
  unfold PoolCall.event
  unfold wp at h
  cases hrun : call.perform s <;> rw [hrun] at h <;> exact h

/-- The event of a call is of that call. -/
@[simp]
theorem event_call (call : PoolCall) (s : AgentPool) : (call.event s).call = call := by
  unfold PoolCall.event
  cases call.perform s <;> rfl

/-- The event of a call starts in the pool before it. -/
@[simp]
theorem event_before (call : PoolCall) (s : AgentPool) : (call.event s).before = s := by
  unfold PoolCall.event
  cases call.perform s <;> rfl

/-! ## Reservations -/

/-- The call is one of the reservation at an index. -/
def PoolCall.settles (index : ℕ) : PoolCall → Bool
  | .commit i _ | .close i => i = index
  | _ => false

/-- The event gave the slots of the reservation at an index back. -/
def PoolEvent.givesBack (index : ℕ) (e : PoolEvent) : Bool :=
  e.call.settles index && e.after.reservedLiveSlots < e.before.reservedLiveSlots

/-- A call is one of a single reservation. -/
theorem settles_iff {call : PoolCall} {i index : ℕ} (h : call.settles i = true) :
    call.settles index = decide (i = index) := by
  cases call <;> simp_all [PoolCall.settles]

/-- What a call can do to the reservations. -/
inductive Effect (s : AgentPool) (call : PoolCall) (s' : AgentPool) : Prop
  /-- Nothing. -/
  | none (reservations : s'.reservations = s.reservations)
      (slots : s'.reservedLiveSlots = s.reservedLiveSlots)
  /-- It makes a new one. -/
  | reserve (r : SpawnReservation) (unsettled : r.settled = false)
      (reservations : s'.reservations = s.reservations ++ [r])
      (slots : s'.reservedLiveSlots = s.reservedLiveSlots + r.count)
  /-- It settles one that was not settled, and gives its slots back. -/
  | giveBack (index : ℕ) (r : SpawnReservation) (settles : call.settles index = true)
      (found : s.reservations[index]? = some r) (unsettled : r.settled = false)
      (reservations : s'.reservations = (s.settle index).reservations)
      (slots : s'.reservedLiveSlots = s.reservedLiveSlots - r.count)

/-- Adding children leaves the reservations alone. -/
theorem addChildren_reservations (s : AgentPool) (parentTaskId : String)
    (childTasks : List PoolTask) :
    (s.addChildren parentTaskId childTasks).reservations = s.reservations ∧
      (s.addChildren parentTaskId childTasks).reservedLiveSlots = s.reservedLiveSlots := by
  induction childTasks generalizing s with
  | nil => exact ⟨rfl, rfl⟩
  | cons child childTasks ih => exact ih ((s.addLive child.id).addChild parentTaskId child.id)

/-- Counting a restored task leaves the reservations alone. -/
theorem countRestored_reservations (s : AgentPool) (task : PoolTask) :
    (s.countRestored task).reservations = s.reservations ∧
      (s.countRestored task).reservedLiveSlots = s.reservedLiveSlots := by
  unfold AgentPool.countRestored AgentPool.openTree
  dsimp only
  split_ifs <;> exact ⟨rfl, rfl⟩

/-- Every call has one of these effects. -/
theorem perform_effect (call : PoolCall) (s : AgentPool) :
    Ends call.perform (Effect s call) s := by
  -- One case per call; a call that is refused changes nothing.
  cases call with
  | registerRoot task =>
    simp only [PoolCall.perform, registerRoot, Ends, wp_bind, wp_get, wp_ite, wp_throw, wp_set]
    split_ifs <;> exact Effect.none rfl rfl
  | registerRestored task =>
    obtain ⟨hreservations, hslots⟩ := countRestored_reservations s task
    simp only [PoolCall.perform, registerRestored, Ends, wp_bind, wp_get, wp_ite, wp_throw, wp_set,
      wp_pure]
    split_ifs with hknown hfull hterminated
    · exact Effect.none rfl rfl
    · exact Effect.none rfl rfl
    · exact Effect.none hreservations hslots
    · cases task.parentTaskId with
      | none => exact Effect.none hreservations hslots
      | some parentTaskId => exact Effect.none hreservations hslots
  | tryReserveChildren parent count =>
    simp only [PoolCall.perform, tryReserveChildren, Ends, wp_bind, wp_get, wp_ite, wp_throw, wp_set,
      wp_pure]
    split_ifs
    · exact Effect.none rfl rfl
    · exact Effect.none rfl rfl
    · exact Effect.none rfl rfl
    · exact Effect.none rfl rfl
    · exact Effect.reserve ⟨count, parent, false⟩ rfl rfl rfl
    · exact Effect.none rfl rfl
  | commit index childTasks =>
    simp only [PoolCall.perform, withReservation, Ends, wp_bind, wp_get]
    cases hr : s.reservations[index]? with
    | none => exact Effect.none rfl rfl
    | some r =>
      simp only [commit, commitReservation, wp_bind, wp_get, wp_modify, wp_ite, wp_throw, wp_lift]
      split_ifs with hsettled hlength
      · exact Effect.none rfl rfl
      · exact Effect.none rfl rfl
      · -- The reservation is given back first, whether or not the children are then added.
        have hopen := Bool.eq_false_of_not_eq_true hsettled
        obtain ⟨hreservations, hslots⟩ := addChildren_reservations ((s.settle index).giveBack r)
          r.parent.id childTasks
        refine ⟨?_, ?_⟩
        · intro _ _
          exact Effect.giveBack index r (by simp [PoolCall.settles]) hr hopen hreservations hslots
        · intro _ _
          exact Effect.giveBack index r (by simp [PoolCall.settles]) hr hopen rfl rfl
  | close index =>
    simp only [PoolCall.perform, withReservation, Ends, wp_bind, wp_get]
    cases hr : s.reservations[index]? with
    | none => exact Effect.none rfl rfl
    | some r =>
      simp only [close, wp_bind, wp_modify, wp_ite, wp_pure]
      -- A settled reservation is not given back again.
      split_ifs with hsettled
      · exact Effect.none rfl rfl
      · exact Effect.giveBack index r (by simp [PoolCall.settles]) hr
          (Bool.eq_false_of_not_eq_true hsettled) rfl rfl
  | release taskId =>
    simp only [PoolCall.perform, release, Ends, wp_bind, wp_get, wp_ite, wp_pure]
    split_ifs with hlive
    · cases s.parentByChild taskId with
      | none => exact Effect.none rfl rfl
      | some parentTaskId => exact Effect.none rfl rfl
    · exact Effect.none rfl rfl

/-- Closing a reservation that is not settled gives its slots back. -/
theorem close_run {index : ℕ} {r : SpawnReservation} (hr : s.reservations[index]? = some r)
    (hopen : r.settled = false) :
    (PoolCall.close index).perform s = .ok () ((s.settle index).giveBack r) := by
  apply eq_of_wp
  simp only [PoolCall.perform, withReservation, wp_bind, wp_get, hr, close, wp_modify, wp_ite,
    wp_pure]
  rw [if_neg (by simp [hopen])]
  trivial

/-- A commit that throws changes nothing, or gives the slots back as closing does. -/
theorem commit_throws {index : ℕ} {childTasks : List PoolTask} {e : String} {s' : AgentPool}
    (h : (PoolCall.commit index childTasks).perform s = .error e s') :
    s' = s ∨ (PoolCall.close index).perform s = .ok () s' := by
  have hrun : wp (PoolCall.commit index childTasks).perform (fun _ _ => True)
      (fun _ s' => s' = s ∨ (PoolCall.close index).perform s = .ok () s') s := by
    simp only [PoolCall.perform, withReservation, wp_bind, wp_get]
    cases hr : s.reservations[index]? with
    | none => trivial
    | some r =>
      have hclose := close_run hr
      simp only [PoolCall.perform, withReservation] at hclose
      simp only [commit, commitReservation, wp_bind, wp_get, wp_modify, wp_ite, wp_throw, wp_lift]
      split_ifs with hsettled hlength
      · exact Or.inl trivial
      · exact Or.inl trivial
      · exact ⟨fun _ _ => trivial,
          fun _ _ => Or.inr (hclose (Bool.eq_false_of_not_eq_true hsettled))⟩
  exact wp_error (E := fun _ s' => s' = s ∨ (PoolCall.close index).perform s = .ok () s') hrun h

/-! ## Lists of children -/

/-- The tasks of a call have the lineage that their ids name. -/
def PoolCall.Named (lineage : String → Lineage) : PoolCall → Prop
  | .registerRoot task | .registerRestored task | .tryReserveChildren task _ =>
    task.toLineage = lineage task.id
  | .commit _ childTasks => ∀ child ∈ childTasks, child.toLineage = lineage child.id
  | .close _ | .release _ => True

/-- The lists of children and the map to the parents agree, on live tasks only. -/
structure AgentPool.Listed (lineage : String → Lineage) (s : AgentPool) : Prop where
  agree : ∀ parent child, child ∈ s.childrenOf parent ↔ s.parentByChild child = some parent
  live : ∀ parent child, s.parentByChild child = some parent → child ∈ s.liveTaskIds
  named : ∀ parent child, s.parentByChild child = some parent →
    (lineage child).parentTaskId = some parent

/-- An identifier is in a set after it was added to it. -/
theorem mem_addTo {ids : List String} {id id' : String} : id' ∈ addTo ids id ↔ id' = id ∨ id' ∈ ids := by
  unfold addTo
  split_ifs with h
  · constructor
    · exact Or.inr
    · rintro (rfl | h')
      · exact h
      · exact h'
  · simp [or_comm]

namespace AgentPool

variable {lineage : String → Lineage}

/-- A live task that names its parent is listed there. -/
theorem Listed.addChild (h : s.Listed lineage) {parent child : String}
    (hlive : child ∈ s.liveTaskIds) (hparent : (lineage child).parentTaskId = some parent) :
    (s.addChild parent child).Listed lineage := by
  refine ⟨?_, ?_, ?_⟩
  · -- A task other than the parent lists what it listed, and the child names its parent.
    intro p c
    have hold := h.agree p c
    have hname := h.named p c
    simp only [childrenOf] at hold
    simp only [childrenOf, AgentPool.addChild, Function.update_apply]
    by_cases hp : p = parent
    · rw [if_pos hp, mem_addTo, ← hp]
      by_cases hc : c = child
      · simp [hc]
      · simp [hc, hold]
    · rw [if_neg hp, hold]
      by_cases hc : c = child
      · rw [if_pos hc]
        constructor
        · intro hmapped
          have hnamed := hname hmapped
          rw [hc, hparent] at hnamed
          exact absurd (Option.some.inj hnamed).symm hp
        · intro hmapped
          exact absurd (Option.some.inj hmapped).symm hp
      · rw [if_neg hc]
  · intro p c hc
    simp only [AgentPool.addChild, Function.update_apply] at hc ⊢
    split_ifs at hc with hchild
    · rw [hchild]
      exact hlive
    · exact h.live p c hc
  · intro p c hc
    simp only [AgentPool.addChild, Function.update_apply] at hc
    split_ifs at hc with hchild
    · rw [hchild, hparent]
      exact hc
    · exact h.named p c hc

/-- A task that becomes live changes no list. -/
theorem Listed.addLive (h : s.Listed lineage) (taskId : String) :
    (s.addLive taskId).Listed lineage :=
  ⟨h.agree, fun p c hc => Finset.mem_insert_of_mem (h.live p c hc), h.named⟩

/-- What keeps the lists, the map, and the live tasks keeps their agreement. -/
theorem Listed.congr {s' : AgentPool} (h : s.Listed lineage)
    (hchildren : s'.childrenByParent = s.childrenByParent) (hparent : s'.parentByChild = s.parentByChild)
    (hlive : s'.liveTaskIds = s.liveTaskIds) : s'.Listed lineage := by
  refine ⟨?_, ?_, ?_⟩
  · intro p c
    rw [childrenOf, hchildren, hparent]
    exact h.agree p c
  · rw [hparent, hlive]
    exact h.live
  · rw [hparent]
    exact h.named

/-- Children of the reserved lineage are listed under their parent. -/
theorem Listed.addChildren {parentTaskId : String} {childTasks : List PoolTask}
    (h : s.Listed lineage)
    (hparent : ∀ child ∈ childTasks, (lineage child.id).parentTaskId = some parentTaskId) :
    (s.addChildren parentTaskId childTasks).Listed lineage := by
  induction childTasks generalizing s with
  | nil => exact h
  | cons child childTasks ih =>
    apply ih
    · exact (h.addLive child.id).addChild (Finset.mem_insert_self _ _)
        (hparent child List.mem_cons_self)
    · intro c hc
      exact hparent c (List.mem_cons_of_mem _ hc)

/-- A released task is listed nowhere. -/
theorem Listed.release (h : s.Listed lineage) (taskId : String) :
    Ends (Scheduler.release taskId) (Listed lineage) s := by
  simp only [Scheduler.release, Ends, wp_bind, wp_get, wp_ite, wp_pure]
  split_ifs with hlive
  · -- A child is taken from the list of its parent; a root is in no list.
    cases hmapped : s.parentByChild taskId with
    | none =>
      refine ⟨h.agree, ?_, h.named⟩
      intro p c hc
      refine Finset.mem_erase.mpr ⟨?_, h.live p c hc⟩
      rintro rfl
      rw [hmapped] at hc
      cases hc
    | some parentTaskId =>
      refine ⟨?_, ?_, ?_⟩
      · intro p c
        have hold := h.agree p c
        have htask := h.agree p taskId
        simp only [childrenOf] at hold htask
        show c ∈ Function.update s.childrenByParent parentTaskId
          ((s.childrenByParent parentTaskId).filter (· ≠ taskId)) p ↔
          Function.update s.parentByChild taskId none c = some p
        rw [Function.update_apply, Function.update_apply]
        -- In the list of its parent only the task itself is gone.
        by_cases hp : p = parentTaskId
        · rw [if_pos hp, ← hp]
          by_cases hc : c = taskId
          · simp [hc]
          · simp [hc, hold]
        · rw [if_neg hp, hold]
          by_cases hc : c = taskId
          · rw [if_pos hc, hc, hmapped]
            simp [Ne.symm hp]
          · rw [if_neg hc]
      · intro p c hc
        replace hc : Function.update s.parentByChild taskId none c = some p := hc
        rw [Function.update_apply] at hc
        split_ifs at hc with htask
        exact Finset.mem_erase.mpr ⟨htask, h.live p c hc⟩
      · intro p c hc
        replace hc : Function.update s.parentByChild taskId none c = some p := hc
        rw [Function.update_apply] at hc
        split_ifs at hc with htask
        exact h.named p c hc
  · exact h

end AgentPool

/-- Counting a restored task leaves the lists alone. -/
theorem countRestored_lists (s : AgentPool) (task : PoolTask) :
    (s.countRestored task).childrenByParent = s.childrenByParent ∧
      (s.countRestored task).parentByChild = s.parentByChild ∧
      (s.countRestored task).liveTaskIds = s.liveTaskIds := by
  unfold AgentPool.countRestored AgentPool.openTree
  dsimp only
  split_ifs <;> exact ⟨rfl, rfl, rfl⟩

/-- What the check of the children passes. -/
theorem checkChildren_eq_ok {parent : PoolTask} {live : Finset String} {childTasks : List PoolTask} :
    checkChildren parent live childTasks = .ok () ↔ (childTasks.map (·.id)).Nodup ∧
      ∀ child ∈ childTasks, (child.parentTaskId = some parent.id ∧
        child.rootTaskId = parent.rootTaskId ∧ child.depth = parent.depth + 1) ∧
        child.id ∉ live := by
  simp only [checkChildren, check_bind_eq_ok, require_eq_ok, forM_eq_ok]

/-- Calls whose tasks have the lineage of their ids keep the lists. -/
theorem perform_listed {lineage : String → Lineage} {call : PoolCall} (h : s.Listed lineage)
    (hnamed : call.Named lineage) : Ends call.perform (AgentPool.Listed lineage) s := by
  -- One case per call; a call that is refused changes nothing.
  cases call with
  | registerRoot task =>
    simp only [PoolCall.perform, registerRoot, Ends, wp_bind, wp_get, wp_ite, wp_throw, wp_set]
    split_ifs
    · exact h
    · exact h
    · exact h
    · exact (h.addLive task.id).congr rfl rfl rfl
  | registerRestored task =>
    obtain ⟨hchildren, hparent, hlive⟩ := countRestored_lists s task
    have hcounted := h.congr hchildren hparent hlive
    simp only [PoolCall.perform, registerRestored, Ends, wp_bind, wp_get, wp_ite, wp_throw, wp_set,
      wp_pure]
    split_ifs with hknown hfull hterminated
    · exact h
    · exact h
    · exact hcounted
    · have hadded : ((s.countRestored task).addLive task.id).updatePeakLiveCount.Listed lineage :=
        (hcounted.addLive task.id).congr rfl rfl rfl
      have hlineage : task.parentTaskId = (lineage task.id).parentTaskId :=
        congrArg Lineage.parentTaskId hnamed
      cases hp : task.parentTaskId with
      | none => exact hadded
      | some parentTaskId =>
        exact hadded.addChild (Finset.mem_insert_self _ _) (hlineage.symm.trans hp)
  | tryReserveChildren parent count =>
    simp only [PoolCall.perform, tryReserveChildren, Ends, wp_bind, wp_get, wp_ite, wp_throw, wp_set,
      wp_pure]
    split_ifs
    · exact h
    · exact h
    · exact h
    · exact h
    · exact h.congr rfl rfl rfl
    · exact h
  | commit index childTasks =>
    simp only [PoolCall.perform, withReservation, Ends, wp_bind, wp_get]
    cases hr : s.reservations[index]? with
    | none => exact h
    | some r =>
      simp only [commit, commitReservation, wp_bind, wp_get, wp_modify, wp_ite, wp_throw, wp_lift]
      have hback : ((s.settle index).giveBack r).Listed lineage := h.congr rfl rfl rfl
      split_ifs with hsettled hlength
      · exact h
      · exact h
      · -- The children are checked to be of the parent's lineage before they are added.
        refine ⟨?_, fun _ _ => hback⟩
        intro _ hcheck
        obtain ⟨-, hchildren⟩ := checkChildren_eq_ok.mp hcheck
        have hadded : (((s.settle index).giveBack r).addChildren r.parent.id childTasks).Listed
            lineage := by
          apply hback.addChildren
          intro child hchild
          rw [← congrArg Lineage.parentTaskId (hnamed child hchild)]
          exact (hchildren child hchild).1.1
        exact hadded.congr rfl rfl rfl
  | close index =>
    simp only [PoolCall.perform, withReservation, Ends, wp_bind, wp_get]
    cases hr : s.reservations[index]? with
    | none => exact h
    | some r =>
      simp only [close, wp_bind, wp_modify, wp_ite, wp_pure]
      split_ifs
      · exact h
      · exact h.congr rfl rfl rfl
  | release taskId =>
    simp only [PoolCall.perform, Ends, wp_bind, wp_pure]
    exact h.release taskId

/-! ## Children of a tree -/

/-- How many children of a tree the event committed. -/
def PoolEvent.committed (root : String) (e : PoolEvent) : ℕ :=
  match e.returned, e.call with
  | true, .commit _ childTasks => childTasks.countP (·.rootTaskId = root)
  | _, _ => 0

/-- How many children of a tree were ever committed. -/
def committed (root : String) (history : List PoolEvent) : ℕ :=
  (history.map (·.committed root)).sum

/-- The event registered a task of a tree. -/
def PoolEvent.registers (root : String) (e : PoolEvent) : Bool :=
  e.returned && match e.call with
    | .registerRoot task | .registerRestored task => task.rootTaskId = root
    | .commit _ childTasks => childTasks.any (·.rootTaskId = root)
    | _ => false

/-- The event registered a root. -/
def PoolEvent.opens (root : String) (e : PoolEvent) : Prop :=
  e.returned = true ∧ ∃ task, e.call = .registerRoot task ∧ task.rootTaskId = root

/-- A root is registered once, and before any other task of its tree. -/
def RegisteredFirst (root : String) (history : List PoolEvent) : Prop :=
  ∀ before e after, history = before ++ e :: after → e.opens root →
    ∀ e' ∈ before, e'.registers root = false

/-- Without a task of the tree, no child of it was committed. -/
theorem committed_eq_zero {root : String} {history : List PoolEvent}
    (h : ∀ e ∈ history, e.registers root = false) : committed root history = 0 := by
  apply List.sum_eq_zero
  intro n hn
  obtain ⟨e, he, rfl⟩ := List.mem_map.mp hn
  have hnone := h e he
  unfold PoolEvent.committed
  split
  · next childTasks hreturned hcall =>
    rw [PoolEvent.registers, hreturned, hcall, Bool.true_and, List.any_eq_false] at hnone
    rw [List.countP_eq_zero]
    exact hnone
  · rfl

/-- What a call that is not a registration of the root does to the counters of its tree, where it
commits `n` children of it. -/
structure Spawns (root : String) (n : ℕ) (s s' : AgentPool) : Prop where
  policy : s'.policy = s.policy
  spawned : s.spawnedCount root + n ≤ s'.spawnedCount root
  reserved : s'.reservedCount root + n ≤ s.reservedCount root ∨
    s'.spawnedCount root + s'.reservedCount root ≤ s.policy.maxSpawnedPerRoot ∧ n = 0

/-- A call that changes neither counter of the tree. -/
theorem Spawns.same {root : String} {s' : AgentPool} (hpolicy : s'.policy = s.policy)
    (hspawned : s'.spawnedCount root = s.spawnedCount root)
    (hreserved : s'.reservedCount root = s.reservedCount root) : Spawns root 0 s s' :=
  ⟨hpolicy, by omega, Or.inl (by omega)⟩

/-- Adding children changes neither counter. -/
theorem addChildren_counters (s : AgentPool) (parentTaskId root : String)
    (childTasks : List PoolTask) :
    (s.addChildren parentTaskId childTasks).policy = s.policy ∧
      (s.addChildren parentTaskId childTasks).spawnedCount root = s.spawnedCount root ∧
      (s.addChildren parentTaskId childTasks).reservedCount root = s.reservedCount root := by
  induction childTasks generalizing s with
  | nil => exact ⟨rfl, rfl, rfl⟩
  | cons child childTasks ih => exact ih ((s.addLive child.id).addChild parentTaskId child.id)

/-- Counting a restored task lowers no count of children. -/
theorem countRestored_counters (s : AgentPool) (task : PoolTask) (root : String) :
    (s.countRestored task).policy = s.policy ∧
      s.spawnedCount root ≤ (s.countRestored task).spawnedCount root ∧
      (s.countRestored task).reservedCount root = s.reservedCount root := by
  have hopened : ∀ s : AgentPool, (s.openTree task.rootTaskId).policy = s.policy ∧
      (s.openTree task.rootTaskId).spawnedCount root = s.spawnedCount root ∧
      (s.openTree task.rootTaskId).reservedCount root = s.reservedCount root := by
    intro s
    unfold AgentPool.openTree
    split_ifs with hnone
    · refine ⟨rfl, ?_, rfl⟩
      rw [AgentPool.spawnedCount_setSpawned]
      split_ifs with hroot
      · rw [hroot, AgentPool.spawnedCount, hnone]
        rfl
      · rfl
    · exact ⟨rfl, rfl, rfl⟩
  obtain ⟨hpolicy, hspawned, hreserved⟩ :=
    hopened { s with restoredTaskIds := insert task.id s.restoredTaskIds }
  unfold AgentPool.countRestored
  dsimp only
  split_ifs
  · exact ⟨hpolicy, hspawned.ge, hreserved⟩
  · refine ⟨hpolicy, ?_, hreserved⟩
    rw [AgentPool.spawnedCount_setSpawned]
    split_ifs with hroot
    · subst hroot
      exact le_trans hspawned.ge (by omega)
    · exact hspawned.ge

/-- Giving slots back commits no child. -/
theorem spawns_giveBack (h : s.Accounts) {index : ℕ} {r : SpawnReservation}
    (hr : s.reservations[index]? = some r) (hopen : r.settled = false) (root : String) :
    Spawns root 0 s ((s.settle index).giveBack r) := by
  have hreserved := h.reservedCount_giveBack hr hopen root
  refine ⟨rfl, ?_, Or.inl ?_⟩
  · show s.spawnedCount root + 0 ≤ s.spawnedCount root
    omega
  · rw [hreserved]
    split_ifs with hroot
    · rw [hroot]
      omega
    · omega

/-- Children of one tree are all in it, or none of them is. -/
theorem countP_root (root : String) {root' : String} {childTasks : List PoolTask}
    (h : ∀ child ∈ childTasks, child.rootTaskId = root') :
    childTasks.countP (·.rootTaskId = root) = if root = root' then childTasks.length else 0 := by
  split_ifs with hroot
  · rw [List.countP_eq_length]
    intro child hchild
    simp [h child hchild, hroot]
  · rw [List.countP_eq_zero]
    intro child hchild
    simp [h child hchild, Ne.symm hroot]

/-- What an event does to the counters of a tree. -/
def PoolEvent.Counts (root : String) (e : PoolEvent) : Prop :=
  (e.opens root ∧ e.committed root = 0 ∧ e.after.policy = e.before.policy ∧
      e.after.spawnedCount root = 0 ∧
      e.after.reservedCount root = e.before.reservedCount root) ∨
    Spawns root (e.committed root) e.before e.after

/-- Every call opens the tree, or keeps what was counted. -/
theorem event_counts (h : s.Accounts) {call : PoolCall} (henabled : call.Enabled s)
    (root : String) : (call.event s).Counts root := by
  apply event_of_wp
  -- One case per call; only a registration opens the tree, only a reservation and a commit count.
  cases call with
  | registerRoot task =>
    simp only [PoolCall.perform, registerRoot, wp_bind, wp_get, wp_ite, wp_throw, wp_set]
    split_ifs
    · exact Or.inr (Spawns.same rfl rfl rfl)
    · exact Or.inr (Spawns.same rfl rfl rfl)
    · exact Or.inr (Spawns.same rfl rfl rfl)
    · by_cases hroot : root = task.rootTaskId
      · left
        refine ⟨⟨rfl, task, rfl, hroot.symm⟩, rfl, rfl, ?_, rfl⟩
        rw [AgentPool.spawnedCount_setSpawned, if_pos hroot]
      · right
        refine Spawns.same rfl ?_ rfl
        rw [AgentPool.spawnedCount_setSpawned, if_neg hroot]
        rfl
  | registerRestored task =>
    obtain ⟨hpolicy, hspawned, hreserved⟩ := countRestored_counters s task root
    have hcounted : Spawns root 0 s (s.countRestored task) :=
      ⟨hpolicy, by omega, Or.inl (by omega)⟩
    simp only [PoolCall.perform, registerRestored, wp_bind, wp_get, wp_ite, wp_throw, wp_set,
      wp_pure]
    split_ifs
    · exact Or.inr (Spawns.same rfl rfl rfl)
    · exact Or.inr (Spawns.same rfl rfl rfl)
    · exact Or.inr hcounted
    · cases task.parentTaskId with
      | none => exact Or.inr ⟨hcounted.policy, hcounted.spawned, hcounted.reserved⟩
      | some parentTaskId =>
        exact Or.inr ⟨hcounted.policy, hcounted.spawned, hcounted.reserved⟩
  | tryReserveChildren parent count =>
    simp only [PoolCall.perform, tryReserveChildren, wp_bind, wp_get, wp_ite, wp_throw, wp_set,
      wp_pure]
    split_ifs with hlive hdepth hcount hfull hspawned
    · exact Or.inr (Spawns.same rfl rfl rfl)
    · exact Or.inr (Spawns.same rfl rfl rfl)
    · exact Or.inr (Spawns.same rfl rfl rfl)
    · exact Or.inr (Spawns.same rfl rfl rfl)
    · right
      -- Only the tree of the parent is counted.
      by_cases hroot : root = parent.rootTaskId
      · refine ⟨rfl, by show s.spawnedCount root + 0 ≤ s.spawnedCount root; omega, Or.inr ⟨?_, rfl⟩⟩
        show s.spawnedCount root + (Function.update s.reservedByRoot parent.rootTaskId
          (some (s.reservedCount parent.rootTaskId + count)) root).getD 0 ≤
            s.policy.maxSpawnedPerRoot
        rw [hroot, Function.update_self, Option.getD_some]
        omega
      · refine Spawns.same rfl rfl ?_
        show (Function.update s.reservedByRoot parent.rootTaskId _ root).getD 0 = _
        rw [Function.update_of_ne hroot]
        rfl
    · exact Or.inr (Spawns.same rfl rfl rfl)
  | commit index childTasks =>
    simp only [PoolCall.perform, withReservation, wp_bind, wp_get]
    cases hr : s.reservations[index]? with
    | none =>
      rw [List.getElem?_eq_none_iff] at hr
      exact absurd henabled (Nat.not_lt.mpr hr)
    | some r =>
      simp only [commit, commitReservation, wp_bind, wp_get, wp_modify, wp_ite, wp_throw, wp_lift]
      split_ifs with hsettled hlength
      · exact Or.inr (Spawns.same rfl rfl rfl)
      · exact Or.inr (Spawns.same rfl rfl rfl)
      · have hopen := Bool.eq_false_of_not_eq_true hsettled
        refine ⟨?_, fun _ _ => Or.inr (spawns_giveBack h hr hopen root)⟩
        intro _ hcheck
        obtain ⟨-, hchildren⟩ := checkChildren_eq_ok.mp hcheck
        obtain ⟨hpolicy, hspawned, hsame⟩ := addChildren_counters
          ((s.settle index).giveBack r) r.parent.id root childTasks
        have hreserved := h.reservedCount_giveBack hr hopen root
        have hn := countP_root root fun child hchild => (hchildren child hchild).1.2.1
        have hcount := not_not.mp hlength
        right
        show Spawns root (childTasks.countP (·.rootTaskId = root)) s _
        rw [hn]
        -- What was reserved in the tree becomes spawned, or the tree is another one.
        by_cases hroot : root = r.parent.rootTaskId
        · subst hroot
          rw [if_pos rfl] at hreserved ⊢
          refine ⟨hpolicy, ?_, Or.inl ?_⟩
          · rw [AgentPool.spawnedCount_setSpawned, if_pos rfl, hcount]
            exact add_le_add_left hspawned.ge _
          · exact (add_le_add_left hsame.le _).trans (by omega)
        · rw [if_neg hroot] at hreserved ⊢
          refine ⟨hpolicy, ?_, Or.inl ?_⟩
          · rw [AgentPool.spawnedCount_setSpawned, if_neg hroot]
            exact (add_zero _).le.trans hspawned.ge
          · exact (add_le_add_left hsame.le _).trans (by omega)
  | close index =>
    simp only [PoolCall.perform, withReservation, wp_bind, wp_get]
    cases hr : s.reservations[index]? with
    | none => exact Or.inr (Spawns.same rfl rfl rfl)
    | some r =>
      simp only [close, wp_bind, wp_modify, wp_ite, wp_pure]
      split_ifs with hsettled
      · exact Or.inr (Spawns.same rfl rfl rfl)
      · exact Or.inr (spawns_giveBack h hr (Bool.eq_false_of_not_eq_true hsettled) root)
  | release taskId =>
    simp only [PoolCall.perform, release, wp_bind, wp_get, wp_ite, wp_pure]
    split_ifs
    · cases s.parentByChild taskId with
      | none => exact Or.inr (Spawns.same rfl rfl rfl)
      | some parentTaskId => exact Or.inr (Spawns.same rfl rfl rfl)
    · exact Or.inr (Spawns.same rfl rfl rfl)

/-! ## Runs -/

/-- Every state of a run keeps the accounts. -/
theorem accounts_of_reachable {run : PoolRun} (h : (poolSystem policy).Reachable run) :
    run.pool.Accounts := by
  refine h.invariant (P := fun run => run.pool.Accounts) ?_ ?_
  · rintro run ⟨hcreate, -⟩
    simp only [AgentPool.create, check_bind_eq_ok, require_eq_ok, pure_eq_ok] at hcreate
    rw [← hcreate.2]
    refine ⟨rfl, fun _ => rfl, by simp, ?_, fun _ => le_refl 0, le_refl 0⟩
    show ((0 : ℕ) : ℤ) + 0 ≤ _
    omega
  · rintro run run' - haccounts ⟨call, -, rfl⟩
    exact event_after (perform_accounts haccounts call)

/-- The policy of a run is the one that it was created with. -/
theorem policy_of_reachable {run : PoolRun} (h : (poolSystem policy).Reachable run) :
    run.pool.policy = policy := by
  refine h.invariant (P := fun run => run.pool.policy = policy) ?_ ?_
  · rintro run ⟨hcreate, -⟩
    simp only [AgentPool.create, check_bind_eq_ok, require_eq_ok, pure_eq_ok] at hcreate
    rw [← hcreate.2]
  · rintro run run' hr hpolicy ⟨call, henabled, rfl⟩
    rcases event_counts (accounts_of_reachable hr) henabled "" with ⟨-, -, hsame, -⟩ | hspawns
    · rw [← hpolicy]
      simpa using hsame
    · rw [← hpolicy]
      simpa using hspawns.policy

/-- How often the slots of a reservation were given back. -/
def timesGivenBack (index : ℕ) (history : List PoolEvent) : ℕ :=
  history.countP (·.givesBack index)

/-- The slots of a reservation were given back once if it is settled, and never otherwise. -/
def GivenBackOnce (run : PoolRun) : Prop :=
  ∀ index, timesGivenBack index run.history =
    match run.pool.reservations[index]? with
    | some r => if r.settled then 1 else 0
    | none => 0

/-- One more event of a history. -/
theorem timesGivenBack_append (index : ℕ) (history : List PoolEvent) (e : PoolEvent) :
    timesGivenBack index (history ++ [e]) =
      timesGivenBack index history + if e.givesBack index then 1 else 0 := by
  simp [timesGivenBack, List.countP_append, List.countP_singleton]

/-- Every reservation is given back once at most. -/
theorem givenBackOnce_of_reachable {run : PoolRun} (h : (poolSystem policy).Reachable run) :
    GivenBackOnce run := by
  refine h.invariant (P := GivenBackOnce) ?_ ?_
  · rintro run ⟨hcreate, hhistory⟩ index
    simp only [AgentPool.create, check_bind_eq_ok, require_eq_ok, pure_eq_ok] at hcreate
    rw [hhistory, ← hcreate.2]
    rfl
  · rintro run run' hr honce ⟨call, henabled, rfl⟩ index
    have hpositive := (accounts_of_reachable hr).positive
    have hold := honce index
    rw [timesGivenBack_append, hold]
    have heffect : Effect run.pool call (call.event run.pool).after :=
      event_after (perform_effect call run.pool)
    unfold PoolEvent.givesBack
    rw [event_before, event_call]
    -- Only two effects touch the reservations: a new one at the end, and the end of an open one.
    cases heffect with
    | none hreservations hslots =>
      rw [hreservations, hslots, decide_eq_false (lt_irrefl _), Bool.and_false]
      rfl
    | reserve r hopen hreservations hslots =>
      rw [hreservations, hslots, decide_eq_false (by omega), Bool.and_false]
      by_cases hindex : index < run.pool.reservations.length
      · rw [List.getElem?_append_left hindex]
        rfl
      · rw [List.getElem?_eq_none (by omega), List.getElem?_append_right (by omega)]
        by_cases hlast : index - run.pool.reservations.length = 0
        · rw [hlast, List.getElem?_cons_zero]
          simp [hopen]
        · rw [List.getElem?_eq_none (by simp; omega)]
          rfl
    | giveBack i r hsettles hfound hopen hreservations hslots =>
      have hpos := hpositive r (List.mem_of_getElem? hfound)
      rw [hreservations, hslots, decide_eq_true (by omega), Bool.and_true, settles_iff hsettles]
      show _ = match (run.pool.reservations.modify i fun r => { r with settled := true })[index]? with
        | some r => if r.settled then 1 else 0
        | none => 0
      rw [List.getElem?_modify]
      -- The reservation that is settled now was open, so nothing was given back for it yet.
      by_cases hindex : i = index
      · rw [← hindex, hfound]
        simp [hopen]
      · cases run.pool.reservations[index]? <;> simp [hindex]

/-- Slots become free only where a reservation is settled, and then as many as it held. -/
theorem slots_of_event (call : PoolCall) (s : AgentPool)
    (hlower : (call.event s).after.reservedLiveSlots < s.reservedLiveSlots) :
    ∃ index r, s.reservations[index]? = some r ∧ (call.event s).givesBack index = true ∧
      (call.event s).after.reservedLiveSlots = s.reservedLiveSlots - r.count := by
  have heffect : Effect s call (call.event s).after := event_after (perform_effect call s)
  cases heffect with
  | none hreservations hslots => omega
  | reserve r hopen hreservations hslots => omega
  | giveBack index r hsettles hfound hopen hreservations hslots =>
    refine ⟨index, r, hfound, ?_, hslots⟩
    unfold PoolEvent.givesBack
    rw [event_before, event_call, hsettles, decide_eq_true hlower]
    rfl

/-- What the events of a run were. -/
theorem history_of_reachable {run : PoolRun} (h : (poolSystem policy).Reachable run) :
    ∀ e ∈ run.history, ∃ call s, e = PoolCall.event call s := by
  refine h.invariant (P := fun run => ∀ e ∈ run.history, ∃ call s, e = PoolCall.event call s) ?_ ?_
  · rintro run ⟨-, hhistory⟩ e he
    rw [hhistory] at he
    cases he
  · rintro run run' - hevents ⟨call, -, rfl⟩ e he
    rcases List.mem_append.mp he with he | he
    · exact hevents e he
    · exact ⟨call, run.pool, List.mem_singleton.mp he⟩

/-- The lists of children agree with the map to the parents in every run whose tasks keep their
lineage. -/
theorem listed_of_reachable {lineage : String → Lineage} {run : PoolRun}
    (h : (poolSystem policy).Reachable run)
    (hnamed : ∀ e ∈ run.history, e.call.Named lineage) : run.pool.Listed lineage := by
  refine h.invariant (P := fun run => (∀ e ∈ run.history, e.call.Named lineage) →
    run.pool.Listed lineage) ?_ ?_ hnamed
  · rintro run ⟨hcreate, -⟩ -
    simp only [AgentPool.create, check_bind_eq_ok, require_eq_ok, pure_eq_ok] at hcreate
    rw [← hcreate.2]
    refine ⟨?_, ?_, ?_⟩
    · intro p c
      simp [AgentPool.childrenOf]
    · intro p c hc
      cases hc
    · intro p c hc
      cases hc
  · rintro run run' - hlisted ⟨call, -, rfl⟩ hnamed
    have hbefore := hlisted fun e he => hnamed e (List.mem_append_left _ he)
    have hcall := hnamed (call.event run.pool) (List.mem_append_right _ (List.mem_singleton_self _))
    rw [event_call] at hcall
    exact event_after (perform_listed hbefore hcall)

/-- The children ever committed in a tree, with those that are reserved, stay within the limit of a
root that was registered first. -/
theorem committed_of_reachable {run : PoolRun} {root : String}
    (h : (poolSystem policy).Reachable run) (hfirst : RegisteredFirst root run.history) :
    (committed root run.history : ℤ) ≤ run.pool.spawnedCount root ∧
      committed root run.history + run.pool.reservedCount root ≤ policy.maxSpawnedPerRoot := by
  refine h.invariant (P := fun run => RegisteredFirst root run.history →
    (committed root run.history : ℤ) ≤ run.pool.spawnedCount root ∧
      (committed root run.history : ℤ) + run.pool.reservedCount root ≤ policy.maxSpawnedPerRoot)
    ?_ ?_ hfirst
  · rintro run ⟨hcreate, hhistory⟩ -
    simp only [AgentPool.create, check_bind_eq_ok, require_eq_ok, pure_eq_ok] at hcreate
    rw [hhistory, ← hcreate.2]
    refine ⟨le_refl 0, ?_⟩
    show ((0 : ℕ) : ℤ) + 0 ≤ _
    omega
  · rintro run run' hr hwithin ⟨call, henabled, rfl⟩ hfirst
    have hbefore : RegisteredFirst root run.history := by
      intro before e after hhistory
      exact hfirst before e (after ++ [call.event run.pool]) (by simp [hhistory])
    obtain ⟨hspawned, hlimit⟩ := hwithin hbefore
    have hpolicy := policy_of_reachable hr
    have hcounts := event_counts (accounts_of_reachable hr) henabled root
    have hsum : committed root (run.history ++ [call.event run.pool]) =
        committed root run.history + (call.event run.pool).committed root := by
      simp [committed]
    rw [hsum]
    rcases hcounts with ⟨hopens, hnone, -, hzero, hsame⟩ | hspawns
    · -- A tree that is opened has no children yet.
      have hempty := committed_eq_zero (hfirst run.history _ [] rfl hopens)
      rw [event_before] at hsame
      simp only [hempty, hnone] at hlimit ⊢
      exact ⟨hzero.ge, by rw [hsame]; exact hlimit⟩
    · have hmore := hspawns.spawned
      have hreserved := hspawns.reserved
      rw [event_before] at hmore hreserved
      dsimp only
      refine ⟨by omega, ?_⟩
      rcases hreserved with hless | ⟨hwithin, hnone⟩
      · omega
      · rw [hpolicy] at hwithin
        omega

/-- After any sequence of calls: the live agents and the reserved slots stay within the limit, and no
counter is negative; the slots of a reservation were given back once if it was settled, and not
otherwise, and slots became free in no other way; a commit that throws changes nothing, or gives its
slots back as closing does; the lists of children agree with the map to the parents, on live tasks,
if a task's id always names one lineage; and the children ever committed in a tree, with those that
are reserved, stay within the limit, if the root was registered once and first. -/
theorem accounted_of_reachable {run : PoolRun} (h : (poolSystem policy).Reachable run) :
    (run.pool.liveCount + run.pool.reservedLiveSlots ≤ policy.maxLiveAgents ∧
      0 ≤ run.pool.reservedLiveSlots ∧ 0 ≤ run.pool.peakLiveCount ∧
      ∀ root, 0 ≤ run.pool.spawnedCount root ∧ 0 ≤ run.pool.reservedCount root) ∧
    (run.pool.reservedLiveSlots = outstanding everywhere run.pool.reservations ∧
      (∀ root, run.pool.reservedCount root = outstanding (inTree root) run.pool.reservations) ∧
      GivenBackOnce run ∧
      ∀ e ∈ run.history, e.after.reservedLiveSlots < e.before.reservedLiveSlots →
        ∃ index r, e.before.reservations[index]? = some r ∧ e.givesBack index = true ∧
          e.after.reservedLiveSlots = e.before.reservedLiveSlots - r.count) ∧
    (∀ index childTasks, ((PoolCall.commit index childTasks).event run.pool).returned = false →
      ((PoolCall.commit index childTasks).event run.pool).after = run.pool ∨
      ((PoolCall.close index).event run.pool).returned = true ∧
        ((PoolCall.commit index childTasks).event run.pool).after =
          ((PoolCall.close index).event run.pool).after) ∧
    (∀ lineage : String → Lineage, (∀ e ∈ run.history, e.call.Named lineage) →
      ∀ parent child, (child ∈ run.pool.childrenOf parent ↔
          run.pool.parentByChild child = some parent) ∧
        (child ∈ run.pool.childrenOf parent → run.pool.isLive child = true)) ∧
    ∀ root, RegisteredFirst root run.history →
      committed root run.history + run.pool.reservedCount root ≤ policy.maxSpawnedPerRoot := by
  -- Each part is that of the accounts, read at the state of the run.
  have haccounts := accounts_of_reachable h
  have hpolicy := policy_of_reachable h
  refine ⟨⟨?_, ?_, haccounts.peak, ?_⟩, ⟨haccounts.slots, haccounts.inTrees,
    givenBackOnce_of_reachable h, ?_⟩, ?_, ?_, ?_⟩
  · rw [← hpolicy]
    exact haccounts.within
  · rw [haccounts.slots]
    exact outstanding_nonneg _ _
  · intro root
    refine ⟨haccounts.spawned root, ?_⟩
    rw [haccounts.inTrees]
    exact outstanding_nonneg _ _
  · intro e he hlower
    obtain ⟨call, s, rfl⟩ := history_of_reachable h e he
    rw [event_before] at hlower ⊢
    exact slots_of_event call s hlower
  · intro index childTasks hthrows
    unfold PoolCall.event at hthrows ⊢
    cases hrun : (PoolCall.commit index childTasks).perform run.pool with
    | ok u s' =>
      rw [hrun] at hthrows
      cases hthrows
    | error e s' =>
      rcases commit_throws hrun with hsame | hclosed
      · exact Or.inl hsame
      · rw [hclosed]
        exact Or.inr ⟨rfl, rfl⟩
  · intro lineage hnamed parent child
    have hlisted := listed_of_reachable h hnamed
    refine ⟨hlisted.agree parent child, ?_⟩
    intro hchild
    exact decide_eq_true (hlisted.live parent child ((hlisted.agree parent child).mp hchild))
  · intro root hfirst
    exact (committed_of_reachable h hfirst).2

/-! ## A run -/

/-- The run that some calls continue. -/
def PoolRun.calls (run : PoolRun) (calls : List PoolCall) : PoolRun :=
  calls.foldl (fun run call => ⟨(call.event run.pool).after, run.history ++ [call.event run.pool]⟩) run

/-- A root, and a child of it. -/
def poolRoot : PoolTask := { id := "root", parentTaskId := none, rootTaskId := "root", depth := 1 }

/-- A child of the root. -/
def poolChild : PoolTask :=
  { id := "child", parentTaskId := some "root", rootTaskId := "root", depth := 2 }

/-- A pool of two agents after a root has spawned a child. -/
def spawnedRun : PoolRun :=
  PoolRun.calls ⟨{ policy := ⟨3, 2, 1⟩ }, []⟩
    [.registerRoot poolRoot, .tryReserveChildren poolRoot 1, .commit 0 [poolChild]]

/-- The run with a spawned child is reachable. -/
theorem reachable_spawnedRun : (poolSystem ⟨3, 2, 1⟩).Reachable spawnedRun := by
  have hstart : (poolSystem ⟨3, 2, 1⟩).Reachable ⟨{ policy := ⟨3, 2, 1⟩ }, []⟩ :=
    .of_init ⟨rfl, rfl⟩
  have hroot := hstart.step ⟨.registerRoot poolRoot, trivial, rfl⟩
  have hreserved := hroot.step ⟨.tryReserveChildren poolRoot 1, trivial, rfl⟩
  refine hreserved.step ⟨.commit 0 [poolChild], ?_, rfl⟩
  show 0 < List.length _
  decide +kernel

/-- In that run the pool is full, and its only reservation was given back once. -/
theorem accounted_spawnedRun :
    spawnedRun.pool.liveCount = 2 ∧
      spawnedRun.pool.liveCount + spawnedRun.pool.reservedLiveSlots ≤ 2 ∧
      timesGivenBack 0 spawnedRun.history = 1 := by
  obtain ⟨⟨hlimit, -⟩, ⟨-, -, honce, -⟩, -⟩ := accounted_of_reachable reachable_spawnedRun
  refine ⟨by decide +kernel, hlimit, ?_⟩
  rw [honce 0]
  decide +kernel

end OsAgent.Scheduler
