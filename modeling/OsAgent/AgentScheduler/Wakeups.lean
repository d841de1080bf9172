import OsAgent.AgentScheduler.Restart
import OsAgent.AgentScheduler.Timers
import Mathlib.Tactic.Common
import Mathlib.Tactic.SplitIfs

/-!
# No wake-up is lost

One rule for each operation of the scheduler: started with everything awake, it ends so, unless the
scheduler stops. `wakeups_of_reachable` is what this comes to in every state of every run.
-/

namespace OsAgent.AgentScheduler

open OsAgent.Library OsAgent.ControlBlock AgentRecord

variable {env : Environment} {s : Scheduler} {r : AgentRecord}

/-- A rejection without a change. -/
theorem Awake.rejected (h : Awake env s) (e : Fault) : Troubled env e s := .inr fun _ => h

/-- An operation that begins by finding the record of an agent. -/
theorem wp_recordOf_awake {α : Type} {f : AgentRecord → M α} {Q : α → Scheduler → Prop} {id : AgentId}
    (h : Awake env s) (hf : ∀ r, s.agents.get? r.agentId = some r → r.agentId = id →
      wp (f r) Q (Troubled env) s) : wp (recordOf id >>= f) Q (Troubled env) s := by
  rw [wp_bind]
  refine wp_recordOf (fun r _ hr => ?_) (fun _ _ => h.rejected _) (fun _ _ => h.rejected _)
  have hid : r.agentId = id := OrderedMap.key_of_get? hr
  exact hf r (hid ▸ hr) hid

/-- An operation that begins by checking a run. -/
theorem wp_activeRecord_awake {α : Type} {f : AgentRecord → M α} {Q : α → Scheduler → Prop}
    {run : AgentRun} (h : Awake env s) (hf : ∀ r, s.agents.get? r.agentId = some r →
      r.agentId = run.agentId → wp (f r) Q (Troubled env) s) :
    wp (activeRecord run >>= f) Q (Troubled env) s := by
  rw [wp_bind]
  exact wp_activeRecord (fun _ => h.rejected _) fun r _ hr hid _ _ _ => hf r hr hid

/-- A notification keeps everything awake. -/
theorem wp_notify_awake {agentId : AgentId} {event : AgentWakeEvent} (h : Awake env s) :
    wp (notify env agentId event) (fun _ => Awake env) (Troubled env) s := by
  unfold notify
  refine wp_recordOf_awake h fun r hr hid => ?_
  rw [wp_bind]
  refine wp_nonempty (fun _ => ?_) (fun _ _ => h.rejected _)
  rw [wp_bind]
  refine wp_nonempty (fun _ => ?_) (fun _ _ => h.rejected _)
  simp only [wp_ite, wp_bind, wp_fail, wp_pure, wp_update]
  split_ifs
  · exact h
  · exact h.rejected _
  · have hevent := (h.working hr).put (r.withEvent event env.configuration.recentEventLimit.val) rfl
    exact wp_mono (wp_reconcile_awake hevent (.inr trivial)) (fun _ _ ht => ht.awake) fun _ _ he => he

/-- To unregister an agent keeps everything awake. -/
theorem wp_unregister_awake {agentId : AgentId} (h : Awake env s) :
    wp (unregister agentId) (fun _ => Awake env) (Troubled env) s := by
  unfold unregister
  refine wp_recordOf_awake h fun r hr hid => ?_
  simp only [wp_ite, wp_bind, wp_fail, wp_modify]
  split_ifs
  · exact h.rejected _
  · refine ⟨fun id r' hr' => ?_, h.signalled⟩
    rw [OrderedMap.get?_delete] at hr'
    split_ifs at hr'
    exact h.armed id r' hr'

/-- Whoever takes a run leaves nobody waiting: a run is there only if nobody waits. -/
theorem wp_takeNextRun_awake (h : Awake env s) :
    wp (takeNextRun env) (fun _ => Awake env) (Troubled env) s := by
  unfold takeNextRun
  rw [wp_bind]
  refine wp_available (fun _ => ?_) (fun _ _ _ => h.rejected _) (fun _ _ => h.rejected _)
  rw [wp_bind, wp_get]
  by_cases hcapacity : hasCapacity env s = true
  · rw [if_neg (by simp [hcapacity])]
    cases hqueue : s.queue with
    | nil => exact h
    | cons agentId rest =>
      refine wp_recordOf_awake h fun r hr hid => ?_
      -- The queue is not empty and there is capacity: whoever waited would have been told.
      have hwaiters : s.readyWaiters = [] := by
        by_contra hwaiting
        rcases h.signalled hwaiting with hempty | hfull
        · rw [hqueue] at hempty
          cases hempty
        · exact Bool.false_ne_true (hfull.symm.trans hcapacity)
      split
      · rename_i batch hb hrun
        rw [wp_bind, wp_randomUUID, wp_bind]
        refine wp_transition (fun _ => ?_) (fun _ => .inl ⟨_, rfl⟩)
        rw [wp_bind, wp_update, wp_bind, wp_modify, wp_bind]
        have htaken := ((h.working hr).draw.put (r.inState .running) rfl).put ((r.inState .running).withRun
          (some { agentId, runId := env.uuid s.draws, batch })) rfl
        -- The run takes the agent out of the queue.
        have hserved : Working env s.readings True _ _ :=
          { htaken.requeue s.queue.tail (s.running + 1) with
            signalled := fun _ hwaiting => absurd hwaiters hwaiting }
        refine wp_mono (wp_persist_working hserved) (fun _ t ht => ?_) fun _ _ he => he
        have harmed := (h.armed _ r hr).mono (Nat.le_refl _) ht.since
        exact ht.awake fun at_ hat => harmed at_ hat
      · exact h.rejected _
  · rw [if_pos (by simp [hcapacity])]
    exact h

/-- To register operations keeps everything awake. -/
theorem wp_registerOperations_awake {run : AgentRun} {operations : List AsyncOperationOptions}
    (h : Awake env s) :
    wp (registerOperations env run operations) (fun _ => Awake env) (Troubled env) s := by
  unfold registerOperations
  refine wp_activeRecord_awake h fun r hr hid => ?_
  rw [wp_bind, wp_now]
  have hread : Undisturbed s { s with readings := s.readings + 1 } :=
    ⟨rfl, Nat.le_succ _, rfl, rfl, rfl⟩
  refine wp_bind_of (wp_stageOperations_undisturbed operations hread) ?_
    fun e t hu => (h.undisturbed hu).rejected e
  intro staged t hu
  by_cases hcapacity : r.buffered + staged.2.size > env.configuration.maxBufferedOperations.val
  · rw [if_pos hcapacity]
    exact (h.undisturbed hu).rejected _
  · rw [if_neg hcapacity, wp_bind, wp_update]
    have hstaged := ((h.working hr).congr hu).put (r.withStaged staged.2) rfl
    exact wp_persist_armTimer_rested hstaged fun _ _ ht => ht.awake

/-- To complete an operation keeps everything awake. -/
theorem wp_completeOperation_awake {operation : AsyncOperation} {outcome : AsyncOperationOutcome}
    (h : Awake env s) :
    wp (completeOperation env operation outcome) (fun _ => Awake env) (Troubled env) s := by
  unfold completeOperation
  rw [wp_bind, wp_get]
  cases hr : s.agents.get? operation.agentId with
  | none => exact h
  | some r =>
    have hid : r.agentId = operation.agentId := OrderedMap.key_of_get? hr
    dsimp only
    cases hpending : r.pending.get? operation.operationId with
    | none => exact h
    | some item =>
      dsimp only
      split_ifs
      · exact h
      · rw [wp_bind]
        refine wp_copyOutcome ?_ (fun _ _ => h.rejected _)
        unfold recordResult
        simp only [wp_bind, wp_now, wp_update, wp_ite, wp_pure]
        have hread := (h.working (hid ▸ hr)).read
        refine wp_mono (wp_reconcile_awake (hread.put (r.withResult item _ _ _) rfl) (.inr trivial))
          (fun _ t ht => ?_) fun _ _ he => he
        split_ifs
        · exact wp_mono wp_abort_undisturbed (fun _ _ hu => (ht.undisturbed hu).awake)
            fun _ _ he => he
        · exact ht.awake

/-- To cancel operations keeps everything awake. -/
theorem wp_cancelOperations_awake {agentId : AgentId} {reason : String} (h : Awake env s) :
    wp (cancelOperations env agentId reason) (fun _ => Awake env) (Troubled env) s := by
  unfold cancelOperations
  refine wp_recordOf_awake h fun r hr hid => ?_
  refine wp_bind_of (wp_cancelEach_working r.pending.entries (h.working hr)) ?_ fun _ _ he => he
  rintro r' t ⟨h', -⟩
  refine wp_bind_of (wp_reconcile_awake h' (.inr trivial)) ?_ fun _ _ he => he
  intro _ t' ht
  exact wp_mono (wp_abortAll_undisturbed _ _ (.refl t')) (fun _ _ hu => (ht.undisturbed hu).awake)
    fun _ _ he => he

/-- When a run ends its place is free, and whoever waits is signalled. -/
theorem wp_finishRun_awake {run : AgentRun} {intent : AgentRunIntent} (h : Awake env s) :
    wp (finishRun env run intent) (fun _ => Awake env) (Troubled env) s := by
  unfold finishRun
  refine wp_activeRecord_awake h fun r hr hid => ?_
  rw [wp_bind, wp_update, wp_bind, wp_modify]
  have hfinished := ((h.working hr).put (r.finished intent) rfl).requeue s.queue (s.running - 1)
  refine wp_bind_of (wp_reconcile_rested hfinished) ?_ fun _ _ he => he
  intro _ t ht
  exact wp_mono (wp_signalReady_rested ht) (fun _ _ ht' => ht'.awake) fun _ _ he => he

/-- To return a run keeps everything awake. -/
theorem wp_returnRun_awake {run : AgentRun} (h : Awake env s) :
    wp (returnRun env run) (fun _ => Awake env) (Troubled env) s := by
  unfold returnRun
  refine wp_activeRecord_awake h fun r hr hid => ?_
  rw [wp_bind]
  refine wp_transition (fun _ => ?_) (fun _ => .inl ⟨_, rfl⟩)
  have hreturned := ((h.working hr).put (r.inState .ready) rfl).put
    ((r.inState .ready).withRun none) rfl
  have hrest : ∀ t, Working env s.readings False t ((r.inState .ready).withRun none) →
      wp (do
        persist env ((r.inState .ready).withRun none)
        reconcile env ((r.inState .ready).withRun none)
        signalReady env) (fun _ => Awake env) (Troubled env) t := by
    intro t ht
    refine wp_bind_of (wp_persist_working ht) ?_ fun _ _ he => he
    intro _ t₁ h₁
    refine wp_bind_of (wp_reconcile_rested h₁) ?_ fun _ _ he => he
    intro _ t₂ h₂
    exact wp_mono (wp_signalReady_rested h₂) (fun _ _ ht' => ht'.awake) fun _ _ he => he
  rw [wp_bind, wp_update, wp_bind, wp_modify]
  split_ifs
  · rw [wp_bind, wp_pushQueue]
    exact hrest _ (hreturned.requeue _ _)
  · exact hrest _ (hreturned.requeue _ _)

/-- An agent that pauses leaves the queue, and its timer is armed for the end of the pause. -/
theorem wp_suspend_awake {agentId : AgentId} {suspension : AgentSuspension} (h : Awake env s) :
    wp (suspend env agentId suspension) (fun _ => Awake env) (Troubled env) s := by
  unfold suspend
  refine wp_recordOf_awake h fun r hr hid => ?_
  rw [wp_bind]
  refine wp_nonempty (fun _ => ?_) (fun _ _ => h.rejected _)
  rw [wp_bind]
  refine wp_positiveIntegerIfPresent ?_ (fun _ _ => h.rejected _)
  rw [wp_bind, wp_update, wp_bind, wp_modify]
  have hsuspended := (h.working hr).put (r.suspended suspension) rfl
  have hleft : Working env s.readings True
      { s.put (r.suspended suspension) with queue := s.queue.erase agentId } (r.suspended suspension) :=
    { hsuspended.requeue (s.queue.erase agentId) s.running with
      signalled := fun _ hwaiting => by
        rcases h.signalled hwaiting with hempty | hfull
        · left
          show s.queue.erase agentId = []
          rw [hempty, List.erase_nil]
        · exact Or.inr hfull }
  refine wp_bind_of (wp_block_working hleft) ?_ fun _ _ he => he
  rintro r' t ⟨h', -⟩
  exact wp_persist_armTimer_rested h' fun _ _ ht => ht.awake

/-- To resume an agent keeps everything awake. -/
theorem wp_resume_awake {agentId : AgentId} (h : Awake env s) :
    wp (resume env agentId) (fun _ => Awake env) (Troubled env) s := by
  cases hr : s.agents.get? agentId with
  | none =>
    unfold resume
    refine wp_recordOf_awake h fun r hr' hid => ?_
    rw [hid, hr] at hr'
    cases hr'
  | some r =>
    obtain rfl : r.agentId = agentId := OrderedMap.key_of_get? hr
    by_cases hs : r.suspension.isSome
    · exact wp_mono (wp_resume_rested (h.working hr) hs) (fun _ _ ht => ht.awake) fun _ _ he => he
    · unfold resume
      refine wp_recordOf_awake h fun r' hr' hid => ?_
      rw [hid, hr] at hr'
      obtain rfl := Option.some.inj hr'
      rw [if_pos (by simpa using hs)]
      exact h

/-- The timer of an agent that fires is armed again. -/
theorem wp_onTimer_rested (h : Awake env s) (ha : s.Available)
    (hr : s.agents.get? r.agentId = some r) : wp (onTimer env r)
      (fun _ t => Rested env s.readings True r.agentId t) (Troubled env) s := by
  unfold onTimer
  rw [wp_bind, wp_get, if_neg (by simp [ha.1, ha.2])]
  rw [wp_bind, wp_update, wp_bind, wp_now]
  have hcleared := (h.working hr).put r.clearTimeout rfl
  refine wp_bind_of (wp_expireEach_working r.clearTimeout.pending.entries hcleared.read) ?_ fun _ _ he => he
  rintro r' t ⟨h', hid⟩
  refine wp_bind_of (wp_reconcile_awake h' (.inr trivial)) ?_ fun _ _ he => he
  intro _ t' ht
  rw [hid] at ht
  exact wp_mono (wp_abortAll_undisturbed _ _ (.refl t')) (fun _ _ hu => ht.undisturbed hu)
    fun _ _ he => he

/-- A timer that fires keeps everything awake and is armed again, or the scheduler stops. -/
theorem wp_fireTimer_awake {agentId : AgentId} (h : Awake env s) (ha : s.Available) :
    wp (fireTimer env agentId) (fun _ t => t.Available → Awake env t ∧
        ∀ r, s.agents.get? agentId = some r → r.timer.isSome →
          ∀ r', t.agents.get? agentId = some r' → r'.Armed env s.readings t.readings)
      (fun _ _ => False) s := by
  unfold fireTimer
  rw [wp_bind, wp_get]
  cases hr : s.agents.get? agentId with
  | none => exact fun _ => ⟨h, fun _ hr' => (by cases hr')⟩
  | some r =>
    obtain rfl : r.agentId = agentId := OrderedMap.key_of_get? hr
    dsimp only
    by_cases htimer : r.timer.isNone
    · rw [if_pos htimer]
      refine fun _ => ⟨h, fun r' hr' hsome => ?_⟩
      obtain rfl := Option.some.inj hr'
      rw [Option.isNone_iff_eq_none.mp htimer] at hsome
      cases hsome
    · rw [if_neg htimer, wp_tryCatch]
      refine wp_mono (wp_onTimer_rested h ha hr) ?_ ?_
      · intro _ t ht _
        exact ⟨ht.awake, fun _ _ _ r' hr' => ht.again r' hr'⟩
      · intro e t _ hav
        have hfailure : t.failure.or (some e) = none := hav.2
        simp at hfailure

/-- A restored agent with a batch to be taken goes to the queue. -/
theorem wp_restoreRecord_awake {agent : SchedulingHandle} {saved : AgentSchedulerCheckpoint}
    (h : Awake env s) : wp (restoreRecord agent saved)
      (fun r t => r.agentId = agent.agentId ∧ t.agents = s.agents ∧ s.readings ≤ t.readings ∧
        (r.suspension = none ∨ t.Signalled env)) (Troubled env) s := by
  unfold restoreRecord
  simp only [wp_bind, wp_ite, wp_fail, wp_pure]
  split_ifs with hversion
  · exact h.rejected _
  · refine wp_mono (wp_restorePending_undisturbed saved.pendingOperations (.refl s))
      (fun pending t hu => ?_) fun _ _ he => he
    have hend : ∀ r : AgentRecord, r.agentId = agent.agentId →
        if r.batch.isSome ∧ r.suspension.isNone then
          wp (pushQueue agent.agentId) (fun _ t' => r.agentId = agent.agentId ∧ t'.agents = s.agents ∧
            s.readings ≤ t'.readings ∧ (r.suspension = none ∨ t'.Signalled env)) (Troubled env) t
        else r.agentId = agent.agentId ∧ t.agents = s.agents ∧ s.readings ≤ t.readings ∧
          (r.suspension = none ∨ t.Signalled env) := by
      intro r hid
      split_ifs with hqueued
      · exact ⟨hid, hu.agents, hu.readings, Or.inl (Option.isNone_iff_eq_none.mp hqueued.2)⟩
      · exact ⟨hid, hu.agents, hu.readings, Or.inr (hu.signalled h.signalled)⟩
    apply hend
    split_ifs <;> rfl

/-- To register an agent keeps everything awake. -/
theorem wp_register_awake {agent : SchedulingHandle} (h : Awake env s) :
    wp (register env agent) (fun _ => Awake env) (Troubled env) s := by
  unfold register
  rw [wp_bind]
  refine wp_positiveInteger (fun _ => ?_) (fun _ _ => h.rejected _)
  rw [wp_bind, wp_get]
  simp only [wp_ite, wp_bind, wp_fail]
  split_ifs
  · exact h.rejected _
  · exact h.rejected _
  · apply wp_load
    -- The record is put in, reconciled, and the waiters are told.
    have hrest : ∀ r t, t.agents = s.agents → s.readings ≤ t.readings →
        (r.suspension = none ∨ t.Signalled env) →
        wp (do update r; reconcile env r) (fun _ => Awake env) (Troubled env) t := by
      intro r t hagents hreadings hserved
      rw [wp_bind, wp_update]
      have hregistered : Working env 0 (t.Signalled env) (t.put r) r := by
        refine ⟨OrderedMap.get?_insert_self .., fun id r' hid hr' => ?_, Nat.zero_le _, id⟩
        have hget : s.agents.get? id = some r' := by
          rw [← hr', ← hagents]
          exact (OrderedMap.get?_insert_of_ne _ hid).symm
        exact (h.armed id r' hget).mono (Nat.le_refl _) hreadings
      exact wp_mono (wp_reconcile_awake hregistered hserved) (fun _ _ ht => ht.awake)
        fun _ _ he => he
    -- A new agent starts fresh; another one is restored from its checkpoint.
    cases stored env s agent.agentId with
    | none => exact hrest (AgentRecord.fresh agent) s rfl (Nat.le_refl _) (Or.inr h.signalled)
    | some saved =>
      refine wp_bind_of (wp_restoreRecord_awake h) ?_ fun _ _ he => he
      rintro r t ⟨-, hagents, hreadings, hserved⟩
      exact hrest r t hagents hreadings hserved

/-- Whoever begins to wait does so because there is nothing to take. -/
theorem wp_waitForReady_awake {aborted : Bool} {waiter : ℕ} (h : Awake env s) :
    wp (waitForReady env aborted waiter) (fun _ => Awake env) (Troubled env) s := by
  unfold waitForReady
  rw [wp_bind]
  refine wp_available (fun _ => ?_) (fun _ _ _ => h.rejected _) (fun _ _ => h.rejected _)
  simp only [wp_ite, wp_bind, wp_get, wp_set, wp_pure]
  split_ifs with _ hready
  · exact h
  · exact h
  · refine ⟨h.armed, fun _ => ?_⟩
    rw [not_and_or, not_not] at hready
    exact hready.imp_right Bool.eq_false_iff.mpr

/-- Every operation keeps everything awake. -/
theorem wp_perform_awake {op : Operation} (h : Awake env s) (ha : s.Available) :
    wp (op.perform env) (fun _ t => t.Available → Awake env t) (Troubled env) s := by
  -- What an operation returns does not matter to the invariant.
  have hunit : ∀ {x : M Unit}, wp x (fun _ => Awake env) (Troubled env) s →
      wp x (fun _ t => t.Available → Awake env t) (Troubled env) s :=
    fun hx => wp_mono hx (fun _ _ ht _ => ht) fun _ _ he => he
  have hdrop : ∀ {α : Type} {x : M α}, wp x (fun _ => Awake env) (Troubled env) s →
      wp (do let _ ← x) (fun _ t => t.Available → Awake env t) (Troubled env) s :=
    fun hx => wp_bind_of hx (fun _ _ ht _ => ht) fun _ _ he => he
  cases op with
  | register agent => exact hunit (wp_register_awake h)
  | unregister agentId => exact hunit (wp_unregister_awake h)
  | notify agentId event => exact hdrop (wp_notify_awake h)
  | takeNextRun => exact hdrop (wp_takeNextRun_awake h)
  | registerOperations run operations => exact hdrop (wp_registerOperations_awake h)
  | completeOperation operation outcome => exact hdrop (wp_completeOperation_awake h)
  | finishRun run intent => exact hunit (wp_finishRun_awake h)
  | returnRun run => exact hunit (wp_returnRun_awake h)
  | suspend agentId suspension => exact hunit (wp_suspend_awake h)
  | resume agentId => exact hunit (wp_resume_awake h)
  | cancelOperations agentId reason => exact hunit (wp_cancelOperations_awake h)
  | timer agentId =>
    exact wp_mono (wp_fireTimer_awake h ha) (fun _ _ ht hav => (ht hav).1) fun _ _ he => he.elim
  | waitForReady aborted waiter => exact hdrop (wp_waitForReady_awake h)
  | abortWait waiter =>
    refine fun _ => ⟨h.armed, fun hwaiting => h.signalled fun hnone => hwaiting ?_⟩
    show s.readyWaiters.filter (· ≠ waiter) = []
    rw [hnone, List.filter_nil]
  | operationHandle operation =>
    refine hdrop (wp_recordOf_awake h fun r hr hid => ?_)
    split <;> exact h
  | inspect agentId => exact hdrop (wp_recordOf_awake h fun r hr hid => h)
  | close => exact fun hav => absurd hav.1.symm Bool.false_ne_true

/-! ## Runs -/

/-- In the beginning nothing waits. -/
theorem awake_initial (env : Environment) (saves : List AgentSchedulerCheckpoint) :
    Awake env (.initial saves) where
  armed _ _ h := by cases h
  signalled h := absurd rfl h

/-- Nothing waits without being woken in any state of any run. -/
theorem awake_of_reachable
    (hs : (system env (fun saves => ∀ c ∈ saves, c.Restorable) (Attached env)).Reachable s) :
    s.Available → Awake env s := by
  refine hs.invariant (P := fun s => s.Available → Awake env s) ?_ ?_
  · rintro s ⟨saves, -, rfl⟩ -
    exact awake_initial env saves
  · rintro s t hreachable hawake ⟨op, hop, rfl⟩ hav
    obtain ⟨hsaves, hinvariant⟩ := restorable_of_reachable hreachable
    by_cases ha : s.Available
    · by_cases hclose : op = .close
      · subst hclose
        cases hav.1
      · -- The control block is asked for the transitions that it has.
        have hboth := wp_and (wp_perform (hinvariant ha) ha hclose (hop.admissible hsaves))
          (@wp_perform_awake env s op (hawake ha) ha)
        refine wp_finalState (P := fun t => t.Available → Awake env t) (wp_mono hboth ?_ ?_) hav
        · exact fun _ t ht => ht.2
        · rintro e t ⟨hstopped, htroubled⟩ hav'
          rcases htroubled with ⟨edge, rfl⟩ | hawake'
          · cases hstopped with
            | rejected code message he hkept => cases he
            | broken hbroken => cases hav'.2.symm.trans hbroken.failure
          · exact hawake' hav'
    · exact absurd hav (wp_finalState (@perform_stopped env s op ha hsaves)).1

/-- Nobody waits for a run that could be taken; and an agent that is to do something at some time has a
timer that fires no later, or at once if that time has passed. A timer that fires is armed again. -/
theorem wakeups_of_reachable
    (hs : (system env (fun saves => ∀ c ∈ saves, c.Restorable) (Attached env)).Reachable s)
    (ha : s.Available) :
    (s.readyWaiters ≠ [] →
      s.queue = [] ∨ (env.configuration.maxConcurrentRuns.val : ℤ) ≤ s.running) ∧
    (∀ id r, s.agents.get? id = some r → r.NeedsTimer → r.TimerSet env 0 s.readings) ∧
    ∀ id r t, s.agents.get? id = some r → r.timer.isSome → t = finalState (fireTimer env id s) →
      t.Available → ∀ r', t.agents.get? id = some r' → r'.NeedsTimer →
        r'.TimerSet env s.readings t.readings := by
  have hawake := awake_of_reachable hs ha
  have hawaits : ∀ {s : Scheduler}, (system env (fun saves => ∀ c ∈ saves, c.Restorable)
      (Attached env)).Reachable s → s.Available → ∀ id r, s.agents.get? id = some r →
        r.NeedsTimer → ∃ at_, r.Awaits at_ := by
    intro s hs ha id r hr hneeds
    have hsettled := ((restorable_of_reachable hs).2 ha).settled id r hr
    exact exists_awaits hneeds hsettled.due.mp
  refine ⟨fun hwaiting => ?_, fun id r hr hneeds => ?_, ?_⟩
  · refine (hawake.signalled hwaiting).imp_right fun hfull => ?_
    unfold hasCapacity at hfull
    rw [decide_eq_false_iff_not] at hfull
    omega
  · exact timerSet_of_armed (hawake.armed id r hr) (hawaits hs ha id r hr hneeds)
  · rintro id r t hr htimer rfl hav r' hr' hneeds
    have hstep := hs.step ⟨.timer id, fun _ h => (by cases h), rfl⟩
    have hfired := wp_finalState (P := fun t => t.Available → Awake env t ∧
        ∀ r, s.agents.get? id = some r → r.timer.isSome →
          ∀ r', t.agents.get? id = some r' → r'.Armed env s.readings t.readings)
      (wp_mono (wp_fireTimer_awake hawake ha) (fun _ _ ht => ht) fun _ _ he => he.elim)
    exact timerSet_of_armed ((hfired hav).2 r hr htimer r' hr') (hawaits hstep hav id r' hr' hneeds)

/-- A scheduler with an agent that pauses until a time, and a caller that waits for a run. -/
def afterPausing : Scheduler :=
  finalState ((Operation.waitForReady false 0).perform quietEnvironment
    (finalState ((Operation.suspend 1 { reason := "quota", resumeAt := some 90000 }).perform
      quietEnvironment (finalState ((Operation.register ⟨1, .sleeping⟩).perform quietEnvironment
        (.initial []))))))

/-- In a run with a pause a timer is set, and somebody waits for a run. -/
theorem wakeups_afterPausing : afterPausing.readyWaiters = [0] ∧
    (afterPausing.queue = [] ∨ 4 ≤ afterPausing.running) ∧
    ∃ r, afterPausing.agents.get? 1 = some r ∧ r.NeedsTimer ∧
      r.TimerSet quietEnvironment 0 afterPausing.readings := by
  have hreach : (system quietEnvironment (fun saves => ∀ c ∈ saves, c.Restorable)
      (Attached quietEnvironment)).Reachable afterPausing := by
    refine .step (.step (.step (.of_init ⟨[], fun _ h => (by cases h), rfl⟩)
      ⟨.register ⟨1, .sleeping⟩, fun agent h c hc => ?_, rfl⟩)
      ⟨.suspend 1 { reason := "quota", resumeAt := some 90000 }, fun _ h => (by cases h), rfl⟩)
      ⟨.waitForReady false 0, fun _ h => (by cases h), rfl⟩
    obtain rfl := Operation.register.inj h
    cases hc
  obtain ⟨hwaiters, htimers, -⟩ := wakeups_of_reachable hreach ⟨rfl, rfl⟩
  have hpaused : ((afterPausing.agents.get? 1).bind AgentRecord.suspension).bind
      AgentSuspension.resumeAt = some 90000 := by decide
  obtain ⟨suspension, hs, hresume⟩ := Option.bind_eq_some_iff.mp hpaused
  obtain ⟨r, hr, hs⟩ := Option.bind_eq_some_iff.mp hs
  have hneeds : r.NeedsTimer := .inr (.inl ⟨suspension, hs, by rw [hresume]; rfl⟩)
  exact ⟨by decide, hwaiters (by decide), r, hr, hneeds, htimers 1 r hr hneeds⟩

end OsAgent.AgentScheduler
