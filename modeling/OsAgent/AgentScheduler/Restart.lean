import OsAgent.AgentScheduler.InState
import OsAgent.AgentScheduler.Staging
import OsAgent.AgentScheduler.Runs
import Mathlib.Tactic.Common
import Mathlib.Tactic.SplitIfs

/-!
# Restarting from a checkpoint

A crash leaves the checkpoints that were saved. `restart_of_reachable` says what a new scheduler
makes of any of them: it registers the agent without an error, and ends in the very state in which
one `reconcile` of the saved record would end, so nothing that was saved is lost or doubled.
-/

namespace OsAgent.AgentScheduler

open OsAgent.Library OsAgent.ControlBlock AgentRecord

variable {env : Environment} {s t : Scheduler} {r r' : AgentRecord}

/-! ## What a run saves -/

/-- A scheduler that has stopped does not get past finding a record. -/
theorem ends_recordOf_stopped {α : Type} {f : AgentRecord → M α} {id : AgentId}
    (hs : ¬s.Available) : Ends (recordOf id >>= f) (fun t => t = s) s := by
  unfold Ends
  rw [wp_bind]
  exact wp_recordOf (fun _ ha _ => absurd ha hs) (fun _ _ => rfl) fun _ _ => rfl

/-- A scheduler that has stopped does not get past checking a run. -/
theorem ends_activeRecord_stopped {α : Type} {f : AgentRecord → M α} {run : AgentRun}
    (hs : ¬s.Available) : Ends (activeRecord run >>= f) (fun t => t = s) s := by
  unfold activeRecord Ends
  simp only [wp_bind]
  exact wp_recordOf (fun _ ha _ => absurd ha hs) (fun _ _ => rfl) fun _ _ => rfl

/-- Completing an operation touches the record of its agent at most. -/
theorem completeOperation_touched {operation : AsyncOperation} {outcome : AsyncOperationOutcome} :
    Ends (completeOperation env operation outcome)
      (fun t => Drawn s t ∨ ∃ r t', Touched s t' r ∧ Drawn t' t) s := by
  unfold completeOperation Ends
  rw [wp_bind, wp_get]
  cases hr : s.agents.get? operation.agentId with
  | none => exact .inl (.refl s)
  | some r =>
    have hk : r.agentId = operation.agentId := OrderedMap.key_of_get? hr
    have hr' : s.agents.get? r.agentId = some r := hk ▸ hr
    simp only
    cases hp : r.pending.get? operation.operationId with
    | none => exact .inl (.refl s)
    | some item =>
      simp only [wp_ite, wp_pure]
      split_ifs with horigin
      · exact .inl (.refl s)
      · rw [wp_bind]
        refine wp_copyOutcome ?_ (fun _ _ => .inl (.refl s))
        unfold recordResult
        simp only [wp_bind, wp_now, wp_update, wp_ite, wp_pure]
        refine wp_mono (wp_reconcile_carried (((Touched.refl hr').read _).put _ rfl)) ?_ ?_
        · rintro _ t ⟨r', h', -⟩
          split_ifs
          · exact wp_abort fun _ => .inr ⟨r', t, h', { Drawn.refl t with }⟩
          · exact .inr ⟨r', t, h', .refl t⟩
        · rintro _ t ⟨r', h', -⟩
          exact .inr ⟨r', t, h', .refl t⟩

/-- A scheduler that has stopped saves nothing, and does not come back. -/
theorem perform_stopped {op : Operation} (hs : ¬s.Available)
    (hsaves : ∀ c ∈ s.saves, c.Restorable) :
    Ends (op.perform env) (fun t => ¬t.Available ∧ t.saves = s.saves) s := by
  have hsame : ∀ t, t = s → ¬t.Available ∧ t.saves = s.saves := by
    rintro t rfl
    exact ⟨hs, rfl⟩
  have htouched : ∀ t r, Touched s t r → ¬t.Available ∧ t.saves = s.saves :=
    fun t r h => ⟨fun ha => hs (h.alive ha), h.frozen hs⟩
  have hdrawn : ∀ t t', (¬t.Available ∧ t.saves = s.saves) → Drawn t t' →
      ¬t'.Available ∧ t'.saves = s.saves := fun t t' h hd =>
    ⟨fun ha => h.1 ⟨hd.closed ▸ ha.1, hd.failure ▸ ha.2⟩, hd.saves.trans h.2⟩
  have hnot : ¬(s.closed = false ∧ s.failure = none) := hs
  -- Whatever asks for the scheduler to be available throws, and changes nothing.
  have havailable : ∀ {α : Type} {f : PUnit → M α}, Ends (available >>= f) (fun t => t = s) s := by
    intro α f
    unfold Ends
    rw [wp_bind]
    exact wp_available (fun ha => absurd ha hs) (fun _ _ _ => rfl) fun _ _ => rfl
  have hunit : ∀ {x : M Unit} {P : Scheduler → Prop}, Ends x P s →
      (∀ t, P t → ¬t.Available ∧ t.saves = s.saves) →
      Ends x (fun t => ¬t.Available ∧ t.saves = s.saves) s :=
    fun h hP => wp_mono h (fun _ t => hP t) fun _ t => hP t
  have hdrop : ∀ {α : Type} {x : M α} {P : Scheduler → Prop}, Ends x P s →
      (∀ t, P t → ¬t.Available ∧ t.saves = s.saves) →
      Ends (do let _ ← x) (fun t => ¬t.Available ∧ t.saves = s.saves) s :=
    fun h hP => wp_bind_of h (fun _ t => hP t) fun _ t => hP t
  -- One case per operation.
  cases op with
  | register agent =>
    refine hunit (register_adds hsaves) fun t ht => ?_
    rcases ht with rfl | ⟨-, -, r, h, -⟩
    · exact hsame t rfl
    · exact htouched t r h
  | unregister agentId => exact hunit (ends_recordOf_stopped hs) hsame
  | notify agentId event => exact hdrop (ends_recordOf_stopped hs) hsame
  | takeNextRun => exact hdrop havailable hsame
  | registerOperations run operations => exact hdrop (ends_activeRecord_stopped hs) hsame
  | completeOperation operation outcome =>
    refine hdrop completeOperation_touched fun t ht => ?_
    rcases ht with hd | ⟨r, t', h, hd⟩
    · exact hdrawn s t (hsame s rfl) hd
    · exact hdrawn t' t (htouched t' r h) hd
  | finishRun run intent => exact hunit (ends_activeRecord_stopped hs) hsame
  | returnRun run => exact hunit (ends_activeRecord_stopped hs) hsame
  | suspend agentId suspension => exact hunit (ends_recordOf_stopped hs) hsame
  | resume agentId => exact hunit (ends_recordOf_stopped hs) hsame
  | cancelOperations agentId reason => exact hunit (ends_recordOf_stopped hs) hsame
  | timer agentId =>
    show Ends (fireTimer env agentId) _ s
    unfold fireTimer onTimer Ends
    rw [wp_bind, wp_get]
    cases s.agents.get? agentId with
    | none => exact hsame s rfl
    | some r =>
      -- The timer looks at whether the scheduler has stopped.
      have hstopped : s.closed = true ∨ s.failure.isSome = true := by
        by_contra hno
        simp only [not_or, Bool.not_eq_true, Option.isSome_eq_false_iff,
          Option.isNone_iff_eq_none] at hno
        exact hs hno
      simp only [wp_ite, wp_pure, wp_tryCatch, wp_bind, wp_get, hstopped, if_true]
      split_ifs <;> exact ⟨hs, trivial⟩
  | waitForReady aborted waiter => exact hdrop havailable hsame
  | abortWait waiter => exact ⟨hs, rfl⟩
  | operationHandle operation => exact hdrop (ends_recordOf_stopped hs) hsame
  | inspect agentId => exact hdrop (ends_recordOf_stopped hs) hsame
  | close => exact ⟨fun ha => (by cases ha.1), rfl⟩

/-- Whatever a scheduler saves can be restored. -/
theorem restorable_of_reachable
    (hs : (system env (fun saves => ∀ c ∈ saves, c.Restorable) (Attached env)).Reachable s) :
    (∀ c ∈ s.saves, c.Restorable) ∧ (s.Available → Invariant env s) := by
  refine hs.invariant (P := fun s => (∀ c ∈ s.saves, c.Restorable) ∧
    (s.Available → Invariant env s)) ?_ ?_
  · rintro s ⟨saves, hsaves, rfl⟩
    exact ⟨hsaves, fun _ => invariant_initial env saves⟩
  · rintro s t - ⟨hsaves, hinv⟩ ⟨op, hop, rfl⟩
    by_cases ha : s.Available
    · exact perform_available (hinv ha) ha hsaves hop
    · have hstop := wp_finalState (@perform_stopped env _ op ha hsaves)
      exact ⟨hstop.2 ▸ hsaves, fun ha' => absurd ha' hstop.1⟩

/-! ## The saved record, and what registration makes of it -/

/-- The state of a saved control block; a run that was in progress is to be taken again. -/
def requeuedState (state : AgentState) : AgentState :=
  if state = .running then .ready else state

/-- The record that a checkpoint describes, in the state in which it was saved. An agent that slept
is to continue if its control block was made ready. -/
def AgentSchedulerCheckpoint.savedRecord (c : AgentSchedulerCheckpoint)
    (controllers : ℕ) (attached : AgentState) : AgentRecord :=
  { c.record ⟨c.agentId, requeuedState c.state⟩ (numbered controllers c.pendingOperations) with
    continuation := c.continuation || (attached = .ready && c.state = .sleeping) }

/-- The scheduler with the record of a checkpoint in it, as it was saved. -/
def Scheduler.withSaved (s : Scheduler) (c : AgentSchedulerCheckpoint) (attached : AgentState) :
    Scheduler :=
  (s.reopened (c.savedRecord s.controllers attached)).put (c.savedRecord s.controllers attached)

/-- The saved record is the restored one in another state. -/
theorem savedRecord_checkpoint (hr : r.Savable) {attached : AgentState}
    {pending : OrderedMap PendingOperation.operationId} {n : ℕ}
    (hp : pending.entries = numbered n r.pendingOperations) :
    r.checkpoint.savedRecord n attached =
      (restored r ⟨r.agentId, attached⟩ pending).inState (requeuedState r.agent.state) := by
  have hops := map_operation_numbered n r.pendingOperations
  obtain ⟨pending', hp', hrec⟩ := record_checkpoint (r := r)
    ⟨r.agentId, requeuedState r.agent.state⟩ hr.toConsistent hops
  obtain rfl : pending' = pending := OrderedMap.ext (hp'.trans hp.symm)
  have hcont : (r.continuation || (attached = AgentState.ready &&
      r.agent.state = AgentState.sleeping)) =
      restoredContinuation r ⟨r.agentId, attached⟩ := by
    unfold restoredContinuation
    by_cases hsl : r.agent.state = .sleeping
    · by_cases hatt : attached = .ready <;> simp [hsl, hatt, hr.asleep hsl]
    · simp [hsl]
  unfold AgentSchedulerCheckpoint.savedRecord
  show { r.checkpoint.record ⟨r.agentId, requeuedState r.agent.state⟩
      (numbered n r.pendingOperations) with
    continuation := r.continuation || (attached = AgentState.ready &&
      r.agent.state = AgentState.sleeping) } = _
  rw [hrec, hcont]
  rfl

/-- A saved record can wait in its state. -/
theorem canWait_saved (hr : r.Savable) {attached : AgentState}
    {pending : OrderedMap PendingOperation.operationId} (hp : pending.size = r.pending.size)
    (hs : r.suspension = none) :
    CanWait ((restored r ⟨r.agentId, attached⟩ pending).inState
      (requeuedState r.agent.state)) := by
  intro hb hc he
  have hc' : r.continuation = false := by
    have hcond : restoredContinuation r ⟨r.agentId, attached⟩ = false := hc
    unfold restoredContinuation at hcond
    split_ifs at hcond
    exact hcond
  refine ⟨fun hpos hsl => ?_, fun hzero hcol => .inr ?_⟩
  · -- An agent that slept has nothing in flight.
    have hsl' : requeuedState r.agent.state = .sleeping := hsl
    have hstate : r.agent.state = .sleeping := by
      unfold requeuedState at hsl'
      split_ifs at hsl'
      exact hsl'
    have hidle := (isIdle_iff.mp (hr.asleep hstate)).2.1
    have hpos' : 0 < pending.size := hpos
    omega
  · have hzero' : pending.size = 0 := hzero
    have hidle : r.isIdle = true := isIdle_iff.mpr ⟨hb, by omega, hcol, he⟩
    show requeuedState r.agent.state = .sleeping
    rw [hr.idle hidle hs hc']
    rfl

/-- What is known of a scheduler in which an agent is to be registered again. -/
structure Restarting (env : Environment) (s : Scheduler) (r : AgentRecord) : Prop where
  available : s.Available
  invariant : Invariant env s
  absent : s.agents.get? r.agentId = none
  stored : stored env s r.agentId = some r.checkpoint

/-- Registration reconciles the restored record. -/
theorem register_eq_restored (hr : r.Savable) (hs : Restarting env s r) {attached : AgentState}
    (hatt : attached = .ready ∨ attached = .sleeping) :
    ∃ pending : OrderedMap PendingOperation.operationId,
      pending.entries = numbered s.controllers r.pendingOperations ∧
      register env ⟨r.agentId, attached⟩ s =
        reconcile env (restored r ⟨r.agentId, attached⟩ pending)
          ((s.reopened r).put (restored r ⟨r.agentId, attached⟩ pending)) := by
  have hops := map_operation_numbered s.controllers r.pendingOperations
  obtain ⟨pending, hp, -⟩ := record_checkpoint (r := r) ⟨r.agentId, attached⟩ hr.toConsistent hops
  refine ⟨pending, hp, eq_of_wp ?_⟩
  have hpos : positiveInteger r.agentId "agentId" = pure () := if_pos hr.id
  have hhas : s.agents.has r.agentId = false := by
    rw [OrderedMap.has, hs.absent]
    rfl
  have hstate : ¬(attached ≠ .ready ∧ attached ≠ .sleeping) := by tauto
  unfold register
  simp only [hpos, hhas, hstate, wp_bind, wp_pure, wp_get, Bool.false_eq_true, if_false]
  refine wp_load ?_
  rw [hs.stored]
  simp only [wp_bind]
  refine @wp_restoreRecord _ _ ⟨r.agentId, attached⟩ _ _ hr.toConsistent rfl fun pending' hp' => ?_
  obtain rfl : pending' = pending := OrderedMap.ext (hp'.trans hp.symm)
  rw [wp_update]
  exact wp_result rfl

/-- Registration ends as `reconcile` of the saved record does. -/
theorem register_eq_reconcile (hr : r.Savable) (hs : Restarting env s r) {attached : AgentState}
    {needsRun : Bool} (hatt : attached = attachState (some r.checkpoint) needsRun) :
    register env ⟨r.agentId, attached⟩ s =
      reconcile env (r.checkpoint.savedRecord s.controllers attached)
        (s.withSaved r.checkpoint attached) := by
  have hor : attached = .ready ∨ attached = .sleeping := by
    rw [hatt]
    unfold attachState
    split_ifs <;> simp
  -- Registration puts back the record of the checkpoint, in the state that it is attached with.
  obtain ⟨pending, hp, heq⟩ := register_eq_restored hr hs hor
  have hsize := size_eq_of_numbered hp
  have hsaved := @savedRecord_checkpoint _ hr attached _ _ hp
  have hsched : s.withSaved r.checkpoint attached =
      (s.reopened r).put ((restored r ⟨r.agentId, attached⟩ pending).inState
        (requeuedState r.agent.state)) := by
    have hreopen : s.reopened (r.checkpoint.savedRecord s.controllers attached) =
        s.reopened r := by
      rw [hsaved]
      unfold Scheduler.reopened
      have hsize' : ((restored r ⟨r.agentId, attached⟩ pending).inState
          (requeuedState r.agent.state)).pending.size = r.pending.size := hsize
      rw [hsize']
      rfl
    unfold Scheduler.withSaved
    rw [hreopen, hsaved]
  have hrec : (restored r ⟨r.agentId, attached⟩ pending).Reconcilable _ :=
    reconcilable_reopened hr rfl hp hatt (hs.invariant.absent _ hs.absent)
  have hself : (restored r ⟨r.agentId, attached⟩ pending).inState attached =
      restored r ⟨r.agentId, attached⟩ pending := inState_self rfl
  rw [heq, hsaved, hsched, ← hself]
  refine reconcile_inState (r := restored r ⟨r.agentId, attached⟩ pending) ?_ rfl (fun hsus => ?_)
    fun hsus => canWait_saved hr hsize hsus
  · exact hs.available
  · rw [hself]
    exact canWait_of_reconcilable hrec hsus

/-! ## Nothing is lost -/

/-- The identifiers of the events that a checkpoint holds or remembers. -/
def AgentSchedulerCheckpoint.eventIds (c : AgentSchedulerCheckpoint) : List String :=
  c.recentEventIds ++ (c.pendingEvents ++
    (c.batch.map AgentDispatchBatch.events).getD []).map AgentWakeEvent.eventId

/-- The record with which an agent goes on after a restart at the time `now`. -/
structure Recovered (c : AgentSchedulerCheckpoint) (now : ℕ) (r : AgentRecord) : Prop where
  pending : r.pendingOperations = c.pendingOperations
  /-- A run that was in progress is gone; its batch is to be taken again. -/
  run : r.run = none
  /-- The batch is the same. Without one, the collected results and events are still collected, or
  they are those of a new batch. -/
  contents : (r.batch = c.batch ∧ r.completed.entries = c.completedResults ∧
      r.events.entries = c.pendingEvents) ∨
    (c.batch = none ∧ r.completed = .empty ∧ r.events = .empty ∧
      ∃ batch, r.batch = some batch ∧ batch.results = c.completedResults ∧
        batch.events = c.pendingEvents)
  suspension : r.suspension = c.suspension ∨
    ∃ suspension, c.suspension = some suspension ∧ Overdue suspension now ∧ r.suspension = none
  recent : r.recentEvents.entries = c.recentEventIds
  state : r.agent.state = r.phase

/-- What `reconcile` makes of a restored record. -/
theorem recovered_of_carried {q : AgentRecord} {attached : AgentState} {now : ℕ}
    {pending : OrderedMap PendingOperation.operationId} (hr : r.Savable)
    (hp : pending.entries.map PendingOperation.operation = r.pendingOperations)
    (hc : Carried (restored r ⟨r.agentId, attached⟩ pending) q)
    (hkept : ∀ suspension, r.suspension = some suspension → ¬Overdue suspension now →
      q.suspension = some suspension) (hstate : q.agent.state = q.phase) :
    Recovered r.checkpoint now q where
  pending := by
    rw [pendingOperations, hc.pending]
    exact hp
  run := hc.run
  contents := by
    rw [batch_checkpoint hr.toConsistent]
    -- A batch is the one restored, or is sealed of what was restored.
    rcases hc.contents with ⟨hcol, hev, hb⟩ | ⟨hb, hcol, hev, hnew⟩
    · refine .inl ⟨hb, ?_, ?_⟩
      · rw [hcol]
        rfl
      · rw [hev]
        rfl
    · exact .inr ⟨hb, hcol, hev, hnew⟩
  suspension := by
    show q.suspension = r.suspension ∨ ∃ suspension, r.suspension = some suspension ∧
      Overdue suspension now ∧ q.suspension = none
    -- A suspension is kept until it is due.
    cases hs : r.suspension with
    | none =>
      left
      rcases hc.suspension with hsus | hsus
      · exact hsus.trans hs
      · exact hsus
    | some suspension =>
      by_cases hdue : Overdue suspension now
      · rcases hc.suspension with hsus | hsus
        · exact .inl (hsus.trans hs)
        · exact .inr ⟨suspension, rfl, hdue, hsus⟩
      · exact .inl (hkept suspension hs hdue)
  recent := by
    rw [hc.recentEvents]
    rfl
  state := hstate

/-- An event that was saved is known after a restart. -/
theorem Recovered.knows {c : AgentSchedulerCheckpoint} {now : ℕ} (h : Recovered c now r)
    {eventId : String} (hid : eventId ∈ c.eventIds) : r.knows eventId = true := by
  have hmapped : ∀ events : OrderedMap AgentWakeEvent.eventId,
      eventId ∈ events.entries.map AgentWakeEvent.eventId → events.has eventId = true :=
    fun events hmem => OrderedMap.get?_isSome_iff.mpr hmem
  have hlisted : ∀ events : List AgentWakeEvent,
      eventId ∈ events.map AgentWakeEvent.eventId →
        events.any (fun e => e.eventId = eventId) = true := by
    intro events hmem
    obtain ⟨e, he, heq⟩ := List.mem_map.mp hmem
    exact List.any_eq_true.mpr ⟨e, he, decide_eq_true heq⟩
  unfold AgentRecord.knows
  simp only [Bool.or_eq_true]
  rw [AgentSchedulerCheckpoint.eventIds, List.map_append, List.mem_append, List.mem_append] at hid
  rcases hid with hrecent | hbuffered | hbatch
  · refine .inl (.inl (OrderedMap.get?_isSome_iff.mpr ?_))
    rw [← h.recent] at hrecent
    simpa [OrderedMap.keys] using hrecent
  · rcases h.contents with ⟨-, -, hev⟩ | ⟨-, -, -, batch, hb, -, hev⟩
    · exact .inl (.inr (hmapped _ (hev ▸ hbuffered)))
    · refine .inr (hlisted _ ?_)
      simp only [batchEvents, hb, Option.map_some, Option.getD_some, hev]
      exact hbuffered
  · rcases h.contents with ⟨hb, -, -⟩ | ⟨hb, -⟩
    · refine .inr (hlisted _ ?_)
      rw [batchEvents, hb]
      exact hbatch
    · simp [hb] at hbatch

/-- An event that the agent knows is rejected. -/
theorem notify_of_knows {agentId : AgentId} {event : AgentWakeEvent} (hs : s.Available)
    (hr : s.agents.get? agentId = some r) (hid : isBlank event.eventId = false)
    (href : isBlank event.eventRef = false) (hknows : r.knows event.eventId = true) :
    notify env agentId event s = .ok false s := by
  have hidOk : nonempty event.eventId "eventId" = pure () := if_neg (by simp [hid])
  have hrefOk : nonempty event.eventRef "eventRef" = pure () := if_neg (by simp [href])
  refine eq_of_wp ?_
  unfold notify
  rw [wp_bind]
  refine wp_recordOf_of_get? hr (fun _ => ?_) (fun c m hc => ?_) (fun e he => ?_)
  · simp only [hidOk, hrefOk, wp_bind, wp_pure, hknows, if_true]
  · rw [hs.1] at hc
    cases hc
  · rw [hs.2] at he
    cases he

/-- Registering an agent again, in a scheduler whose store accepts every save. -/
theorem restart (hr : r.Savable) (hs : Restarting env s r) (hsave : ∀ n, env.refusal n = none)
    {attached : AgentState} {needsRun : Bool}
    (hatt : attached = attachState (some r.checkpoint) needsRun) :
    ∃ t q, register env ⟨r.agentId, attached⟩ s = .ok () t ∧ t.Available ∧
      t.agents.get? r.agentId = some q ∧ Recovered r.checkpoint (env.clock s.readings) q := by
  have hor : attached = .ready ∨ attached = .sleeping := by
    rw [hatt]
    unfold attachState
    split_ifs <;> simp
  obtain ⟨pending, hp, heq⟩ := register_eq_restored hr hs hor
  have hops : pending.entries.map PendingOperation.operation = r.pendingOperations := by
    rw [hp, map_operation_numbered]
  have ho : Open s ((s.reopened r).put (restored r ⟨r.agentId, attached⟩ pending))
      (restored r ⟨r.agentId, attached⟩ pending) := .reopened hs.available rfl
  have hrec : (restored r ⟨r.agentId, attached⟩ pending).Reconcilable _ :=
    reconcilable_reopened hr rfl hp hatt (hs.invariant.absent _ hs.absent)
  -- The record comes to rest, its contents are carried, and a pause is kept.
  have hpaused : wp (reconcile env (restored r ⟨r.agentId, attached⟩ pending))
      (fun _ t => ∀ suspension, r.suspension = some suspension →
        ¬Overdue suspension (env.clock s.readings) →
        Held s (fun q => q.suspension = some suspension) t) (fun _ _ => True)
      ((s.reopened r).put (restored r ⟨r.agentId, attached⟩ pending)) := by
    cases hsus : r.suspension with
    | none =>
      refine wp_mono (wp_reconcile_carried ho.toTouched) ?_ fun _ _ _ => trivial
      intro _ _ _ suspension h
      cases h
    | some suspension =>
      by_cases hdue : Overdue suspension (env.clock s.readings)
      · refine wp_mono (wp_reconcile_carried ho.toTouched) ?_ fun _ _ _ => trivial
        intro _ _ _ suspension' h hnot
        obtain rfl := Option.some.inj h
        exact absurd hdue hnot
      · refine wp_mono (wp_reconcile_paused ho.toTouched hsus hdue) ?_ fun _ _ _ => trivial
        intro _ t h suspension' h' _
        obtain rfl := Option.some.inj h'
        exact h
  have hall := wp_and (wp_and (wp_reconcile ho hrec) (wp_reconcile_carried ho.toTouched)) hpaused
  rw [heq]
  cases hres : reconcile env (restored r ⟨r.agentId, attached⟩ pending)
      ((s.reopened r).put (restored r ⟨r.agentId, attached⟩ pending)) with
  | error e t =>
    obtain ⟨⟨hb, -⟩, -⟩ := wp_error hall hres
    obtain ⟨n, message, hn, -⟩ := hb.refused
    rw [hsave n] at hn
    cases hn
  | ok a t =>
    obtain ⟨⟨⟨q, hat, -, hid⟩, q', ht, hc⟩, hpause⟩ := wp_ok hall hres
    have hid' : q.agentId = r.agentId := hid
    obtain ⟨timer, hself⟩ := hat.get?_self
    rw [hid'] at hself
    have hcq : q'.agentId = r.agentId := hc.agentId
    -- What is known of the record in two ways is known of the record that is found.
    have hsame : ∀ q'', Touched s t q'' → q''.agentId = r.agentId →
        ∃ timer', ({ q'' with timer := timer' } : AgentRecord) = { q with timer } := by
      intro q'' h'' hid''
      obtain ⟨timer', hself'⟩ := h''.get?_self
      rw [hid''] at hself'
      exact ⟨timer', Option.some.inj (hself'.symm.trans hself)⟩
    obtain ⟨timer', hq'⟩ := hsame q' ht hcq
    have hcarried : Carried (restored r ⟨r.agentId, attached⟩ pending) { q with timer } := by
      rw [← hq']
      exact hc.same ⟨rfl, rfl, rfl, rfl, rfl, rfl, rfl, .inl rfl⟩
    refine ⟨t, { q with timer }, rfl, hat.available, hself,
      recovered_of_carried hr hops hcarried (fun suspension hsus hdue => ?_) ?_⟩
    · obtain ⟨q'', h'', hsus''⟩ := hpause suspension hsus hdue
      have hid'' : q''.agentId = r.agentId := by
        by_contra hne
        have hg := h''.get?_of_ne (Ne.symm hne)
        rw [hself, hs.absent] at hg
        cases hg
      obtain ⟨timer'', hq''⟩ := hsame q'' h'' hid''
      have := congrArg AgentRecord.suspension hq''
      exact this.symm.trans hsus''
    · exact hat.settled.state

/-- A crash after any save that a scheduler made, and the registration of the agent in a new
scheduler from that checkpoint: registration does not throw, it ends as `reconcile` of the saved
record does, nothing that was saved is lost or doubled, and a saved event is still rejected. -/
theorem restart_of_reachable
    (hs : (system env (fun saves => ∀ c ∈ saves, c.Restorable) (Attached env)).Reachable s)
    {c : AgentSchedulerCheckpoint} (hc : c ∈ s.saves) {env' : Environment}
    (hpersistent : env'.persistent = true) (hsave : ∀ n, env'.refusal n = none)
    {saves : List AgentSchedulerCheckpoint} (hlatest : latest saves c.agentId = some c)
    (needsRun : Bool) :
    ∃ t q, register env' ⟨c.agentId, attachState (some c) needsRun⟩ (.initial saves) = .ok () t ∧
      reconcile env' (c.savedRecord 0 (attachState (some c) needsRun))
        ((Scheduler.initial saves).withSaved c (attachState (some c) needsRun)) = .ok () t ∧
      t.agents.get? c.agentId = some q ∧ Recovered c (env'.clock 0) q ∧
      ∀ event, event.eventId ∈ c.eventIds → isBlank event.eventId = false →
        isBlank event.eventRef = false → notify env' c.agentId event t = .ok false t := by
  obtain ⟨r, hr, rfl⟩ := (restorable_of_reachable hs).1 c hc
  have hstored : stored env' (.initial saves) r.agentId = some r.checkpoint := by
    rw [stored, if_pos hpersistent]
    exact hlatest
  have hfresh : Restarting env' (.initial saves) r :=
    ⟨⟨rfl, rfl⟩, invariant_initial env' saves, rfl, hstored⟩
  obtain ⟨t, q, hreg, havail, hget, hrec⟩ :=
    @restart _ _ _ hr hfresh hsave _ needsRun rfl
  refine ⟨t, q, hreg, ?_, hget, hrec, fun event hmem hid href => ?_⟩
  · rw [← hreg]
    exact (register_eq_reconcile hr hfresh rfl).symm
  · exact notify_of_knows havail hget hid href (hrec.knows hmem)

/-- A crash after the batch of an agent was taken. -/
theorem restart_afterTaking : ∃ c ∈ afterTaking.saves, c.running.isSome = true ∧
    ∃ t q, register quietEnvironment ⟨c.agentId, attachState (some c) false⟩
        (.initial afterTaking.saves) = .ok () t ∧
      reconcile quietEnvironment (c.savedRecord 0 (attachState (some c) false))
        ((Scheduler.initial afterTaking.saves).withSaved c (attachState (some c) false)) =
          .ok () t ∧
      t.agents.get? c.agentId = some q ∧ Recovered c (quietEnvironment.clock 0) q ∧
      ∀ event, event.eventId ∈ c.eventIds → isBlank event.eventId = false →
        isBlank event.eventRef = false →
          notify quietEnvironment c.agentId event t = .ok false t := by
  have hreach : (system quietEnvironment (fun saves => ∀ c ∈ saves, c.Restorable)
      (Attached quietEnvironment)).Reachable afterTaking := by
    refine .step (.step (.of_init ⟨[], fun _ h => (by cases h), rfl⟩)
      ⟨.register ⟨1, .ready⟩, fun agent h c hc => ?_, rfl⟩)
      ⟨.takeNextRun, fun _ h => (by cases h), rfl⟩
    obtain rfl := Operation.register.inj h
    cases hc
  have hrunning : ((latest afterTaking.saves 1).bind
      (fun c => c.running)).isSome = true := by decide
  obtain ⟨run, hrun⟩ := Option.isSome_iff_exists.mp hrunning
  obtain ⟨c, hc, hrun⟩ := Option.bind_eq_some_iff.mp hrun
  obtain ⟨hmem, hid⟩ := mem_of_latest hc
  refine ⟨c, hmem, Option.isSome_iff_exists.mpr ⟨run, hrun⟩, ?_⟩
  exact restart_of_reachable hreach hmem rfl (fun _ => rfl) (hid ▸ hc) false

end OsAgent.AgentScheduler
