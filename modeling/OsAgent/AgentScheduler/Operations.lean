import OsAgent.AgentScheduler.Invariant
import Mathlib.Tactic.Common
import Mathlib.Tactic.SplitIfs

/-!
# The operations keep the invariant

One rule for each operation of the scheduler: started between two operations, it ends with the
invariant, or a save was refused. Where it throws, the error is one of the scheduler's own or the
store's, and never that of the control block.
-/

namespace OsAgent.AgentScheduler

open OsAgent.Library OsAgent.ControlBlock AgentRecord

variable {env : Environment} {s t : Scheduler} {r : AgentRecord}

/-! ## The beginnings and ends of operations -/

/-- An operation that begins by finding the record of an agent. -/
theorem wp_recordOf_kept {α : Type} {f : AgentRecord → M α} {Q : α → Scheduler → Prop}
    {id : AgentId} (hi : Invariant env s) (ha : s.Available)
    (hf : ∀ r, s.agents.get? r.agentId = some r → r.agentId = id →
      wp (f r) Q (Stopped env s) s) :
    wp (recordOf id >>= f) Q (Stopped env s) s := by
  rw [wp_bind]
  refine wp_recordOf (fun r _ hr => ?_) (fun c m => .refl hi ha c m) (fun e he => ?_)
  · have hk : r.agentId = id := OrderedMap.key_of_get? hr
    exact hf r (hk ▸ hr) hk
  · rw [ha.2] at he
    cases he

/-- An operation that begins by checking a run. -/
theorem wp_activeRecord_kept {α : Type} {f : AgentRecord → M α} {Q : α → Scheduler → Prop}
    {run : AgentRun} (hi : Invariant env s) (ha : s.Available)
    (hf : ∀ r current, s.agents.get? r.agentId = some r → r.agentId = run.agentId →
      r.run = some current → r.agent.state = .running → wp (f r) Q (Stopped env s) s) :
    wp (activeRecord run >>= f) Q (Stopped env s) s := by
  rw [wp_bind]
  unfold activeRecord
  refine wp_recordOf_kept hi ha fun r hr hid => ?_
  cases hrun : r.run with
  | none => exact .refl hi ha _ _
  | some current =>
    simp only [wp_ite, wp_bind, wp_fail, wp_pure]
    split_ifs with h1 h2
    · exact .refl hi ha _ _
    · exact .refl hi ha _ _
    · exact hf r current hr hid hrun (by simpa using h2)

/-- Releasing the waiters at the end of an operation. -/
theorem wp_signalReady_kept (h : Kept env s t) :
    wp (signalReady env) (fun _ => Kept env s) (Stopped env s) t :=
  wp_signalReady fun _ => h.congr rfl rfl rfl rfl rfl rfl

/-- Drawing changes nothing that the invariant mentions. -/
theorem Kept.drawn {t' : Scheduler} (h : Kept env s t) (hd : Drawn t t') : Kept env s t' :=
  h.congr hd.agents hd.queue hd.running hd.failure hd.closed hd.saves

/-! ## Events -/

/-- `notify` keeps the invariant. -/
theorem wp_notify {agentId : AgentId} {event : AgentWakeEvent} (hi : Invariant env s)
    (ha : s.Available) :
    wp (notify env agentId event) (fun _ => Kept env s) (Stopped env s) s := by
  unfold notify
  refine wp_recordOf_kept hi ha fun r hr hid => ?_
  have hset := hi.settled _ r hr
  rw [wp_bind]
  refine wp_nonempty (fun _ => ?_) (fun c m => .refl hi ha c m)
  rw [wp_bind]
  refine wp_nonempty (fun _ => ?_) (fun c m => .refl hi ha c m)
  simp only [wp_ite, wp_bind, wp_fail, wp_pure, wp_update]
  split_ifs with hknown hcap
  · exact .refl hi ha
  · exact .refl hi ha _ _
  · refine wp_mono (wp_reconcile_of_run_eq hi hr ((Open.start ha hr).put _ rfl) ?_ rfl rfl)
      (fun _ _ h => h) (fun _ _ h => .broken h)
    have hev : (r.withEvent event env.configuration.recentEventLimit.val).events.size ≠ 0 :=
      Nat.pos_iff_ne_zero.mp (OrderedMap.size_insert_pos r.events event)
    exact { id := hset.id, run := hset.run, due := hset.due,
            running := hset.reconcilable.running, places := hset.places,
            waiting := fun _ _ _ he => absurd he hev
            idle := fun h => absurd (isIdle_iff.mp h).2.2.2 hev }

/-! ## Results -/

/-- A record in which results were collected: the same record, or one with results to deliver. -/
def Collects (r r' : AgentRecord) : Prop :=
  r' = r ∨ ∃ pending completed due,
    r' = { r with pending, completed, batchDueAt := some due } ∧
      pending.size ≤ r.pending.size ∧ 0 < completed.size

/-- Collecting one more result. -/
theorem Collects.withResult {r' : AgentRecord} (h : Collects r r') (item : PendingOperation)
    (outcome : AsyncOperationOutcome) (now window : ℕ) :
    Collects r (r'.withResult item outcome now window) := by
  rcases h with rfl | ⟨pending, completed, due, rfl, hp, -⟩
  · refine .inr ⟨_, _, r'.batchDueAt.getD (now + window), rfl, ?_, ?_⟩
    · exact OrderedMap.size_delete_le ..
    · exact OrderedMap.size_insert_pos ..
  · refine .inr ⟨_, _, due, rfl, ?_, ?_⟩
    · exact Nat.le_trans (OrderedMap.size_delete_le ..) hp
    · exact OrderedMap.size_insert_pos ..

/-- Collecting results leaves a record that can be reconciled. -/
theorem Collects.reconcilable {r' : AgentRecord} {count : ℕ} (h : Collects r r')
    (hr : r.Settled count) : r'.Reconcilable count := by
  rcases h with rfl | ⟨pending, completed, due, rfl, hp, hc⟩
  · exact hr.reconcilable
  · refine { id := hr.id, run := hr.run, due := by simp [hc], running := hr.reconcilable.running,
             places := hr.places, waiting := fun hb hs _ _ hp' => ?_, idle := fun h => ?_ }
    · have hpos : 0 < r.pending.size := Nat.lt_of_lt_of_le hp' hp
      have hst := hr.state
      rw [hr.phase_eq hb hs, if_pos hpos] at hst
      intro hsl
      exact absurd (hst.symm.trans hsl) (by decide)
    · have := (isIdle_iff.mp h).2.2.1
      simp only at this
      omega

/-- Collecting results does not touch the run. -/
theorem Collects.run_eq {r' : AgentRecord} (h : Collects r r') :
    r'.run = r.run ∧ r'.agentId = r.agentId := by
  rcases h with rfl | ⟨pending, completed, due, rfl, -, -⟩ <;> exact ⟨rfl, rfl⟩

/-- The end of an operation that has collected results. -/
theorem wp_reconcile_collected {r' : AgentRecord} (hi : Invariant env s)
    (hr : s.agents.get? r.agentId = some r) (hc : Collects r r') (h : Open s t r')
    (hq : t.queue.count r.agentId = s.queue.count r.agentId) :
    wp (reconcile env r') (fun _ => Kept env s) (Broken env s) t := by
  obtain ⟨hrun, hid⟩ := hc.run_eq
  refine wp_reconcile_of_run_eq hi hr h ?_ hid hrun
  rw [hid, hq]
  exact hc.reconcilable (hi.settled _ r hr)

/-- `completeOperation` keeps the invariant. -/
theorem wp_completeOperation {operation : AsyncOperation} {outcome : AsyncOperationOutcome}
    (hi : Invariant env s) (ha : s.Available) :
    wp (completeOperation env operation outcome) (fun _ => Kept env s) (Stopped env s) s := by
  unfold completeOperation
  rw [wp_bind, wp_get]
  cases hr : s.agents.get? operation.agentId with
  | none => exact .refl hi ha
  | some r =>
    have hk : r.agentId = operation.agentId := OrderedMap.key_of_get? hr
    have hr' : s.agents.get? r.agentId = some r := hk ▸ hr
    simp only
    cases hp : r.pending.get? operation.operationId with
    | none => exact .refl hi ha
    | some item =>
      simp only [wp_ite, wp_pure]
      split_ifs with horigin
      · exact .refl hi ha
      · rw [wp_bind]
        refine wp_copyOutcome ?_ (fun c m => .refl hi ha c m)
        unfold recordResult
        simp only [wp_bind, wp_now, wp_update, wp_ite, wp_pure]
        refine wp_mono (wp_reconcile_collected hi hr' (Collects.withResult (.inl rfl) _ _ _ _)
          (((Open.start ha hr').read _).put _ rfl) rfl) ?_ fun _ _ h => .broken h
        intro _ t' hkept
        split_ifs
        · exact wp_abort fun _ => hkept.congr rfl rfl rfl rfl rfl rfl
        · exact hkept

/-- Cancelling a list of operations collects their results. -/
theorem wp_cancelEach {E : Fault → Scheduler → Prop} {r' : AgentRecord} {reason : String}
    {items : List PendingOperation} (h : Open s t r') (hc : Collects r r') :
    wp (cancelEach env r' reason items)
      (fun r'' t' => Open s t' r'' ∧ Collects r r'' ∧ t'.queue = t.queue) E t := by
  induction items generalizing t r' with
  | nil => exact ⟨h, hc, rfl⟩
  | cons item rest ih =>
    unfold cancelEach recordResult
    simp only [wp_bind, wp_now, wp_update, wp_pure]
    exact ih ((h.read _).put _ rfl) (hc.withResult ..)

/-- Recording the timeouts of a list of operations collects their results. -/
theorem wp_expireEach {E : Fault → Scheduler → Prop} {r' : AgentRecord} {now : ℕ}
    {items : List PendingOperation} (h : Open s t r') (hc : Collects r r') :
    wp (expireEach env r' now items)
      (fun r'' t' => Open s t' r'' ∧ Collects r r'' ∧ t'.queue = t.queue) E t := by
  induction items generalizing t r' with
  | nil => exact ⟨h, hc, rfl⟩
  | cons item rest ih =>
    unfold expireEach recordResult
    simp only [wp_bind, wp_ite, wp_update, wp_pure]
    split_ifs
    · exact ih (h.put _ rfl) (hc.withResult ..)
    · exact ih h hc

/-- `cancelOperations` keeps the invariant. -/
theorem wp_cancelOperations {agentId : AgentId} {reason : String} (hi : Invariant env s)
    (ha : s.Available) :
    wp (cancelOperations env agentId reason) (fun _ => Kept env s) (Stopped env s) s := by
  unfold cancelOperations
  refine wp_recordOf_kept hi ha fun r hr hid => ?_
  refine wp_bind_of (wp_cancelEach (Open.start ha hr) (.inl rfl)) ?_ fun _ _ he => he
  rintro r' t ⟨ho, hc, hq⟩
  refine wp_bind_of (wp_reconcile_collected hi hr hc ho (by rw [hq])) ?_ fun _ _ he => .broken he
  intro _ t' hkept
  exact wp_mono wp_abortAll (fun _ _ hd => hkept.drawn hd) fun _ _ he => he

/-- A timer's callback that is not stopped by the store keeps the invariant. -/
theorem wp_onTimer (hi : Invariant env s) (ha : s.Available)
    (hr : s.agents.get? r.agentId = some r) :
    wp (onTimer env r) (fun _ => Kept env s) (Broken env s) s := by
  unfold onTimer
  simp only [wp_bind, wp_get, wp_ite, ha.1, ha.2, wp_update, wp_now, Bool.false_eq_true,
    Option.isSome_none, or_self, if_false]
  have hr' : r.clearTimeout.Settled (s.queue.count r.agentId) :=
    (hi.settled _ r hr).of_clearTimeout rfl
  have ho : Open s (s.put r.clearTimeout) r.clearTimeout := (Open.start ha hr).put _ rfl
  refine wp_mono (wp_expireEach (ho.read _) (.inl rfl)) ?_ fun _ _ he => he
  rintro r' t ⟨ho', hc, hq⟩
  obtain ⟨hrun, hid⟩ := hc.run_eq
  have hrec : r'.Reconcilable (t.queue.count r'.agentId) := by
    rw [hq, hid]
    exact hc.reconcilable hr'
  refine wp_mono (wp_reconcile_of_run_eq hi hr ho' hrec hid hrun) ?_ fun _ _ he => he
  intro _ t' hkept
  exact wp_mono wp_abortAll (fun _ _ hd => hkept.drawn hd) fun _ _ he => he

/-- A timer that fires keeps the invariant, or the store refuses a save. -/
theorem wp_fireTimer {agentId : AgentId} {E : Fault → Scheduler → Prop} (hi : Invariant env s)
    (ha : s.Available) :
    wp (fireTimer env agentId) (fun _ t => Kept env s t ∨ ∃ e, Broken env s e t) E s := by
  unfold fireTimer
  rw [wp_bind, wp_get]
  cases hr : s.agents.get? agentId with
  | none => exact .inl (.refl hi ha)
  | some r =>
    have hk : r.agentId = agentId := OrderedMap.key_of_get? hr
    simp only [wp_ite, wp_pure]
    split_ifs
    · exact .inl (.refl hi ha)
    · rw [wp_tryCatch]
      refine wp_mono (wp_onTimer hi ha (hk ▸ hr)) (fun _ _ h => .inl h) ?_
      intro e t hbroken
      refine .inr ⟨e, hbroken.refused, ?_, hbroken.saves⟩
      simp [hbroken.failure]

/-! ## Runs -/

/-- A record at rest whose agent is in the queue can be taken. -/
theorem settled_of_count_pos {count : ℕ} (h : r.Settled count) (hc : 0 < count) :
    count = 1 ∧ r.agent.state = .ready ∧ r.run = none ∧ r.suspension = none ∧
      r.batch.isSome := by
  have hp : 0 < r.places := h.places ▸ hc
  unfold places at hp
  have hcond : r.batch.isSome ∧ r.run.isNone ∧ r.suspension.isNone := by
    by_contra hcond
    rw [if_neg hcond] at hp
    omega
  obtain ⟨hb, hrun, hs⟩ := hcond
  simp only [Option.isNone_iff_eq_none] at hrun hs
  refine ⟨?_, ?_, hrun, hs, hb⟩
  · simp [h.places, places, hb, hrun, hs]
  · simp [h.state, phase, hrun, hs, hb]

/-- A record with a run is not in the queue. -/
theorem count_eq_zero_of_run {count : ℕ} (h : r.Settled count) {run : AgentRun}
    (hrun : r.run = some run) : count = 0 := by
  simp [h.places, places, hrun]

/-- The record of an agent whose batch was taken is at rest. -/
theorem settled_withRun {count : ℕ} (h : r.Settled count) (runId : String)
    {batch : AgentDispatchBatch} (hb : r.batch = some batch) :
    ((r.inState .running).withRun (some { agentId := r.agentId, runId, batch })).Settled 0 where
  id := h.id
  run run hrun := by
    obtain rfl := Option.some.inj hrun
    exact ⟨rfl, hb⟩
  due := h.due
  state := by simp [inState, phase, withRun]
  places := by simp [places, withRun]
  rested h := by cases h

/-- `takeNextRun` keeps the invariant: the agent at the head of the queue has a batch to take. -/
theorem wp_takeNextRun (hi : Invariant env s) (ha : s.Available) :
    wp (takeNextRun env) (fun _ => Kept env s) (Stopped env s) s := by
  unfold takeNextRun
  rw [wp_bind]
  refine wp_available (fun _ => ?_) (fun c m hc => by simp [ha.1] at hc)
    (fun e he => by simp [ha.2] at he)
  simp only [wp_bind, wp_get, wp_ite, wp_pure]
  -- Without capacity, or with an empty queue, nothing happens.
  split_ifs with hcap
  · exact .refl hi ha
  · cases hq : s.queue with
    | nil => exact .refl hi ha
    | cons agentId rest =>
      refine wp_recordOf_kept hi ha fun r hr hid => ?_
      subst hid
      have hset := hi.settled _ r hr
      -- The head of the queue is ready, with a batch and without a run.
      obtain ⟨hone, hstate, hrun, hsus, hbatch⟩ := settled_of_count_pos hset (by simp [hq])
      obtain ⟨batch, hb⟩ := Option.isSome_iff_exists.mp hbatch
      simp only [hb, hrun, wp_bind, wp_randomUUID]
      refine wp_transition (fun _ => ?_) (fun hno => ?_)
      · have hset' := settled_withRun hset (env.uuid s.draws) hb
        have hbase : Open { s with running := s.running + 1 } { s with running := s.running + 1 }
            r := Open.start ha hr
        -- The run is written into the record, which leaves the queue.
        have ho := ((hbase.draw.put (r.inState .running) rfl).put _
            (show ((r.inState .running).withRun (some
              { agentId := r.agentId, runId := env.uuid s.draws, batch })).agentId = _ from
              rfl)).requeue s.queue.tail fun id hid => by
          have hne : ¬r.agentId = id := fun h => hid h.symm
          show s.queue.tail.count id = s.queue.count id
          simp [hq, hne]
        have hpersist := @wp_persist_open env _ _ _ ho hset'.savable
        simp only [wp_update, wp_modify]
        refine wp_mono hpersist ?_ fun e t h => .broken ⟨h.refused, h.failure, h.saves⟩
        rintro _ t ⟨ho', hq', hsaved⟩
        -- The agent is in the queue once, so not in its rest.
        have hz : s.queue.tail.count r.agentId = 0 := by
          rw [hq] at hone ⊢
          simpa using hone
        have hat := AtRest.mk ho' (hq' ▸ hz ▸ hset') hsaved
        refine hat.kept hi (runs_registered hr rfl) ?_ ?_
        · simp [runs, hrun, withRun]
        · simp only [hasCapacity, Bool.not_eq_true', decide_eq_false_iff_not, not_not] at hcap
          show s.running + 1 ≤ _
          omega
      · -- A ready agent may become running.
        simp [hstate, canAgentTransition, transitions] at hno

/-- `finishRun` keeps the invariant. -/
theorem wp_finishRun {run : AgentRun} {intent : AgentRunIntent} (hi : Invariant env s)
    (ha : s.Available) :
    wp (finishRun env run intent) (fun _ => Kept env s) (Stopped env s) s := by
  unfold finishRun
  refine wp_activeRecord_kept hi ha fun r current hr hid hrun hstate => ?_
  have hset := hi.settled _ r hr
  have hbase : Open { s with running := s.running - 1 } { s with running := s.running - 1 } r :=
    Open.start ha hr
  have hrec : (r.finished intent).Reconcilable (s.queue.count r.agentId) := by
    refine { id := hset.id, run := fun _ h => (by cases h), due := hset.due
             running := fun h => (by cases h), places := ?_, waiting := fun _ _ _ _ _ => ?_
             idle := fun _ _ _ => .inl hstate }
    · simp [count_eq_zero_of_run hset hrun, places, finished]
    · simp [finished, hstate]
  simp only [wp_bind, wp_update, wp_modify]
  refine wp_mono (wp_reconcile_kept hi (hbase.put (r.finished intent) rfl) hrec
    (runs_registered hr rfl) ?_ ?_) ?_
    fun _ _ h => .broken h
  · simp [runs, hrun, finished]
  · have := hi.capacity
    omega
  · exact fun _ t hkept => wp_signalReady_kept hkept

/-- `returnRun` keeps the invariant. -/
theorem wp_returnRun {run : AgentRun} (hi : Invariant env s) (ha : s.Available) :
    wp (returnRun env run) (fun _ => Kept env s) (Stopped env s) s := by
  unfold returnRun
  refine wp_activeRecord_kept hi ha fun r current hr hid hrun hstate => ?_
  have hset := hi.settled _ r hr
  have hbatch := (hset.run current hrun).2
  have hz := count_eq_zero_of_run hset hrun
  rw [wp_bind]
  refine wp_transition (fun _ => ?_) (fun hno => ?_)
  · have hbase : Open { s with running := s.running - 1 } { s with running := s.running - 1 } r :=
      Open.start ha hr
    have ho := (hbase.put (r.inState .ready) rfl).put ((r.inState .ready).withRun none) rfl
    have hidle : ((r.inState .ready).withRun none).isIdle = true → False := by
      intro h
      have hb : r.batch = none := (isIdle_iff.mp h).1
      rw [hbatch] at hb
      cases hb
    -- The returned record is saved first, and then reconciled.
    have hrest : ∀ t : Scheduler, Open { s with running := s.running - 1 } t
        ((r.inState .ready).withRun none) →
        t.queue.count r.agentId = (if r.suspension.isNone then 1 else 0) →
        wp (do
          persist env ((r.inState .ready).withRun none)
          reconcile env ((r.inState .ready).withRun none)
          signalReady env) (fun _ => Kept env s) (Stopped env s) t := by
      intro t ho' hcount
      refine wp_bind_of (wp_persist_open ho' ?_) ?_ fun e t h => .broken
        ⟨h.refused, h.failure, h.saves⟩
      · exact { id := hset.id, run := fun _ h => (by cases h), due := hset.due
                idle := fun h => (hidle h).elim, asleep := fun h => (by cases h) }
      · rintro _ t' ⟨ho'', hq, -⟩
        refine wp_bind_of (wp_reconcile_kept hi ho'' ?_ (runs_registered hr rfl) ?_ ?_) ?_
          fun _ _ h => .broken h
        · refine { id := hset.id, run := fun _ h => (by cases h), due := hset.due
                   running := fun h => (by cases h), places := ?_
                   waiting := fun hb _ _ _ _ => ?_, idle := fun h => (hidle h).elim }
          · rw [hq]
            show t.queue.count r.agentId = _
            simp [hcount, places, withRun, inState, hbatch]
          · have hb' : r.batch = none := hb
            rw [hbatch] at hb'
            cases hb'
        · simp [runs, hrun, withRun]
        · have := hi.capacity
          omega
        · exact fun _ t hkept => wp_signalReady_kept hkept
    simp only [wp_bind, wp_update, wp_modify, wp_ite, wp_pushQueue] at hrest ⊢
    rw [← hid]
    show if r.suspension.isNone = true then _ else _
    by_cases hsus : r.suspension.isNone = true
    · rw [if_pos hsus]
      refine hrest _ ho.push ?_
      show (s.queue ++ [r.agentId]).count r.agentId = _
      rw [List.count_append, hz, if_pos hsus]
      simp
    · rw [if_neg hsus]
      refine hrest _ ho ?_
      rw [if_neg hsus]
      exact hz
  · simp [hstate, canAgentTransition, transitions] at hno

/-- `registerOperations` keeps the invariant. -/
theorem wp_registerOperations {run : AgentRun} {operations : List AsyncOperationOptions}
    (hi : Invariant env s) (ha : s.Available) :
    wp (registerOperations env run operations) (fun _ => Kept env s) (Stopped env s) s := by
  unfold registerOperations
  refine wp_activeRecord_kept hi ha fun r current hr hid hrun hstate => ?_
  have hset := hi.settled _ r hr
  rw [wp_bind, wp_now]
  have hkept : Kept env s { s with readings := s.readings + 1 } :=
    (Kept.refl hi ha).congr rfl rfl rfl rfl rfl rfl
  -- The operations are staged first; one that is invalid refuses them all.
  refine wp_bind_of (wp_stageOperations fun c m t hd => .rejected c m rfl (hkept.drawn hd)) ?_
    fun _ _ he => he
  intro staged t hd
  -- There must be room for all of them.
  by_cases hcap : r.buffered + staged.2.size > env.configuration.maxBufferedOperations.val
  · simp only [if_pos hcap]
    exact .rejected _ _ rfl (hkept.drawn hd)
  · simp only [if_neg hcap]
    -- Staging has changed nothing but draws and controllers.
    have ho : Open s t r :=
      { ((Frame.refl hr).read _).drawn hd with
        available := (hkept.drawn hd).available
        saves := (hkept.drawn hd).saves }
    have ho' := ho.put (r.withStaged staged.2) rfl
    have hsome : r.run.isSome := by simp [hrun]
    have hset' : (r.withStaged staged.2).Settled (t.queue.count r.agentId) := by
      refine { id := hset.id, run := hset.run, due := hset.due, state := ?_, places := ?_
               rested := hset.rested }
      · simp [phase, withStaged, hstate, hsome]
      · rw [hd.queue]
        exact hset.places
    rw [wp_bind, wp_update]
    refine wp_persist_armTimer ho' hset' (fun _ _ h => .broken h) fun t' timer hat => ?_
    exact hat.kept_of_run_eq hi hr rfl rfl

/-! ## Suspension -/

/-- `suspend` keeps the invariant. -/
theorem wp_suspend {agentId : AgentId} {suspension : AgentSuspension} (hi : Invariant env s)
    (ha : s.Available) :
    wp (suspend env agentId suspension) (fun _ => Kept env s) (Stopped env s) s := by
  unfold suspend
  refine wp_recordOf_kept hi ha fun r hr hid => ?_
  subst hid
  have hset := hi.settled _ r hr
  rw [wp_bind]
  refine wp_nonempty (fun _ => ?_) (fun c m => .refl hi ha c m)
  rw [wp_bind]
  refine wp_positiveIntegerIfPresent ?_ (fun c m => .refl hi ha c m)
  rw [wp_bind, wp_update, wp_bind, wp_modify]
  have ho := ((Open.start ha hr).put (r.suspended suspension) rfl).requeue
    (s.queue.erase r.agentId) fun id hid => List.count_erase_of_ne hid
  have hz : (s.queue.erase r.agentId).count r.agentId = 0 := by
    rw [List.count_erase_self, hset.places]
    unfold places
    split_ifs <;> rfl
  have hrec : (r.suspended suspension).Reconcilable
      ((s.queue.erase r.agentId).count r.agentId) := by
    refine { id := hset.id, run := hset.run, due := hset.due, running := hset.reconcilable.running
             places := ?_, waiting := fun _ h => (by cases h), idle := fun _ h => (by cases h) }
    rw [hz]
    simp [places, suspended]
  refine wp_bind_of (@wp_block env _ _ _ ho hrec rfl) ?_ fun _ _ h => .broken h
  rintro r' t ⟨ho', hset', hrun, hid⟩
  refine wp_persist_armTimer ho' hset' (fun _ _ h => .broken h) fun t' timer hat => ?_
  exact hat.kept_of_run_eq hi hr hid hrun

/-- `resume` keeps the invariant. -/
theorem wp_resume {agentId : AgentId} (hi : Invariant env s) (ha : s.Available) :
    wp (resume env agentId) (fun _ => Kept env s) (Stopped env s) s := by
  cases hr : s.agents.get? agentId with
  | none =>
    unfold resume
    refine wp_recordOf_kept hi ha fun r hr' hid => ?_
    rw [hid, hr] at hr'
    cases hr'
  | some r =>
    obtain rfl : r.agentId = agentId := OrderedMap.key_of_get? hr
    by_cases hs : r.suspension.isSome
    · have hrec := (hi.settled _ r hr).reconcilable
      refine wp_mono (wp_resume_suspended (Open.start ha hr) hrec hs) ?_ fun _ _ h => .broken h
      rintro _ t ⟨r', hat, hrun, hid⟩
      exact hat.kept_of_run_eq hi hr hid hrun
    · unfold resume
      refine wp_recordOf_kept hi ha fun r' hr' hid => ?_
      rw [hid, hr] at hr'
      obtain rfl := Option.some.inj hr'
      have hn : r.suspension.isNone := by simpa using hs
      simp only [hn, if_true]
      exact .refl hi ha

/-! ## Registration -/

/-- `unregister` keeps the invariant. -/
theorem wp_unregister {agentId : AgentId} (hi : Invariant env s) (ha : s.Available) :
    wp (unregister agentId) (fun _ => Kept env s) (Stopped env s) s := by
  unfold unregister
  refine wp_recordOf_kept hi ha fun r hr hid => ?_
  subst hid
  simp only [wp_ite, wp_bind, wp_fail, wp_modify]
  split_ifs with hwork
  · exact .refl hi ha _ _
  · simp only [not_or, Bool.not_eq_true, Option.isSome_eq_false_iff, Option.isNone_iff_eq_none]
      at hwork
    obtain ⟨-, -, -, -, hb, hrun⟩ := hwork
    have hset := hi.settled _ r hr
    refine ⟨⟨fun id r' h => ?_, fun id h => ?_, ?_, hi.capacity, fun id r' h => ?_⟩, ha,
      fun _ h => .inl h⟩
    · rw [OrderedMap.get?_delete] at h
      split_ifs at h
      exact hi.settled id r' h
    · rw [OrderedMap.get?_delete] at h
      split_ifs at h with hid
      · subst hid
        simp [hset.places, places, hb]
      · exact hi.absent id h
    · show s.running = runsOf (s.agents.delete r.agentId)
      rw [runsOf_delete hr hrun]
      exact hi.running
    · rw [OrderedMap.get?_delete] at h
      split_ifs at h
      exact hi.saved id r' h

/-! ## Waiting -/

/-- `waitForReady` keeps the invariant. -/
theorem wp_waitForReady {aborted : Bool} {waiter : ℕ} (hi : Invariant env s) (ha : s.Available) :
    wp (waitForReady env aborted waiter) (fun _ => Kept env s) (Stopped env s) s := by
  unfold waitForReady
  rw [wp_bind]
  refine wp_available (fun _ => ?_) (fun c m hc => by simp [ha.1] at hc)
    (fun e he => by simp [ha.2] at he)
  simp only [wp_ite, wp_bind, wp_get, wp_set, wp_pure]
  split_ifs
  · exact .refl hi ha
  · exact .refl hi ha
  · exact (Kept.refl hi ha).congr rfl rfl rfl rfl rfl rfl

end OsAgent.AgentScheduler
