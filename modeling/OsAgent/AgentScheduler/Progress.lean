import OsAgent.AgentScheduler.Delivery
import Mathlib.Tactic.Common
import Mathlib.Tactic.SplitIfs

/-!
# The operations move what the records hold

One rule for each operation, in every state of the scheduler and however the operation ends. All but
four of them only move operations between the places of a record. `takeNextRun` also starts a run,
`registerOperations` and `register` add operations, and `finishRun` hands the results of the batch
to the consumer.
-/

namespace OsAgent.AgentScheduler

open OsAgent.Library OsAgent.ControlBlock AgentRecord

variable {P : AgentRun → Prop} {env : Environment} {s t : Scheduler} {r r' : AgentRecord}

/-! ## Beginnings -/

/-- An operation that begins by finding the record of an agent. -/
theorem ends_recordOf {α : Type} {f : AgentRecord → M α} {id : AgentId} (hs : AllSound s)
    (hf : ∀ r, s.agents.get? r.agentId = some r → r.agentId = id →
      Ends (f r) (Advances P s) s) : Ends (recordOf id >>= f) (Advances P s) s := by
  unfold Ends at *
  rw [wp_bind]
  refine wp_recordOf (fun r _ hr => ?_) (fun _ _ => .refl hs) (fun _ _ => .refl hs)
  have hk : r.agentId = id := OrderedMap.key_of_get? hr
  exact hf r (hk ▸ hr) hk

/-- Checking a run changes nothing, and finds the record whose run it is. -/
theorem wp_activeRecord {Q : AgentRecord → Scheduler → Prop} {E : Fault → Scheduler → Prop}
    {run : AgentRun} (hE : ∀ e, E e s)
    (hok : ∀ r current, s.agents.get? r.agentId = some r → r.agentId = run.agentId →
      r.run = some current → current.runId = run.runId →
      current.batch.batchId = run.batch.batchId → Q r s) : wp (activeRecord run) Q E s := by
  unfold activeRecord
  rw [wp_bind]
  refine wp_recordOf (fun r _ hr => ?_) (fun _ _ => hE _) (fun _ _ => hE _)
  have hk : r.agentId = run.agentId := OrderedMap.key_of_get? hr
  cases hrun : r.run with
  | none => exact hE _
  | some current =>
    simp only [wp_ite, wp_bind, wp_fail, wp_pure]
    split_ifs with h1 h2
    · exact hE _
    · exact hE _
    · simp only [ne_eq, not_or, not_not] at h1
      exact hok r current (hk ▸ hr) hk hrun h1.1 h1.2

/-! ## Operations on one agent -/

/-- `notify` moves what the records hold. -/
theorem notify_advances {agentId : AgentId} {event : AgentWakeEvent} (hs : AllSound s) :
    Ends (notify env agentId event) (Advances P s) s := by
  unfold notify
  refine ends_recordOf hs fun r hr hid => ?_
  unfold Ends
  rw [wp_bind]
  refine wp_nonempty (fun _ => ?_) (fun _ _ => .refl hs)
  rw [wp_bind]
  refine wp_nonempty (fun _ => ?_) (fun _ _ => .refl hs)
  simp only [wp_ite, wp_bind, wp_fail, wp_pure, wp_update]
  split_ifs
  · exact .refl hs
  · exact .refl hs
  · exact wp_reconcile_advances hs ((Touched.refl hr).put _ rfl) hr
      (.of_same (hs _ r hr) rfl rfl rfl rfl (.inl rfl))

/-- Recording results of operations in flight is progress. -/
def Recorded (r r' : AgentRecord) : Prop :=
  r'.Sound ∧ Progress (fun _ => False) r r' ∧ r'.agentId = r.agentId

/-- Recording one more result. -/
theorem Recorded.withResult (h : Recorded r r') {item : PendingOperation}
    (hitem : item ∈ r'.pending.entries) (outcome : AsyncOperationOutcome) (now window : ℕ) :
    Recorded r (r'.withResult item outcome now window) := by
  have hp : Progress (fun _ => False) r' (r'.withResult item outcome now window) :=
    .withResult h.1 hitem outcome now window
  exact ⟨h.1.of_progress hp, h.2.1.trans hp, h.2.2⟩

/-- Operations of a list without repetitions that are in flight stay in flight while those before
them in the list are recorded. -/
theorem mem_withResult {item : PendingOperation} {rest : List PendingOperation}
    {outcome : AsyncOperationOutcome} {now window : ℕ}
    (hnd : ((item :: rest).map PendingOperation.operationId).Nodup)
    (hmem : ∀ x ∈ item :: rest, x ∈ r.pending.entries) :
    ∀ x ∈ rest, x ∈ (r.withResult item outcome now window).pending.entries := by
  intro x hx
  rw [List.map_cons, List.nodup_cons] at hnd
  refine OrderedMap.mem_entries_delete.mpr ⟨hmem x (List.mem_cons_of_mem _ hx), ?_⟩
  exact fun heq => hnd.1 (heq ▸ List.mem_map_of_mem hx)

/-- Cancelling operations in flight records their results. -/
theorem wp_cancelEach_touched {E : Fault → Scheduler → Prop} {reason : String}
    {items : List PendingOperation} (h : Touched s t r') (hr : Recorded r r')
    (hnd : (items.map PendingOperation.operationId).Nodup)
    (hmem : ∀ x ∈ items, x ∈ r'.pending.entries) :
    wp (cancelEach env r' reason items)
      (fun r'' t' => Touched s t' r'' ∧ Recorded r r'') E t := by
  induction items generalizing t r' with
  | nil => exact ⟨h, hr⟩
  | cons item rest ih =>
    unfold cancelEach recordResult
    simp only [wp_bind, wp_now, wp_update, wp_pure]
    refine ih ?_ (hr.withResult (hmem item List.mem_cons_self) _ _ _) (List.nodup_cons.mp hnd).2
      (mem_withResult hnd hmem)
    exact (h.read _).put _ rfl

/-- Recording the timeouts of operations in flight. -/
theorem wp_expireEach_touched {E : Fault → Scheduler → Prop} {now : ℕ}
    {items : List PendingOperation} (h : Touched s t r') (hr : Recorded r r')
    (hnd : (items.map PendingOperation.operationId).Nodup)
    (hmem : ∀ x ∈ items, x ∈ r'.pending.entries) :
    wp (expireEach env r' now items)
      (fun r'' t' => Touched s t' r'' ∧ Recorded r r'') E t := by
  induction items generalizing t r' with
  | nil => exact ⟨h, hr⟩
  | cons item rest ih =>
    unfold expireEach recordResult
    simp only [wp_bind, wp_ite, wp_update, wp_pure]
    have hnd' := (List.nodup_cons.mp hnd).2
    split_ifs
    · exact ih (h.put _ rfl) (hr.withResult (hmem item List.mem_cons_self) _ _ _) hnd'
        (mem_withResult hnd hmem)
    · exact ih h hr hnd' fun x hx => hmem x (List.mem_cons_of_mem _ hx)

/-- Aborting controllers after an operation. -/
theorem ends_abortAll {controllers : List AbortController} {reason : String}
    (h : Advances P s t) : Ends (abortAll controllers reason) (Advances P s) t := by
  refine wp_mono wp_abortAll (fun _ t' hd => ?_) fun _ _ he => he
  exact h.congr hd.agents hd.draws hd.saves fun ha => ⟨hd.closed ▸ ha.1, hd.failure ▸ ha.2⟩

/-- `cancelOperations` moves what the records hold. -/
theorem cancelOperations_advances {agentId : AgentId} {reason : String} (hs : AllSound s) :
    Ends (cancelOperations env agentId reason) (Advances (fun _ => False) s) s := by
  unfold cancelOperations
  refine ends_recordOf hs fun r hr hid => ?_
  have hr₀ : Recorded r r := ⟨hs _ _ hr, .refl (hs _ _ hr), rfl⟩
  refine wp_bind_of (wp_cancelEach_touched (Touched.refl hr) hr₀ r.pending.nodup
    (fun _ h => h)) ?_ fun _ _ he => he
  rintro r' t ⟨h, -, hp, hid'⟩
  refine wp_bind_of (wp_reconcile_advances hs h (hid' ▸ hr) hp) ?_ fun _ _ he => he
  exact fun _ t' ha => ends_abortAll ha

/-- `completeOperation` moves what the records hold. -/
theorem completeOperation_advances {operation : AsyncOperation} {outcome : AsyncOperationOutcome}
    (hs : AllSound s) :
    Ends (completeOperation env operation outcome) (Advances (fun _ => False) s) s := by
  unfold completeOperation Ends
  rw [wp_bind, wp_get]
  cases hr : s.agents.get? operation.agentId with
  | none => exact .refl hs
  | some r =>
    have hk : r.agentId = operation.agentId := OrderedMap.key_of_get? hr
    have hr' : s.agents.get? r.agentId = some r := hk ▸ hr
    simp only
    cases hp : r.pending.get? operation.operationId with
    | none => exact .refl hs
    | some item =>
      simp only [wp_ite, wp_pure]
      split_ifs with horigin
      · exact .refl hs
      · rw [wp_bind]
        refine wp_copyOutcome ?_ (fun _ _ => .refl hs)
        unfold recordResult
        simp only [wp_bind, wp_now, wp_update, wp_ite, wp_pure]
        refine wp_mono (wp_reconcile_advances hs (((Touched.refl hr').read _).put _ rfl) hr'
          (.withResult (hs _ _ hr') (OrderedMap.mem_of_get? hp) _ _ _)) ?_ fun _ _ he => he
        intro _ t' ha
        split_ifs
        · have habort : Ends (abortAll [item.controller] "异步操作等待超时。")
              (Advances (fun _ => False) s) t' := ends_abortAll ha
          exact habort
        · exact ha

/-- A timer that fires moves what the records hold. -/
theorem fireTimer_advances {agentId : AgentId} (hs : AllSound s) :
    Ends (fireTimer env agentId) (Advances (fun _ => False) s) s := by
  unfold fireTimer Ends
  rw [wp_bind, wp_get]
  -- The timer of an agent that is gone does nothing.
  cases hr : s.agents.get? agentId with
  | none => exact .refl hs
  | some r =>
    have hk : r.agentId = agentId := OrderedMap.key_of_get? hr
    have hr' : s.agents.get? r.agentId = some r := hk ▸ hr
    simp only [wp_ite, wp_pure]
    split_ifs
    · exact .refl hs
    · rw [wp_tryCatch]
      -- The body of the timer expires what is due and reconciles; a failure is noted, not thrown.
      have htimer : Ends (onTimer env r) (Advances (fun _ => False) s) s := by
        unfold onTimer Ends
        simp only [wp_bind, wp_get, wp_ite, wp_update, wp_now, wp_pure]
        split_ifs
        · exact .refl hs
        · have hp : Progress (fun _ => False) r r.clearTimeout :=
            .of_same (hs _ _ hr') rfl rfl rfl rfl (.inl rfl)
          have hr₀ : Recorded r r.clearTimeout := ⟨(hs _ _ hr').of_progress hp, hp, rfl⟩
          have ht : Touched s (s.put r.clearTimeout) r.clearTimeout :=
            (Touched.refl hr').put _ rfl
          refine wp_mono (wp_expireEach_touched (ht.read _) hr₀ r.pending.nodup fun _ h => h) ?_
            fun _ _ he => he
          rintro r' t ⟨h, -, hp', hid'⟩
          refine wp_mono (wp_reconcile_advances hs h (hid' ▸ hr') hp') ?_ fun _ _ he => he
          exact fun _ t' ha => ends_abortAll ha
      refine wp_mono htimer (fun _ _ h => h) fun e t' ha => ?_
      refine ha.congr rfl (Nat.le_refl _) rfl fun hav => ?_
      have : (t'.failure.or (some e)) = none := hav.2
      simp at this

/-- `returnRun` changes nothing, or gives the batch of the agent's run back to its record and
reconciles it. -/
theorem returnRun_carried {run : AgentRun} :
    Ends (returnRun env run) (fun t => t = s ∨ ∃ r current, s.agents.get? r.agentId = some r ∧
      r.run = some current ∧ Held s (Carried ((r.inState .ready).withRun none)) t) s := by
  unfold returnRun Ends
  rw [wp_bind]
  refine wp_activeRecord (fun _ => .inl rfl) fun r current hr hid hrun _ _ => ?_
  rw [wp_bind]
  refine wp_transition (fun _ => ?_) fun _ => .inl rfl
  have ht := ((Touched.refl hr).put (r.inState .ready) rfl).put ((r.inState .ready).withRun none)
    rfl
  have hend : ∀ t, Held s (Carried ((r.inState .ready).withRun none)) t → t = s ∨
      ∃ r current, s.agents.get? r.agentId = some r ∧ r.run = some current ∧
        Held s (Carried ((r.inState .ready).withRun none)) t :=
    fun t h => .inr ⟨r, current, hr, hrun, h⟩
  -- What is left in every case: save, reconcile, tell the waiters.
  have hrest : ∀ t, Touched s t ((r.inState .ready).withRun none) → Ends (do
      persist env ((r.inState .ready).withRun none)
      reconcile env ((r.inState .ready).withRun none)
      signalReady env) (fun t => t = s ∨ ∃ r current, s.agents.get? r.agentId = some r ∧
        r.run = some current ∧ Held s (Carried ((r.inState .ready).withRun none)) t) t := by
    intro t h
    refine wp_mono (Q := fun _ => Held s (Carried ((r.inState .ready).withRun none)))
      (E := fun _ => Held s (Carried ((r.inState .ready).withRun none))) ?_
      (fun _ t => hend t) fun _ t => hend t
    refine wp_bind_of (wp_persist_touched h) ?_ fun _ _ h' => ⟨_, h', .refl _⟩
    intro _ t' h'
    refine wp_bind_of (wp_reconcile_carried h') ?_ fun _ _ he => he
    rintro _ t'' ⟨r', h'', hc⟩
    exact wp_signalReady fun _ => ⟨r', h''.congr rfl (Nat.le_refl _) rfl rfl rfl, hc⟩
  simp only [Ends, wp_bind, wp_update, wp_modify, wp_ite, wp_pushQueue] at hrest ⊢
  split_ifs
  · exact hrest _ (ht.requeue _ _)
  · exact hrest _ (ht.requeue _ _)

/-- `returnRun` moves what the records hold. -/
theorem returnRun_advances {run : AgentRun} (hs : AllSound s) :
    Ends (returnRun env run) (Advances (fun _ => False) s) s := by
  have hend : ∀ t, (t = s ∨ ∃ r current, s.agents.get? r.agentId = some r ∧
      r.run = some current ∧ Held s (Carried ((r.inState .ready).withRun none)) t) →
      Advances (fun _ => False) s t := by
    rintro t (rfl | ⟨r, current, hr, hrun, r', h', hc⟩)
    · exact .refl hs
    · have hp : Progress (fun _ => False) r ((r.inState .ready).withRun none) :=
        .of_same (hs _ _ hr) rfl rfl rfl rfl (.inr rfl)
      exact .of_touched hs h' (hc.agentId ▸ hr)
        (hp.trans (.of_carried ((hs _ _ hr).of_progress hp) hc))
  exact wp_mono returnRun_carried (fun _ t => hend t) fun _ t => hend t

/-- `suspend` moves what the records hold. -/
theorem suspend_advances {agentId : AgentId} {suspension : AgentSuspension} (hs : AllSound s) :
    Ends (suspend env agentId suspension) (Advances (fun _ => False) s) s := by
  unfold suspend
  refine ends_recordOf hs fun r hr hid => ?_
  unfold Ends
  rw [wp_bind]
  refine wp_nonempty (fun _ => ?_) (fun _ _ => .refl hs)
  rw [wp_bind]
  refine wp_positiveIntegerIfPresent ?_ (fun _ _ => .refl hs)
  rw [wp_bind, wp_update, wp_bind, wp_modify]
  have hp : Progress (fun _ => False) r (r.suspended suspension) :=
    .of_same (hs _ _ hr) rfl rfl rfl rfl (.inl rfl)
  have hend : ∀ t, Held s (Carried (r.suspended suspension)) t →
      Advances (fun _ => False) s t := by
    rintro t ⟨r', h', hc⟩
    exact .of_touched hs h' (hc.agentId ▸ hr)
      (hp.trans (.of_carried ((hs _ _ hr).of_progress hp) hc))
  have ht := (((Touched.refl hr).put (r.suspended suspension) rfl).requeue
    (s.queue.erase agentId) s.running)
  refine wp_bind_of (wp_block_carried ht (.refl _)) ?_ fun _ _ he => hend _ he
  rintro r₁ t₁ ⟨h₁, hc₁⟩
  refine wp_mono (wp_rest_carried h₁ hc₁ (f := fun _ => pure PUnit.unit)
    (Q := fun _ => Held s (Carried (r.suspended suspension))) fun t' r' h' hc' => ⟨r', h', hc'⟩)
    (fun _ t' h => hend t' h) fun _ t' h => hend t' h

/-- `resume` moves what the records hold. -/
theorem resume_advances {agentId : AgentId} (hs : AllSound s) :
    Ends (resume env agentId) (Advances (fun _ => False) s) s := by
  cases hr : s.agents.get? agentId with
  | none =>
    unfold resume
    refine ends_recordOf hs fun r hr' hid => ?_
    rw [hid, hr] at hr'
    cases hr'
  | some r =>
    obtain rfl : r.agentId = agentId := OrderedMap.key_of_get? hr
    have hend : ∀ t, Held s (Carried r) t → Advances (fun _ => False) s t := by
      rintro t ⟨r', h', hc⟩
      exact .of_touched hs h' (hc.agentId ▸ hr) (.of_carried (hs _ _ hr) hc)
    exact wp_mono (wp_resume_carried (Touched.refl hr) (.refl r)) (fun _ t => hend t)
      fun _ t => hend t

/-- A run whose identifier is drawn between two states of the scheduler. -/
def NewRun (env : Environment) (n m : ℕ) (run : AgentRun) : Prop :=
  ∃ k, n ≤ k ∧ k < m ∧ run.runId = env.uuid k

/-- `takeNextRun` starts a run, under a new identifier, of the batch that the record holds. -/
theorem takeNextRun_advances (hs : AllSound s) :
    Ends (takeNextRun env) (fun t => Advances (NewRun env s.draws t.draws) s t) s := by
  unfold takeNextRun Ends
  rw [wp_bind]
  refine wp_available (fun _ => ?_) (fun _ _ _ => .refl hs) fun _ _ => .refl hs
  simp only [wp_bind, wp_get, wp_ite, wp_pure]
  -- Without capacity, or with an empty queue, nothing happens.
  split_ifs
  · exact .refl hs
  · cases hq : s.queue with
    | nil => exact .refl hs
    | cons agentId rest =>
      simp only
      rw [wp_bind]
      refine wp_recordOf (fun r _ hr => ?_) (fun _ _ => .refl hs) fun _ _ => .refl hs
      obtain rfl : r.agentId = agentId := OrderedMap.key_of_get? hr
      -- A record without a batch, or with a run, starts none.
      cases hb : r.batch with
      | none => exact .refl hs
      | some batch =>
        cases hrun : r.run with
        | some run => exact .refl hs
        | none =>
          simp only [wp_bind, wp_randomUUID]
          -- The identifier of the run is a new draw.
          have hd : Drawn s { s with draws := s.draws + 1 } :=
            { Drawn.refl s with draws := Nat.le_succ _ }
          refine wp_transition (fun _ => ?_) fun _ => .of_drawn hs hd
          simp only [wp_update, wp_modify]
          have hbase : Touched { s with draws := s.draws + 1 } { s with draws := s.draws + 1 } r :=
            Touched.refl hr
          have ht := ((hbase.put (r.inState .running) rfl).put ((r.inState .running).withRun
            (some { agentId := r.agentId, runId := env.uuid s.draws, batch })) rfl).requeue
            s.queue.tail (s.running + 1)
          have hend : ∀ t, Touched { s with draws := s.draws + 1 } t ((r.inState .running).withRun
              (some { agentId := r.agentId, runId := env.uuid s.draws, batch })) →
              Advances (NewRun env s.draws t.draws) s t := by
            intro t h
            have hlt : s.draws + 1 ≤ t.draws := h.draws
            refine .of_touched hs { h with draws := by omega } hr ?_
            have hsame : Progress (fun _ => False) r (r.inState .running) :=
              .of_same (hs _ _ hr) rfl rfl rfl rfl (.inl rfl)
            refine ⟨rfl, hsame.ledger, hsame.results, .inr (.inr ⟨_, rfl, ?_⟩), fun hn => ?_⟩
            · exact ⟨s.draws, Nat.le_refl _, hlt, rfl⟩
            · have hn' : r.batch = none := hn
              rw [hb] at hn'
              cases hn'
          exact wp_mono (wp_persist_touched ht) (fun _ t h => hend t h) fun _ t h => hend t h

/-! ## Operations that add or hand over -/

/-- The record of a run's agent, if the run is the agent's current one. -/
def Scheduler.active (s : Scheduler) (run : AgentRun) : Option AgentRecord :=
  match activeRecord run s with
  | .ok r _ => some r
  | .error _ _ => none

/-- `activeRecord` changes nothing, and finds the record that `active` names. -/
theorem wp_activeRecord_active {Q : AgentRecord → Scheduler → Prop} {E : Fault → Scheduler → Prop}
    {run : AgentRun} (hE : ∀ e, s.active run = none → E e s)
    (hok : ∀ r current, s.active run = some r → s.agents.get? r.agentId = some r →
      r.agentId = run.agentId → r.run = some current → current.runId = run.runId →
      current.batch.batchId = run.batch.batchId → Q r s) : wp (activeRecord run) Q E s := by
  have hself : wp (activeRecord run) (fun r s' => s' = s ∧ s.agents.get? r.agentId = some r ∧
      r.agentId = run.agentId ∧ ∃ current, r.run = some current ∧ current.runId = run.runId ∧
        current.batch.batchId = run.batch.batchId) (fun _ s' => s' = s) s :=
    wp_activeRecord (fun _ => rfl) fun r current hr hid hrun h1 h2 =>
      ⟨rfl, hr, hid, current, hrun, h1, h2⟩
  unfold Scheduler.active at hE hok
  unfold wp at hself ⊢
  cases hres : activeRecord run s with
  | ok r s' =>
    rw [hres] at hself hok
    obtain ⟨rfl, hr, hid, current, hrun, h1, h2⟩ := hself
    exact hok r current rfl hr hid hrun h1 h2
  | error e s' =>
    rw [hres] at hself hE
    obtain rfl := hself
    exact hE e rfl

/-- The end of a run has led from `s` to `t`: its batch was consumed. -/
def Consumed (s : Scheduler) (run : AgentRun) (intent : AgentRunIntent) (t : Scheduler) : Prop :=
  ∃ r, s.active run = some r ∧ s.agents.get? run.agentId = some r ∧
    Advances (fun _ => False) (s.put (r.finished intent)) t

/-- `finishRun` changes nothing, or consumes the batch of the run that it ends. -/
theorem finishRun_advances {run : AgentRun} {intent : AgentRunIntent} (hs : AllSound s) :
    Ends (finishRun env run intent)
      (fun t => s.active run = none ∧ t = s ∨ Consumed s run intent t) s := by
  unfold finishRun Ends
  rw [wp_bind]
  refine wp_activeRecord_active (fun _ hn => .inl ⟨hn, rfl⟩) fun r current hact hr hid hrun _ _ => ?_
  have hsound : (r.finished intent).Sound := by
    refine ⟨?_, fun _ => rfl⟩
    have hkeys := (hs _ _ hr).keys
    rw [← ledger_finished intent, List.map_append] at hkeys
    exact (List.nodup_append.mp hkeys).1
  have hs' : AllSound (s.put (r.finished intent)) := by
    intro id r₁ h₁
    rw [show (s.put (r.finished intent)).agents = s.agents.insert (r.finished intent) from rfl,
      OrderedMap.get?_insert] at h₁
    split_ifs at h₁
    · obtain rfl := Option.some.inj h₁
      exact hsound
    · exact hs id r₁ h₁
  have hself : (s.put (r.finished intent)).agents.get? (r.finished intent).agentId =
      some (r.finished intent) := OrderedMap.get?_insert_self ..
  simp only [wp_bind, wp_update, wp_modify]
  have ht := ((Touched.refl hself).requeue s.queue (s.running - 1))
  refine wp_mono (wp_reconcile_advances hs' ht hself (.refl hsound)) ?_
    fun _ t h => .inr ⟨r, hact, hid ▸ hr, h⟩
  intro _ t h
  exact wp_signalReady fun _ => .inr ⟨r, hact, hid ▸ hr,
    h.congr rfl (Nat.le_refl _) rfl fun hav => hav⟩

end OsAgent.AgentScheduler
