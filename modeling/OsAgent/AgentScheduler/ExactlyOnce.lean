import OsAgent.AgentScheduler.History
import Mathlib.Data.List.Flatten
import Mathlib.Tactic.Common
import Mathlib.Tactic.SplitIfs

/-!
# Every operation is delivered exactly once

`ExactlyOnce` says of a history that each operation that was ever put in flight is at one place:
pending, completed, in the batch, or in one batch that was consumed; that its outcome is recorded
once, and stays; and what the operations that move a result promise to their callers.
`exactlyOnce_of_reachable` proves it of every history, with timers, failing saves, and a close
anywhere in it.
-/

namespace OsAgent.AgentScheduler

open OsAgent.Library OsAgent.ControlBlock AgentRecord

variable {env : Environment} {s t : Scheduler} {r r' : AgentRecord} {id : AgentId}

/-! ## Promises to callers -/

/-- In `t` the outcome of an operation that was in flight in `s` is recorded. -/
def OutcomeRecorded (s : Scheduler) (operation : AsyncOperation) (outcome : AsyncOperationOutcome)
    (t : Scheduler) : Prop :=
  ∃ r, t.agents.get? operation.agentId = some r ∧ ∃ result ∈ r.results,
    result.operation ∈ pendingOf s operation.agentId ∧
    result.operation.operationId = operation.operationId ∧
    result.operation.originRunId = operation.originRunId ∧ result.outcome = outcome

/-- Recording the outcome of an operation in flight, and reconciling its record. -/
theorem outcomeRecorded_of_carried {operation : AsyncOperation} {outcome : AsyncOperationOutcome}
    {item : PendingOperation} {now window : ℕ} (hs : AllSound s)
    (hr : s.agents.get? operation.agentId = some r)
    (hp : r.pending.get? operation.operationId = some item)
    (horigin : item.operation.originRunId = operation.originRunId)
    (h : Held s (Carried (r.withResult item outcome now window)) t) :
    OutcomeRecorded s operation outcome t := by
  obtain ⟨r', ht, hc⟩ := h
  have hk : r.agentId = operation.agentId := OrderedMap.key_of_get? hr
  have hid : r'.agentId = operation.agentId := hc.agentId.trans hk
  obtain ⟨timer, hself⟩ := ht.get?_self
  rw [hid] at hself
  have hmem := OrderedMap.mem_of_get? hp
  have hkey : item.operationId = operation.operationId := OrderedMap.key_of_get? hp
  have hsound : (r.withResult item outcome now window).Sound :=
    (hs _ _ hr).of_progress (Progress.withResult (P := fun _ => False) (hs _ _ hr) hmem _ _ _)
  -- The result was collected, and reconciling keeps what is collected.
  have hprog : Progress (fun _ => False) _ r' := .of_carried hsound hc
  refine ⟨_, hself, { operation := item.operation, completedAt := now, outcome }, ?_, ?_, hkey,
    horigin, rfl⟩
  · refine hprog.results _ (List.mem_append_left _ ?_)
    exact OrderedMap.mem_of_get? (OrderedMap.get?_insert_self ..)
  · rw [pendingOf, hr]
    exact List.mem_map_of_mem hmem

/-- `completeOperation` that returns true has recorded the outcome it was given. -/
theorem completeOperation_true {operation : AsyncOperation} {outcome : AsyncOperationOutcome}
    (hs : AllSound s) (h : completeOperation env operation outcome s = .ok true t) :
    OutcomeRecorded s operation outcome t := by
  have hwp : wp (completeOperation env operation outcome)
      (fun b t => b = true → OutcomeRecorded s operation outcome t) (fun _ _ => True) s := by
    unfold completeOperation
    rw [wp_bind, wp_get]
    cases hr : s.agents.get? operation.agentId with
    -- An agent that is not registered records nothing.
    | none => exact fun h => by cases h
    | some r =>
      have hk : r.agentId = operation.agentId := OrderedMap.key_of_get? hr
      have hr' : s.agents.get? r.agentId = some r := hk ▸ hr
      simp only
      cases hp : r.pending.get? operation.operationId with
      -- An operation that is not in flight records nothing.
      | none => exact fun h => by cases h
      | some item =>
        simp only [wp_ite, wp_pure]
        -- An operation of another run is refused.
        split_ifs with horigin
        · exact fun h => by cases h
        · have horigin' := not_not.mp horigin
          rw [wp_bind]
          refine wp_copyOutcome ?_ (fun _ _ => trivial)
          unfold recordResult
          simp only [wp_bind, wp_now, wp_update, wp_ite, wp_pure, decide_eq_true_eq]
          by_cases hlate : item.operation.deadline ≤ env.clock s.readings
          · -- The timeout is recorded, and the caller is told so.
            simp only [hlate, true_or, if_true, decide_true, Bool.not_true]
            refine wp_mono (wp_reconcile_carried (((Touched.refl hr').read _).put _ rfl)) ?_
              fun _ _ _ => trivial
            intro _ t _
            exact wp_abort fun _ hf => by cases hf
          · -- The outcome is in the record, whatever the reconciliation does after it.
            simp only [hlate, false_or, if_false, decide_false]
            refine wp_mono (wp_reconcile_carried (((Touched.refl hr').read _).put _ rfl)) ?_
              fun _ _ _ => trivial
            intro _ t ht
            have hdone := outcomeRecorded_of_carried hs hr hp horigin' ht
            split_ifs
            · exact wp_abort fun _ _ => hdone
            · exact fun _ => hdone
  exact wp_ok hwp h rfl

/-- A completion of an operation that is not in flight, or comes from another run, changes
nothing. -/
theorem completeOperation_of_not_pending {operation : AsyncOperation}
    {outcome : AsyncOperationOutcome}
    (h : ∀ o ∈ pendingOf s operation.agentId,
      o.operationId = operation.operationId → o.originRunId ≠ operation.originRunId) :
    completeOperation env operation outcome s = .ok false s := by
  have hwp : wp (completeOperation env operation outcome) (fun b t => b = false ∧ t = s)
      (fun _ _ => False) s := by
    unfold completeOperation
    rw [wp_bind, wp_get]
    -- Without the agent, or without the operation in flight, nothing is recorded.
    cases hr : s.agents.get? operation.agentId with
    | none => exact ⟨rfl, rfl⟩
    | some r =>
      simp only
      cases hp : r.pending.get? operation.operationId with
      | none => exact ⟨rfl, rfl⟩
      | some item =>
        -- The operation in flight under this identifier comes from another run.
        have horigin : item.operation.originRunId ≠ operation.originRunId := by
          have hkey : item.operationId = operation.operationId := OrderedMap.key_of_get? hp
          refine h item.operation ?_ hkey
          rw [pendingOf, hr]
          exact List.mem_map_of_mem (OrderedMap.mem_of_get? hp)
        rw [wp_ite, if_pos horigin]
        exact ⟨rfl, rfl⟩
  unfold wp at hwp
  cases hres : completeOperation env operation outcome s with
  | ok b t =>
    rw [hres] at hwp
    rw [hwp.1, hwp.2]
  | error e t =>
    rw [hres] at hwp
    exact hwp.elim

/-- `returnRun` keeps the batch of every record. -/
theorem returnRun_batch {run : AgentRun} (hs : AllSound s) (hr : s.agents.get? id = some r) :
    ∃ r', (finalState (returnRun env run s)).agents.get? id = some r' ∧ r'.batch = r.batch := by
  refine wp_finalState (P := fun t => ∃ r', t.agents.get? id = some r' ∧ r'.batch = r.batch)
    (wp_mono returnRun_carried (fun _ t => ?_) fun _ t => ?_)
  all_goals
    rintro (rfl | ⟨r₁, current, h₁, hrun, r₂, ht, hc⟩)
    · exact ⟨r, hr, rfl⟩
    · by_cases hid : id = r₂.agentId
      · obtain ⟨timer, hself⟩ := ht.get?_self
        have hk : r₂.agentId = r₁.agentId := hc.agentId
        subst hid
        rw [hk] at hr
        obtain rfl := Option.some.inj (h₁.symm.trans hr)
        refine ⟨_, hself, ?_⟩
        rcases hc.contents with ⟨-, -, hb⟩ | ⟨hb, -⟩
        · exact hb
        · -- A run without a batch is impossible.
          have := (hs _ _ h₁).run hb
          rw [hrun] at this
          cases this
      · have hg := ht.get?_of_ne hid
        rw [hr, Option.map_some] at hg
        obtain ⟨r₃, h₃, heq⟩ := Option.map_eq_some_iff.mp hg
        exact ⟨r₃, h₃, by rw [eq_of_clearTimeout_eq heq]⟩

/-! ## Histories -/

/-- A scheduler, with what was ever put in flight for each agent, and the batches that were
consumed. -/
structure History where
  scheduler : Scheduler
  registered : AgentId → List AsyncOperation
  consumed : AgentId → List AgentDispatchBatch

namespace History

/-- The history after an operation, which may have thrown. -/
def perform (env : Environment) (h : History) (op : Operation) : History :=
  let t := finalState (op.perform env h.scheduler)
  { scheduler := t
    registered := fun id => h.registered id ++ created op h.scheduler t id
    consumed := fun id => h.consumed id ++ (finishedBatch op h.scheduler id).toList }

/-- The results that were consumed. -/
def consumedResults (h : History) (id : AgentId) : List AsyncOperationResult :=
  (h.consumed id).flatMap AgentDispatchBatch.results

/-- All results that were recorded for an agent, consumed or not. -/
def outcomes (env : Environment) (h : History) (id : AgentId) : List AsyncOperationResult :=
  outcomesOf env h.scheduler id ++ h.consumedResults id

/-- In how many batches that were consumed an operation has a result, and how many. -/
def timesConsumed (h : History) (id : AgentId) (o : AsyncOperation) : ℕ :=
  ((h.consumed id).map fun b => (b.results.map AsyncOperationResult.operation).count o).sum

/-- At how many places an operation is. An agent that is not registered has the places of its
checkpoint. -/
def places (env : Environment) (h : History) (id : AgentId) (o : AsyncOperation) : ℕ :=
  match h.scheduler.agents.get? id with
  | some r =>
    r.pendingOperations.count o + (r.completed.entries.map AsyncOperationResult.operation).count o +
      (r.batchResults.map AsyncOperationResult.operation).count o + h.timesConsumed id o
  | none =>
    (((stored env h.scheduler id).map AgentSchedulerCheckpoint.ledger).getD []).count o +
      h.timesConsumed id o

end History

/-- What a store may hold when a scheduler starts: checkpoints that a scheduler with the same
options saved, of operations whose identifiers are not drawn again. -/
def Storable (env : Environment) (saves : List AgentSchedulerCheckpoint) : Prop :=
  ∀ c ∈ saves, c.Restorable ∧ (c.ledger.map AsyncOperation.operationId).Nodup ∧
    c.ledger.length ≤ env.configuration.maxBufferedOperations.val ∧
    ∀ o ∈ c.ledger, Unseen env 0 o.operationId ∧ Unseen env 0 o.originRunId

/-- The histories of a scheduler. The operations that its store holds at the start count as put in
flight. -/
def histories (env : Environment) : TransitionSystem History where
  init h := ∃ saves, Storable env saves ∧
    h = { scheduler := .initial saves
          registered := holdings env (.initial saves)
          consumed := fun _ => [] }
  step h h' := ∃ op, Admitted env h.scheduler op ∧ h' = h.perform env op

/-- The invariant of all histories. -/
structure Tracked (env : Environment) (h : History) : Prop where
  accounts : ∀ id, Account env h.scheduler id (h.registered id)
    ((h.consumedResults id).map AsyncOperationResult.operation)
  restorable : ∀ c ∈ h.scheduler.saves, c.Restorable
  invariant : h.scheduler.Available → Invariant env h.scheduler

/-- A history starts with the operations of its checkpoints in flight or ended. -/
theorem tracked_initial {saves : List AgentSchedulerCheckpoint} (h : Storable env saves) :
    Tracked env { scheduler := .initial saves
                  registered := holdings env (.initial saves)
                  consumed := fun _ => [] } where
  accounts id := by
    have hnone : (Scheduler.initial saves).agents.get? id = none := rfl
    have hheld : ((holdings env (.initial saves) id).map AsyncOperation.operationId).Nodup ∧
        (holdings env (.initial saves) id).length ≤
          env.configuration.maxBufferedOperations.val ∧
        ∀ o ∈ holdings env (.initial saves) id,
          Unseen env 0 o.operationId ∧ Unseen env 0 o.originRunId := by
      rw [holdings_of_none hnone]
      cases hc : stored env (.initial saves) id with
      | none => simp
      | some c => exact (h c (mem_of_stored hc).1).2
    obtain ⟨hkeys, hbound, hseen⟩ := hheld
    refine ⟨?_, hkeys.of_map _, hkeys, hseen, hbound, fun r hr => by cases hr⟩
    simp [History.consumedResults]
  restorable c hc := (h c hc).1
  invariant _ := invariant_initial env saves

/-- The consumed operations after a step. -/
theorem consumedResults_perform (h : History) (op : Operation) (id : AgentId) :
    (h.perform env op).consumedResults id =
      h.consumedResults id ++ finishedResults op h.scheduler id := by
  unfold History.consumedResults History.perform finishedResults
  rw [List.flatMap_append]
  cases finishedBatch op h.scheduler id <;> simp

/-- Every step keeps the invariant. -/
theorem Tracked.perform (hinj : Function.Injective env.uuid) {h : History} (ht : Tracked env h)
    {op : Operation} (hop : Admitted env h.scheduler op) : Tracked env (h.perform env op) := by
  have hstep := step_perform hinj ht.accounts ht.restorable ht.invariant hop
  have hgoes : (∀ c ∈ (finalState (op.perform env h.scheduler)).saves, c.Restorable) ∧
      ((finalState (op.perform env h.scheduler)).Available →
        Invariant env (finalState (op.perform env h.scheduler))) := by
    by_cases ha : h.scheduler.Available
    · exact perform_available (ht.invariant ha) ha ht.restorable hop.1
    · -- A scheduler that has stopped saves nothing, and stays stopped.
      rw [hstep.frozen ha]
      exact ⟨ht.restorable, fun h' => absurd (hstep.alive h') ha⟩
  refine ⟨fun id => ?_, hgoes.1, hgoes.2⟩
  have hacc := (ht.accounts id).step hinj (hstep.moves id)
  rw [consumedResults_perform, List.map_append]
  exact hacc

/-- The invariant holds in every history. -/
theorem tracked_of_reachable (hinj : Function.Injective env.uuid) {h : History}
    (hr : (histories env).Reachable h) : Tracked env h := by
  refine hr.invariant (P := Tracked env) ?_ ?_
  · rintro h ⟨saves, hsaves, rfl⟩
    exact tracked_initial hsaves
  · rintro h h' - ht ⟨op, hop, rfl⟩
    exact ht.perform hinj hop

/-! ## What the invariant says -/

/-- An operation is at as many places as it was put in flight. -/
theorem Tracked.places {h : History} (ht : Tracked env h) (id : AgentId) (o : AsyncOperation) :
    h.places env id o = (h.registered id).count o := by
  have hperm := (ht.accounts id).conserved.count_eq o
  rw [List.count_append] at hperm
  have htimes : h.timesConsumed id o =
      ((h.consumedResults id).map AsyncOperationResult.operation).count o := by
    unfold History.timesConsumed History.consumedResults
    rw [List.map_flatMap, List.count_flatMap]
    rfl
  rw [hperm, ← htimes]
  unfold History.places
  cases hr : h.scheduler.agents.get? id with
  | none =>
    simp only
    rw [holdings_of_none hr]
  | some r =>
    simp only
    rw [holdings_of_get? hr, AgentRecord.ledger, AgentRecord.results, List.map_append,
      List.count_append, List.count_append]
    omega

/-- The operations of the recorded outcomes are distinct. -/
theorem Tracked.nodup_outcomes {h : History} (ht : Tracked env h) (id : AgentId) :
    ((h.outcomes env id).map AsyncOperationResult.operation).Nodup := by
  have hnd := (ht.accounts id).conserved.nodup_iff.mp (ht.accounts id).nodup
  have hsub : ((outcomesOf env h.scheduler id).map AsyncOperationResult.operation).Sublist
      (holdings env h.scheduler id) := by
    cases hr : h.scheduler.agents.get? id with
    | some r =>
      rw [outcomesOf_of_get? hr, holdings_of_get? hr]
      exact List.sublist_append_right ..
    | none =>
      rw [outcomesOf_of_none hr, holdings_of_none hr]
      cases stored env h.scheduler id with
      | none => exact .refl _
      | some c => exact List.sublist_append_right ..
  rw [History.outcomes, List.map_append]
  exact hnd.sublist (hsub.append_right _)

/-- A step keeps the recorded outcomes. -/
theorem outcomes_perform (hinj : Function.Injective env.uuid) {h : History} (ht : Tracked env h)
    {op : Operation} (hop : Admitted env h.scheduler op) (id : AgentId) :
    ∀ result ∈ h.outcomes env id, result ∈ (h.perform env op).outcomes env id := by
  intro result hmem
  have hstep := step_perform hinj ht.accounts ht.restorable ht.invariant hop
  rw [History.outcomes, consumedResults_perform]
  rcases List.mem_append.mp hmem with hheld | hgone
  · rcases (hstep.moves id).outcomes result hheld with hkept | hnow
    · exact List.mem_append_left _ hkept
    · exact List.mem_append_right _ (List.mem_append_right _ hnow)
  · exact List.mem_append_right _ (List.mem_append_left _ hgone)

/-! ## The theorem -/

/-- What holds of a history. -/
structure ExactlyOnce (env : Environment) (h : History) : Prop where
  /-- No operation is put in flight twice. -/
  registered : ∀ id, (h.registered id).Nodup
  /-- An operation that was put in flight is at one place: it is pending, or completed, or in the
  batch, or in one batch that was consumed. -/
  place : ∀ id, ∀ o ∈ h.registered id, h.places env id o = 1
  /-- An operation has at most one outcome. -/
  outcome : ∀ id, ∀ x ∈ h.outcomes env id, ∀ y ∈ h.outcomes env id,
    x.operation = y.operation → x = y
  /-- An outcome that was recorded stays, whatever happens. -/
  final : ∀ h', (histories env).Later h h' → ∀ id,
    ∀ x ∈ h.outcomes env id, x ∈ h'.outcomes env id
  completed : ∀ operation outcome t,
    completeOperation env operation outcome h.scheduler = .ok true t →
      OutcomeRecorded h.scheduler operation outcome t
  /-- A completion that is late, or repeated, or from another run, is ignored. -/
  ignored : ∀ operation outcome,
    (∀ o ∈ pendingOf h.scheduler operation.agentId,
      o.operationId = operation.operationId → o.originRunId ≠ operation.originRunId) →
    completeOperation env operation outcome h.scheduler = .ok false h.scheduler
  returned : ∀ run id r, h.scheduler.agents.get? id = some r →
    ∃ r', (finalState (returnRun env run h.scheduler)).agents.get? id = some r' ∧
      r'.batch = r.batch
  capacity : ∀ id r, h.scheduler.agents.get? id = some r →
    r.pending.size + r.completed.size + r.batchResults.length ≤
      env.configuration.maxBufferedOperations.val

/-- In every history of a scheduler every operation is delivered exactly once, if no identifier is
drawn twice. -/
theorem exactlyOnce_of_reachable (hinj : Function.Injective env.uuid) {h : History}
    (hr : (histories env).Reachable h) : ExactlyOnce env h := by
  have ht := tracked_of_reachable hinj hr
  have hs : AllSound h.scheduler := .of_accounts ht.accounts
  refine
    { registered := fun id => (ht.accounts id).nodup
      place := fun id o ho => ?_
      outcome := fun id x hx y hy heq => ?_
      final := fun h' hl id => ?_
      completed := fun operation outcome t => completeOperation_true hs
      ignored := fun operation outcome => completeOperation_of_not_pending
      returned := fun run id r => returnRun_batch hs
      capacity := fun id r hget => ?_ }
  · rw [ht.places id o]
    exact List.count_eq_one_of_mem (ht.accounts id).nodup ho
  · exact List.inj_on_of_nodup_map (ht.nodup_outcomes id) hx hy heq
  · refine TransitionSystem.Later.invariant hr
      (P := fun h' => ∀ x ∈ h.outcomes env id, x ∈ h'.outcomes env id) (fun _ hx => hx) ?_ hl
    rintro h₁ h₂ hr₁ hkept ⟨op, hop, rfl⟩ x hx
    exact outcomes_perform hinj (tracked_of_reachable hinj hr₁) hop id x (hkept x hx)
  · have hbound := (ht.accounts id).bound
    rw [holdings_of_get? hget, length_ledger] at hbound
    exact hbound

/-- A quiet environment does not draw an identifier twice. -/
theorem uuid_injective : Function.Injective quietEnvironment.uuid := by
  intro n m h
  have hlen := congrArg String.length h
  simpa [quietEnvironment] using hlen

/-- The run that is taken in `afterTaking`. -/
def takenRun : AgentRun where
  agentId := 1
  runId := "uu"
  batch :=
    { agentId := 1
      batchId := "u"
      sealedAt := 0
      results := []
      events := []
      pendingOperations := []
      continuation := true }

/-- What a run asks of an operation concerns registrations only. -/
theorem admitted_of_other {op : Operation} (hagent : ∀ agent, op ≠ .register agent)
    (hoperations : ∀ run operations, op ≠ .registerOperations run operations) : Admitted env s op :=
  ⟨fun agent h => absurd h (hagent agent), fun run operations h => absurd h (hoperations run operations)⟩

/-- Operations that may always be performed lead on, one after the other. -/
theorem reachable_foldl {ops : List Operation} (hops : ∀ op ∈ ops, ∀ s, Admitted env s op) {h : History}
    (hr : (histories env).Reachable h) : (histories env).Reachable (ops.foldl (History.perform env) h) := by
  induction ops generalizing h with
  | nil => exact hr
  | cons op ops ih =>
    rw [List.forall_mem_cons] at hops
    exact ih hops.2 (.step hr ⟨op, hops.1 _, rfl⟩)

/-- A history in which a run has registered an operation. -/
def afterRegistering : History :=
  [.register ⟨1, .ready⟩, .takeNextRun, .registerOperations takenRun [⟨none, none⟩]].foldl
    (History.perform quietEnvironment)
    { scheduler := .initial []
      registered := holdings quietEnvironment (.initial [])
      consumed := fun _ => [] }

/-- The history with the registered operation is reachable. -/
theorem reachable_afterRegistering : (histories quietEnvironment).Reachable afterRegistering := by
  refine .step (.step (.step (.of_init ⟨[], fun _ h => (by cases h), rfl⟩)
    ⟨.register ⟨1, .ready⟩, ⟨fun agent h c hc => ?_, fun _ _ h => (by cases h)⟩, rfl⟩)
    ⟨.takeNextRun, admitted_of_other (by simp) (by simp), rfl⟩)
    ⟨.registerOperations takenRun [⟨none, none⟩], ⟨fun _ h => (by cases h), fun run ops h => ?_⟩, rfl⟩
  · obtain rfl := Operation.register.inj h
    cases hc
  · obtain ⟨rfl, rfl⟩ := Operation.registerOperations.inj h
    intro options hmem x hx
    obtain rfl := List.mem_singleton.mp hmem
    cases hx

/-- The operation that is registered. -/
def registeredOperation : AsyncOperation where
  agentId := 1
  operationId := "uuu"
  originRunId := "uu"
  startedAt := 1000
  deadline := 121000

/-- The run that its result is delivered to. -/
def deliveredRun : AgentRun where
  agentId := 1
  runId := "uuuuu"
  batch :=
    { agentId := 1
      batchId := "uuuu"
      sealedAt := 4000
      results := [⟨registeredOperation, 3000, .succeeded "a"⟩]
      events := []
      pendingOperations := []
      continuation := false }

/-- The operation succeeds, a failure comes late, and its result is delivered to the next run. -/
def delivering : List Operation :=
  [.completeOperation registeredOperation (.succeeded "a"),
    .completeOperation registeredOperation (.failed "late" none), .finishRun takenRun .idle, .takeNextRun,
    .finishRun deliveredRun .idle]

/-- The history with the delivered result. -/
def afterDelivering : History := delivering.foldl (History.perform quietEnvironment) afterRegistering

/-- The theorem, for a history in which an operation was completed, completed again, and delivered. -/
theorem exactlyOnce_afterDelivering : afterDelivering.registered 1 = [registeredOperation] ∧
    afterDelivering.consumedResults 1 = [⟨registeredOperation, 3000, .succeeded "a"⟩] ∧
      holdings quietEnvironment afterDelivering.scheduler 1 = [] ∧
        ExactlyOnce quietEnvironment afterDelivering := by
  refine ⟨by decide +kernel, by decide +kernel, by decide +kernel,
    exactlyOnce_of_reachable uuid_injective ?_⟩
  have hother : ∀ op ∈ delivering, ∀ s, Admitted quietEnvironment s op := by
    intro op hop s
    refine admitted_of_other ?_ ?_
    · rintro agent rfl
      simp [delivering] at hop
    · rintro run operations rfl
      simp [delivering] at hop
  exact reachable_foldl hother reachable_afterRegistering

end OsAgent.AgentScheduler
