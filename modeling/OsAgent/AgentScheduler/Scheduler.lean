import OsAgent.AgentScheduler.Types
import OsAgent.Library.Program
import Mathlib.Data.Int.Notation

/-!
# The agent scheduler

The operations of `agent-scheduler/internal/scheduler.ts`. They run in a monad that carries the
scheduler's fields and may throw, and a throw keeps what was written before it. An operation that
holds a reference to an agent's record carries the record as a value here and writes it back with
`update` wherever the source assigns to one of its fields.

What the source reads from outside is the environment: the clock, `randomUUID`, and whether the
store accepts a save. Each is a stream that is read in order, so two readings in one operation may
differ. The store keeps every checkpoint it accepted, the newest first, and loads the newest.
-/

namespace OsAgent.AgentScheduler

open OsAgent.Library OsAgent.ControlBlock

/-- The surroundings of a scheduler. -/
structure Environment where
  configuration : Configuration
  /-- The readings of `Date.now()`. -/
  clock : ℕ → ℕ
  /-- The values of `randomUUID()`. -/
  uuid : ℕ → String
  /-- Whether the scheduler was given a persistence. -/
  persistent : Bool
  /-- Whether the store refuses a save, and with which error. -/
  refusal : ℕ → Option String

/-- The fields of a scheduler, and how far the streams of its environment have been read. -/
structure Scheduler where
  agents : OrderedMap AgentRecord.agentId
  queue : List AgentId
  readyWaiters : List ℕ
  running : ℤ
  failure : Option Fault
  closed : Bool
  /-- How often the clock was read. -/
  readings : ℕ
  /-- How many identifiers were drawn. -/
  draws : ℕ
  /-- How many abort controllers were created. -/
  controllers : ℕ
  /-- The controllers that were aborted, each with its reason. -/
  aborted : List (AbortController × String)
  /-- How many saves were tried. -/
  attempts : ℕ
  /-- The checkpoints that the store accepted, the newest first. -/
  saves : List AgentSchedulerCheckpoint

/-- A new scheduler over what the store holds. -/
def Scheduler.initial (saves : List AgentSchedulerCheckpoint) : Scheduler where
  agents := .empty
  queue := []
  readyWaiters := []
  running := 0
  failure := none
  closed := false
  readings := 0
  draws := 0
  controllers := 0
  aborted := []
  attempts := 0
  saves := saves

/-- The programs of the scheduler. -/
abbrev M := EStateM Fault Scheduler

/-- Throws one of the scheduler's own errors. -/
def fail {α : Type} (code : AgentSchedulerErrorCode) (message : String) : M α :=
  throw (.scheduler code message)

/-- A number has to be positive and safe. -/
def positiveInteger (value : ℕ) (field : String) : M Unit :=
  if isPositiveInteger value then pure () else fail .invalidInput (field ++ " 必须为正安全整数。")

/-- The check of a number that may be absent. -/
def positiveIntegerIfPresent (value : Option ℕ) (field : String) : M Unit :=
  match value with
  | some number => positiveInteger number field
  | none => pure ()

/-- A text has to be more than white space. -/
def nonempty (value : String) (field : String) : M Unit :=
  if isBlank value then fail .invalidInput (field ++ " 不能为空。") else pure ()

/-- The check of a text that may be absent. -/
def nonemptyIfPresent (value : Option String) (field : String) : M Unit :=
  match value with
  | some text => nonempty text field
  | none => pure ()

/-- The outcome that is recorded: a copy of the one that was given, after its texts were checked. -/
def copyOutcome : AsyncOperationOutcome → M AsyncOperationOutcome
  | .succeeded resultRef => do
    nonempty resultRef "resultRef"
    return .succeeded resultRef
  | .failed error resultRef => do
    nonempty error "error"
    nonemptyIfPresent resultRef "resultRef"
    return .failed error resultRef
  | .cancelled reason => do
    nonempty reason "reason"
    return .cancelled reason
  | .timedOut => return .timedOut

/-! ## Reading and writing the fields -/

/-- Writes an agent's record back. -/
def update (record : AgentRecord) : M Unit :=
  modify fun s => { s with agents := s.agents.insert record }

/-- Appends an agent to the ready queue. -/
def pushQueue (agentId : AgentId) : M Unit :=
  modify fun s => { s with queue := s.queue ++ [agentId] }

/-- `new AbortController()`. -/
def newController : M AbortController :=
  modifyGet fun s => (s.controllers, { s with controllers := s.controllers + 1 })

/-- `controller.abort(new Error(reason))`; the first reason stands. -/
def abort (controller : AbortController) (reason : String) : M Unit :=
  modify fun s =>
    if s.aborted.any (·.1 = controller) then s
    else { s with aborted := s.aborted ++ [(controller, reason)] }

/-- Aborts a list of controllers in order. -/
def abortAll (controllers : List AbortController) (reason : String) : M Unit :=
  match controllers with
  | [] => pure ()
  | controller :: rest => do
    abort controller reason
    abortAll rest reason

/-- The newest checkpoint of an agent. -/
def latest (saves : List AgentSchedulerCheckpoint) (agentId : AgentId) :
    Option AgentSchedulerCheckpoint :=
  saves.find? (fun c => c.agentId = agentId)

section

variable (env : Environment)

/-- `Date.now()`. -/
def now : M ℕ :=
  modifyGet fun s => (env.clock s.readings, { s with readings := s.readings + 1 })

/-- `randomUUID()`. -/
def randomUUID : M String :=
  modifyGet fun s => (env.uuid s.draws, { s with draws := s.draws + 1 })

/-- `persistence.load`. -/
def load (agentId : AgentId) : M (Option AgentSchedulerCheckpoint) := do
  let s ← get
  return if env.persistent then latest s.saves agentId else none

/-- `persistence.save`. -/
def save (checkpoint : AgentSchedulerCheckpoint) : M Unit := do
  let attempt ← modifyGet fun s => (s.attempts, { s with attempts := s.attempts + 1 })
  match env.refusal attempt with
  | some message => throw (.storage message)
  | none => modify fun s => { s with saves := checkpoint :: s.saves }

/-- The scheduler has to be open and not to have failed. -/
def available : M Unit := do
  let s ← get
  if s.closed then fail .invalidState "调度器已经关闭。"
  match s.failure with
  | some failure => throw failure
  | none => pure ()

/-- `#record`: the record of a registered agent. -/
def recordOf (agentId : AgentId) : M AgentRecord := do
  available
  let s ← get
  match s.agents.get? agentId with
  | some record => return record
  | none => fail .unknownAgent "Agent 尚未注册。"

/-- `agent.transition(next)`. -/
def transition (record : AgentRecord) (next : AgentState) : M AgentRecord :=
  match record.agent.transition next with
  | .ok agent => do
    let record := { record with agent }
    update record
    return record
  | .error edge => throw (.invalidTransition edge)

/-- `if (agent.getState() !== next) agent.transition(next)`. -/
def ensureState (record : AgentRecord) (next : AgentState) : M AgentRecord :=
  if record.agent.state = next then pure record else transition record next

/-- Whether a further run may be taken. -/
def hasCapacity (s : Scheduler) : Bool :=
  s.running < (env.configuration.maxConcurrentRuns.val : ℤ)

/-- Every waiter that is called removes itself. -/
def signalReady : M Unit :=
  modify fun s => if s.queue ≠ [] ∧ hasCapacity env s then { s with readyWaiters := [] } else s

/-- What is told of an agent. -/
def inspect (agentId : AgentId) : M AgentScheduleSnapshot := do
  let record ← recordOf agentId
  return record.snapshot

/-- Clears the timer of every agent and releases every waiter, as a failed save and `close` do. -/
def stopTimers : M Unit :=
  modify fun s =>
    { s with
      agents := s.agents.map AgentRecord.clearTimeout AgentRecord.agentId_clearTimeout
      readyWaiters := [] }

/-- `#persist`. What `onError` does with the failure is outside the scheduler. -/
def persist (record : AgentRecord) : M Unit :=
  if env.persistent then
    tryCatch
      (do
        let snapshot ← inspect record.agentId
        save env
          { toAgentScheduleSnapshot := snapshot
            schemaVersion := 1
            continuation := record.continuation
            recentEventIds := record.recentEvents.entries })
      (fun error => do
        modify fun s => { s with failure := some error }
        stopTimers
        throw error)
  else
    pure ()

/-! ## Sealing, timers, and the return to rest -/

/-- The earliest of the times at which an agent's record needs attention. -/
def AgentRecord.nextDeadline (record : AgentRecord) : Option ℕ :=
  let deadlines := record.pending.entries.map (fun p => p.operation.deadline)
  let resumeAt := (record.suspension.bind AgentSuspension.resumeAt).toList
  let due :=
    if record.suspension.isNone ∧ record.batch.isNone then record.batchDueAt.toList else []
  (deadlines ++ resumeAt ++ due).min?

/-- Arms the timer for the earliest time, by the delay of a timer at most. -/
def armTimer (record : AgentRecord) : M AgentRecord := do
  let record := record.clearTimeout
  update record
  match record.nextDeadline with
  | none => return record
  | some at_ => do
    let t ← now env
    let record := { record with timer := some (t + min 2147483647 (at_ - t)) }
    update record
    return record

/-- The record after an operation ended: its result is collected, and the first result that is
collected starts the batch window. -/
def AgentRecord.withResult (record : AgentRecord) (pending : PendingOperation)
    (outcome : AsyncOperationOutcome) (t window : ℕ) : AgentRecord :=
  { record with
    pending := record.pending.delete pending.operationId
    completed := record.completed.insert { operation := pending.operation, completedAt := t, outcome }
    batchDueAt := some (record.batchDueAt.getD (t + window)) }

/-- Records a result, and when the results are due. -/
def recordResult (record : AgentRecord) (pending : PendingOperation)
    (outcome : AsyncOperationOutcome) (t : ℕ) : M AgentRecord := do
  let record := record.withResult pending outcome t env.configuration.batchWindowMs.val
  update record
  return record

/-- The batch that fixes what a record has collected. -/
def AgentRecord.batchOf (record : AgentRecord) (batchId : String) (sealedAt : ℕ) :
    AgentDispatchBatch where
  agentId := record.agentId
  batchId := batchId
  sealedAt := sealedAt
  results := record.completed.entries
  events := record.events.entries
  pendingOperations := record.pendingOperations
  continuation := record.continuation

/-- The record after its collected results and events were moved into a batch. -/
def AgentRecord.withBatch (record : AgentRecord) (batch : AgentDispatchBatch) : AgentRecord :=
  { record with
    completed := .empty
    events := .empty
    batch := some batch
    batchDueAt := none
    continuation := false }

/-- `#seal`. -/
def sealBatch (record : AgentRecord) : M AgentRecord := do
  let batchId ← randomUUID env
  let sealedAt ← now env
  let batch := record.batchOf batchId sealedAt
  let record ← ensureState record .ready
  let record := record.withBatch batch
  update record
  pushQueue record.agentId
  return record

/-- Whether the collected results are to be delivered now. The clock is read only when results are
waiting for other operations. -/
def resultsReady (record : AgentRecord) : M Bool :=
  if record.completed.size = 0 then pure false
  else if record.pending.size = 0 then pure true
  else
    match record.batchDueAt with
    | none => pure false
    | some due => do
      let t ← now env
      return due ≤ t

/-- The part of `#reconcile` for an agent that is not suspended. -/
def reconcileActive (record : AgentRecord) : M AgentRecord := do
  let record ←
    if record.batch.isSome ∧ record.run.isNone then ensureState record .ready else pure record
  let record ←
    if record.batch.isNone then do
      let ready ← resultsReady env record
      if record.continuation ∨ 0 < record.events.size ∨ ready then
        sealBatch env record
      else
        ensureState record (if 0 < record.pending.size then .blocked else .sleeping)
    else pure record
  persist env record
  let record ← armTimer env record
  signalReady env
  return record

/-- The part of `resume` after the control block was unblocked: a batch to be taken goes back to the
queue, and an agent without a batch is to continue. -/
def requeue (record : AgentRecord) : M AgentRecord :=
  if record.batch.isSome ∧ record.run.isNone then do
    pushQueue record.agentId
    return record
  else if record.batch.isNone then do
    let record := { record with continuation := true }
    update record
    return record
  else
    return record

/-- `resume` reconciles at its end, with the suspension gone. -/
def resume (agentId : AgentId) : M Unit := do
  let record ← recordOf agentId
  if record.suspension.isNone then
    return
  let record := { record with suspension := none }
  update record
  let record ← if record.agent.state = .blocked then transition record .ready else pure record
  let record ← requeue record
  let _ ← reconcileActive env record

/-- Whether a suspension's time has come. -/
def suspensionDue (suspension : AgentSuspension) : M Bool :=
  match suspension.resumeAt with
  | none => pure false
  | some resumeAt => do
    let t ← now env
    return resumeAt ≤ t

/-- An agent that is suspended and not running is blocked. -/
def block (record : AgentRecord) : M AgentRecord := do
  if record.run.isNone then
    let record ←
      if record.agent.state = .sleeping then transition record .ready else pure record
    ensureState record .blocked
  else
    pure record

/-- `#reconcile`: brings a record to rest after its contents have changed. -/
def reconcile (record : AgentRecord) : M Unit :=
  match record.suspension with
  | some suspension => do
    if ← suspensionDue env suspension then
      resume env record.agentId
    else
      let record ← block record
      persist env record
      let _ ← armTimer env record
  | none => do
    let _ ← reconcileActive env record

/-! ## Registration -/

/-- Fresh controllers for the operations of a checkpoint. -/
def restorePending : List AsyncOperation → M (List PendingOperation)
  | [] => return []
  | operation :: rest => do
    let controller ← newController
    let items ← restorePending rest
    return { operation, controller } :: items

/-- The record that a checkpoint describes, for an agent whose control block is `agent`. -/
def AgentSchedulerCheckpoint.record (saved : AgentSchedulerCheckpoint) (agent : SchedulingHandle)
    (pending : List PendingOperation) : AgentRecord where
  agent := agent
  pending := .ofList pending
  completed := .ofList saved.completedResults
  events := .ofList saved.pendingEvents
  recentEvents := .ofList saved.recentEventIds
  batch := (saved.running.map AgentRun.batch).or saved.queuedBatch
  run := none
  continuation := saved.continuation
  batchDueAt := saved.batchDueAt
  timer := none
  suspension := saved.suspension

/-- Whether a record has no batch and nothing to put into one. -/
def AgentRecord.isIdle (record : AgentRecord) : Bool :=
  record.batch.isNone ∧ record.pending.size = 0 ∧ record.completed.size = 0 ∧
    record.events.size = 0

/-- The record of an agent without a checkpoint. -/
def AgentRecord.fresh (agent : SchedulingHandle) : AgentRecord where
  agent := agent
  pending := .empty
  completed := .empty
  events := .empty
  recentEvents := .empty
  batch := none
  run := none
  continuation := agent.state = .ready
  batchDueAt := none
  timer := none
  suspension := none

/-- The record with which a registered agent starts; a queued batch goes back to the queue. -/
def restoreRecord (agent : SchedulingHandle) (saved : AgentSchedulerCheckpoint) :
    M AgentRecord := do
  if saved.schemaVersion ≠ 1 ∨ saved.agentId ≠ agent.agentId then
    fail .invalidInput "不支持的调度恢复数据。"
  let pending ← restorePending saved.pendingOperations
  let record := saved.record agent pending
  let record :=
    if agent.state = .ready ∧ saved.state = .sleeping ∧ record.isIdle then
      { record with continuation := true }
    else record
  if record.batch.isSome ∧ record.suspension.isNone then
    pushQueue agent.agentId
  return record

/-- Registers an agent, with what its checkpoint has. -/
def register (agent : SchedulingHandle) : M Unit := do
  positiveInteger agent.agentId "agentId"
  let s ← get
  if s.agents.has agent.agentId then
    fail .duplicateAgent "该 Agent 已经注册。"
  if agent.state ≠ .ready ∧ agent.state ≠ .sleeping then
    fail .invalidState "注册需要 READY 或 SLEEPING 状态；在途操作不能凭空恢复。"
  let record ←
    match ← load env agent.agentId with
    | none => pure (AgentRecord.fresh agent)
    | some saved => restoreRecord agent saved
  update record
  reconcile env record

/-- Unregisters an agent that sleeps and has nothing to do. -/
def unregister (agentId : AgentId) : M Unit := do
  let record ← recordOf agentId
  if record.agent.state ≠ .sleeping ∨ 0 < record.pending.size ∨ 0 < record.completed.size ∨
      0 < record.events.size ∨ record.batch.isSome ∨ record.run.isSome then
    fail .invalidState "存在未处理工作，不能移除 Agent。"
  modify fun s => { s with agents := s.agents.delete agentId }

/-! ## Events and runs -/

/-- Whether an event was seen recently, is buffered, or is in the batch. -/
def AgentRecord.knows (record : AgentRecord) (eventId : String) : Bool :=
  record.recentEvents.has eventId || record.events.has eventId ||
    record.batchEvents.any (·.eventId = eventId)

/-- The record after an event was accepted. -/
def AgentRecord.withEvent (record : AgentRecord) (event : AgentWakeEvent) (limit : ℕ) :
    AgentRecord :=
  { record with
    events := record.events.insert event
    recentEvents := (record.recentEvents.insert event.eventId).dropOldest limit }

/-- An event for an agent, unless it is known. -/
def notify (agentId : AgentId) (event : AgentWakeEvent) : M Bool := do
  let record ← recordOf agentId
  nonempty event.eventId "eventId"
  nonempty event.eventRef "eventRef"
  if record.knows event.eventId then
    return false
  if record.events.size + record.batchEvents.length ≥ env.configuration.maxBufferedEvents.val then
    fail .capacityExceeded "待处理外部事件已达上限，调用方应保留并稍后重投。"
  let record := record.withEvent event env.configuration.recentEventLimit.val
  update record
  reconcile env record
  return true

/-- The record whose batch was taken by a run, or given back. -/
def AgentRecord.withRun (record : AgentRecord) (run : Option AgentRun) : AgentRecord :=
  { record with run }

/-- The record whose run has ended with its batch consumed. -/
def AgentRecord.finished (record : AgentRecord) (intent : AgentRunIntent) : AgentRecord :=
  { record with run := none, batch := none, continuation := intent = AgentRunIntent.continue }

/-- Takes the run of the agent that is first in the queue. -/
def takeNextRun : M (Option AgentRun) := do
  available
  let s ← get
  if !hasCapacity env s then
    return none
  match s.queue with
  | [] => return none
  | agentId :: _ => do
    let record ← recordOf agentId
    match record.batch, record.run with
    | some batch, none => do
      let runId ← randomUUID env
      let run : AgentRun := { agentId, runId, batch }
      let record ← transition record .running
      let record := record.withRun (some run)
      update record
      modify fun s => { s with queue := s.queue.tail, running := s.running + 1 }
      persist env record
      return some run
    | _, _ => fail .invalidState "就绪队列与封存批次不一致。"

/-- `#activeRecord`: the record of an agent whose current run is the one given. -/
def activeRecord (run : AgentRun) : M AgentRecord := do
  let record ← recordOf run.agentId
  match record.run with
  | none => fail .staleRun "运行凭据已经失效，不能处理另一轮结果。"
  | some current => do
    if current.runId ≠ run.runId ∨ current.batch.batchId ≠ run.batch.batchId then
      fail .staleRun "运行凭据已经失效，不能处理另一轮结果。"
    if record.agent.state ≠ .running then
      fail .invalidState "ACB 状态被调度器之外的调用方修改。"
    return record

/-- Finishes the run of an agent, as it intends. -/
def finishRun (run : AgentRun) (intent : AgentRunIntent) : M Unit := do
  let record ← activeRecord run
  let record := record.finished intent
  update record
  modify fun s => { s with running := s.running - 1 }
  reconcile env record
  signalReady env

/-- The run of an agent goes back into the queue. -/
def returnRun (run : AgentRun) : M Unit := do
  let record ← activeRecord run
  let record ← transition record .ready
  let record := record.withRun none
  update record
  modify fun s => { s with running := s.running - 1 }
  if record.suspension.isNone then
    pushQueue run.agentId
  persist env record
  reconcile env record
  signalReady env

/-! ## Waiting for a run -/

/-- Either there is a run to take, or the waiter is registered under a number. -/
inductive Wait where
  | resolved
  | rejected
  | waiting (waiter : ℕ)
deriving DecidableEq, Repr

/-- `waitForReady`; `waiter` names the promise that is returned. -/
def waitForReady (aborted : Bool) (waiter : ℕ) : M Wait := do
  available
  if aborted then
    return .rejected
  let s ← get
  if s.queue ≠ [] ∧ hasCapacity env s then
    return .resolved
  set { s with readyWaiters := s.readyWaiters ++ [waiter] }
  return .waiting waiter

/-- The abort signal of a waiter. -/
def abortWait (waiter : ℕ) : M Unit :=
  modify fun s => { s with readyWaiters := s.readyWaiters.filter (· ≠ waiter) }

/-! ## Operations -/

/-- What `registerOperations` reads of the record before it stages the operations. -/
structure Staging where
  run : AgentRun
  record : AgentRecord
  /-- The operations that ended and were not consumed, by their identifier. -/
  terminal : OrderedMap AsyncOperation.operationId
  /-- The time at which the operations start. -/
  startedAt : ℕ

/-- An operation that has ended: its signal is aborted from the start. -/
def stageEnded (operation : AsyncOperation) : M PendingOperation := do
  let controller ← newController
  abort controller "操作已经完成，不能再次执行。"
  return { operation, controller }

/-- An operation that is to be registered. -/
def stageNew (staging : Staging) (options : AsyncOperationOptions) : M PendingOperation := do
  let timeoutMs := options.timeoutMs.getD env.configuration.operationTimeoutMs.val
  positiveInteger timeoutMs "timeoutMs"
  let deadline := staging.startedAt + timeoutMs
  positiveInteger deadline "deadline"
  let operationId ←
    match options.operationId with
    | some operationId => pure operationId
    | none => randomUUID env
  let controller ← newController
  return {
    operation :=
      { agentId := staging.run.agentId
        operationId
        originRunId := staging.run.runId
        startedAt := staging.startedAt
        deadline }
    controller }

/-- The operation in flight, or staged before, that has the identifier of the options. -/
def Staging.previous (staging : Staging) (staged : OrderedMap PendingOperation.operationId)
    (options : AsyncOperationOptions) : Option PendingOperation :=
  options.operationId.bind fun operationId =>
    (staging.record.pending.get? operationId).or (staged.get? operationId)

/-- One step of the loop over the options: the operation that the caller gets, and the operations
that are to be registered. -/
def stageOperation (staging : Staging) (staged : OrderedMap PendingOperation.operationId)
    (options : AsyncOperationOptions) :
    M (PendingOperation × OrderedMap PendingOperation.operationId) := do
  nonemptyIfPresent options.operationId "operationId"
  match staging.previous staged options with
  | some item => return (item, staged)
  | none =>
    match options.operationId.bind staging.terminal.get? with
    | some operation => do
      let item ← stageEnded operation
      return (item, staged)
    | none => do
      let item ← stageNew env staging options
      return (item, staged.insert item)

/-- The loop over the options. -/
def stageOperations (staging : Staging) :
    List AsyncOperationOptions → OrderedMap PendingOperation.operationId →
      M (List PendingOperation × OrderedMap PendingOperation.operationId)
  | [], staged => return ([], staged)
  | options :: rest, staged => do
    let first ← stageOperation env staging staged options
    let others ← stageOperations staging rest first.2
    return (first.1 :: others.1, others.2)

/-- How many operations of a record are not consumed. -/
def AgentRecord.buffered (record : AgentRecord) : ℕ :=
  record.pending.size + record.completed.size + record.batchResults.length

/-- The record after staged operations were registered. -/
def AgentRecord.withStaged (record : AgentRecord)
    (staged : OrderedMap PendingOperation.operationId) : AgentRecord :=
  { record with pending := record.pending.insertAll staged.entries }

/-- Registers operations of a run. -/
def registerOperations (run : AgentRun) (operations : List AsyncOperationOptions) :
    M (List PendingOperation) := do
  let record ← activeRecord run
  let terminal :=
    (record.completed.entries ++ record.batchResults).map AsyncOperationResult.operation
  let startedAt ← now env
  let staged ←
    stageOperations env { run, record, terminal := .ofList terminal, startedAt } operations .empty
  if record.buffered + staged.2.size > env.configuration.maxBufferedOperations.val then
    fail .capacityExceeded "未消费异步操作已达上限，请先处理已有结果。"
  let record := record.withStaged staged.2
  update record
  persist env record
  let _ ← armTimer env record
  return staged.1

/-- Completes an operation that is in flight. -/
def completeOperation (operation : AsyncOperation) (outcome : AsyncOperationOutcome) : M Bool := do
  let s ← get
  match s.agents.get? operation.agentId with
  | none => return false
  | some record =>
    match record.pending.get? operation.operationId with
    | none => return false
    | some pending => do
      if pending.operation.originRunId ≠ operation.originRunId then
        return false
      let result ← copyOutcome outcome
      let t ← now env
      let expired : Bool := pending.operation.deadline ≤ t
      let record ← recordResult env record pending (if expired then .timedOut else result) t
      reconcile env record
      if expired ∨ result = .timedOut then
        abort pending.controller "异步操作等待超时。"
      return !expired

/-- The handle of an operation that is in flight. -/
def operationHandle (operation : AsyncOperation) : M (Option PendingOperation) := do
  let record ← recordOf operation.agentId
  match record.pending.get? operation.operationId with
  | none => return none
  | some item => return if item.operation.originRunId = operation.originRunId then some item else none

/-- Cancels a list of operations in order; the clock is read for each. -/
def cancelEach (record : AgentRecord) (reason : String) : List PendingOperation → M AgentRecord
  | [] => return record
  | item :: rest => do
    let t ← now env
    let record ← recordResult env record item (.cancelled reason) t
    cancelEach record reason rest

/-- Cancels the operations of an agent. -/
def cancelOperations (agentId : AgentId) (reason : String) : M Unit := do
  let record ← recordOf agentId
  let pending := record.pending.entries
  let record ← cancelEach env record reason pending
  reconcile env record
  abortAll (pending.map PendingOperation.controller) reason

/-! ## Suspension, timers, and the end -/

/-- The record of an agent that is to pause. -/
def AgentRecord.suspended (record : AgentRecord) (suspension : AgentSuspension) : AgentRecord :=
  { record with suspension := some suspension }

/-- Suspends an agent. -/
def suspend (agentId : AgentId) (suspension : AgentSuspension) : M Unit := do
  let record ← recordOf agentId
  nonempty suspension.reason "reason"
  positiveIntegerIfPresent suspension.resumeAt "resumeAt"
  let record := record.suspended suspension
  update record
  modify fun s => { s with queue := s.queue.erase agentId }
  let record ← block record
  persist env record
  let _ ← armTimer env record

/-- Records the timeout of each operation of a list whose deadline has passed. -/
def expireEach (record : AgentRecord) (t : ℕ) : List PendingOperation → M AgentRecord
  | [] => return record
  | item :: rest => do
    let record ←
      if item.operation.deadline ≤ t then recordResult env record item .timedOut t
      else pure record
    expireEach record t rest

/-- `#onTimer`. -/
def onTimer (record : AgentRecord) : M Unit := do
  let s ← get
  if s.closed ∨ s.failure.isSome then
    return
  let record := record.clearTimeout
  update record
  let t ← now env
  let expired := record.pending.entries.filter (fun item => item.operation.deadline ≤ t)
  let record ← expireEach env record t record.pending.entries
  reconcile env record
  abortAll (expired.map PendingOperation.controller) "异步操作等待超时。"

/-- The callback of an agent's timer; a timer that is not armed does not fire. -/
def fireTimer (agentId : AgentId) : M Unit := do
  let s ← get
  match s.agents.get? agentId with
  | none => pure ()
  | some record =>
    if record.timer.isNone then pure ()
    else
      tryCatch (onTimer env record) fun error =>
        modify fun s => { s with failure := s.failure.or (some error), readyWaiters := [] }

/-- Closes the scheduler. -/
def close : M Unit := do
  modify fun s => { s with closed := true }
  stopTimers

end

/-! ## Restarting -/

/-- Whether a checkpoint leaves something to do. -/
def AgentSchedulerCheckpoint.unfinished (c : AgentSchedulerCheckpoint) : Bool :=
  c.queuedBatch.isSome || c.running.isSome || !c.pendingOperations.isEmpty ||
    !c.completedResults.isEmpty || !c.pendingEvents.isEmpty || c.suspension.isSome

/-- The state in which `#attach` of the runtime creates the control block of an agent that it
registers: ready if anything is left to do. -/
def attachState (saved : Option AgentSchedulerCheckpoint) (needsRun : Bool) : AgentState :=
  if saved.any AgentSchedulerCheckpoint.unfinished || needsRun then .ready else .sleeping

end OsAgent.AgentScheduler
