import OsAgent.ControlBlock
import OsAgent.Library.OrderedMap
import OsAgent.Library.Script
import Mathlib.Data.Nat.Notation

/-!
# The data of the agent scheduler

The types of `agent-scheduler/api.ts`, the record that `internal/scheduler.ts` keeps for each agent,
and the checks on inputs. An identifier is a text, a time is a number of milliseconds, and a map of
the source from an identifier to the value that carries it is an `OrderedMap`.
-/

namespace OsAgent.AgentScheduler

open OsAgent.Library OsAgent.ControlBlock

/-- An external operation that has been started and has not ended. -/
structure AsyncOperation where
  agentId : AgentId
  operationId : String
  originRunId : String
  startedAt : ℕ
  deadline : ℕ
deriving DecidableEq, Repr

/-- How an operation ended. -/
inductive AsyncOperationOutcome where
  | succeeded (resultRef : String)
  | failed (error : String) (resultRef : Option String)
  | cancelled (reason : String)
  | timedOut
deriving DecidableEq, Repr

/-- The terminal record of an operation. -/
structure AsyncOperationResult where
  operation : AsyncOperation
  completedAt : ℕ
  outcome : AsyncOperationOutcome
deriving DecidableEq, Repr

/-- What a caller gives to register an operation; absent fields take the scheduler's defaults. -/
structure AsyncOperationOptions where
  timeoutMs : Option ℕ
  operationId : Option String
deriving DecidableEq, Repr

/-- A message or another external event, by reference. -/
structure AgentWakeEvent where
  eventId : String
  eventRef : String
deriving DecidableEq, Repr

/-- The inputs of one run, fixed when the batch is queued. -/
structure AgentDispatchBatch where
  agentId : AgentId
  batchId : String
  sealedAt : ℕ
  results : List AsyncOperationResult
  events : List AgentWakeEvent
  pendingOperations : List AsyncOperation
  continuation : Bool
deriving DecidableEq, Repr

/-- The credential of the run that holds a batch. -/
structure AgentRun where
  agentId : AgentId
  runId : String
  batch : AgentDispatchBatch
deriving DecidableEq, Repr

/-- What the holder of a run asks for when the run ends. -/
inductive AgentRunIntent where
  | continue
  | idle
deriving DecidableEq, Repr

/-- A pause, until a time or until the host resumes the agent. -/
structure AgentSuspension where
  reason : String
  resumeAt : Option ℕ
deriving DecidableEq, Repr

/-- A read-only view of an agent's record. -/
structure AgentScheduleSnapshot where
  agentId : AgentId
  state : AgentState
  pendingOperations : List AsyncOperation
  completedResults : List AsyncOperationResult
  pendingEvents : List AgentWakeEvent
  queuedBatch : Option AgentDispatchBatch
  running : Option AgentRun
  batchDueAt : Option ℕ
  suspension : Option AgentSuspension
deriving DecidableEq, Repr

/-- What persistence saves of an agent. -/
structure AgentSchedulerCheckpoint extends AgentScheduleSnapshot where
  schemaVersion : ℕ
  continuation : Bool
  recentEventIds : List String
deriving DecidableEq, Repr

/-- The codes of the errors that the scheduler throws itself. -/
inductive AgentSchedulerErrorCode where
  | invalidInput
  | duplicateAgent
  | unknownAgent
  | invalidState
  | staleRun
  | capacityExceeded
deriving DecidableEq, Repr

/-- What an operation may throw: the scheduler's own errors, the control block's, and the store's. -/
inductive Fault where
  | scheduler (code : AgentSchedulerErrorCode) (message : String)
  | invalidTransition (edge : InvalidAgentTransition)
  | storage (message : String)
deriving DecidableEq, Repr

/-! ## The record of an agent -/

/-- An abort controller, by the order of its creation. -/
abbrev AbortController := ℕ

/-- An operation in flight, with the controller by which its waiting is aborted. -/
structure PendingOperation where
  operation : AsyncOperation
  controller : AbortController
deriving DecidableEq, Repr

/-- The key of an operation in flight. -/
def PendingOperation.operationId (p : PendingOperation) : String := p.operation.operationId

/-- The key of a result. -/
def AsyncOperationResult.operationId (r : AsyncOperationResult) : String := r.operation.operationId

/-- What the scheduler keeps for an agent. The control block is the handle, and an armed timer is
the time at which it is to fire. -/
structure AgentRecord where
  agent : SchedulingHandle
  pending : OrderedMap PendingOperation.operationId
  completed : OrderedMap AsyncOperationResult.operationId
  events : OrderedMap AgentWakeEvent.eventId
  recentEvents : OrderedMap (id : String → String)
  batch : Option AgentDispatchBatch
  run : Option AgentRun
  continuation : Bool
  batchDueAt : Option ℕ
  timer : Option ℕ
  suspension : Option AgentSuspension
deriving DecidableEq

namespace AgentRecord

/-- The key of a record. -/
def agentId (r : AgentRecord) : AgentId := r.agent.agentId

/-- The record without a timer. -/
def clearTimeout (r : AgentRecord) : AgentRecord := { r with timer := none }

/-- `clearTimeout` is about the same agent. -/
theorem agentId_clearTimeout (r : AgentRecord) : r.clearTimeout.agentId = r.agentId := rfl

/-- The operations in flight, as a snapshot and a batch list them. -/
def pendingOperations (r : AgentRecord) : List AsyncOperation :=
  r.pending.entries.map PendingOperation.operation

/-- The results of the batch that is queued or running. -/
def batchResults (r : AgentRecord) : List AsyncOperationResult :=
  (r.batch.map AgentDispatchBatch.results).getD []

/-- The events of the batch that is queued or running. -/
def batchEvents (r : AgentRecord) : List AgentWakeEvent :=
  (r.batch.map AgentDispatchBatch.events).getD []

/-- The view of a record that `inspect` returns. -/
def snapshot (r : AgentRecord) : AgentScheduleSnapshot where
  agentId := r.agentId
  state := r.agent.state
  pendingOperations := r.pendingOperations
  completedResults := r.completed.entries
  pendingEvents := r.events.entries
  queuedBatch := if r.run.isSome then none else r.batch
  running := r.run
  batchDueAt := r.batchDueAt
  suspension := r.suspension

/-- What `persist` saves of a record. -/
def checkpoint (r : AgentRecord) : AgentSchedulerCheckpoint where
  toAgentScheduleSnapshot := r.snapshot
  schemaVersion := 1
  continuation := r.continuation
  recentEventIds := r.recentEvents.entries

end AgentRecord

/-! ## Options -/

/-- The options a caller may give. -/
structure AgentSchedulerOptions where
  batchWindowMs : Option ℕ
  operationTimeoutMs : Option ℕ
  maxConcurrentRuns : Option ℕ
  maxBufferedOperations : Option ℕ
  maxBufferedEvents : Option ℕ
  recentEventLimit : Option ℕ
deriving DecidableEq, Repr

/-- A positive safe integer. -/
abbrev PositiveInteger := { n : ℕ // isPositiveInteger n = true }

/-- The options with every default filled in and every check passed. -/
structure Configuration where
  batchWindowMs : PositiveInteger
  operationTimeoutMs : PositiveInteger
  maxConcurrentRuns : PositiveInteger
  maxBufferedOperations : PositiveInteger
  maxBufferedEvents : PositiveInteger
  recentEventLimit : PositiveInteger

/-- `positiveInteger`, with the value that passed. -/
def requirePositiveInteger (value : ℕ) (field : String) : Except Fault PositiveInteger :=
  if h : isPositiveInteger value = true then
    .ok ⟨value, h⟩
  else
    .error (.scheduler .invalidInput (field ++ " 必须为正安全整数。"))

/-- The part of `createAgentScheduler` that fills in the defaults and checks the options. -/
def configure (options : AgentSchedulerOptions) : Except Fault Configuration := do
  return {
    batchWindowMs :=
      ← requirePositiveInteger (options.batchWindowMs.getD 30000) "batchWindowMs"
    operationTimeoutMs :=
      ← requirePositiveInteger (options.operationTimeoutMs.getD 120000) "operationTimeoutMs"
    maxConcurrentRuns :=
      ← requirePositiveInteger (options.maxConcurrentRuns.getD 4) "maxConcurrentRuns"
    maxBufferedOperations :=
      ← requirePositiveInteger (options.maxBufferedOperations.getD 256) "maxBufferedOperations"
    maxBufferedEvents :=
      ← requirePositiveInteger (options.maxBufferedEvents.getD 256) "maxBufferedEvents"
    recentEventLimit :=
      ← requirePositiveInteger (options.recentEventLimit.getD 1024) "recentEventLimit" }

end OsAgent.AgentScheduler
