import OsAgent.Capability.Resource
import OsAgent.Library.Json

/-!
# Asynchronous work

The tools and the children that a task has started, in generations (`kernel/async-work.ts`), and the
update that brings their results into the task's context (`kernel/context.ts`).
-/

namespace OsAgent.Kernel

open OsAgent.Library OsAgent.Capability

/-- Unix milliseconds. -/
abbrev Timestamp := ℕ

/-- How a task ended. -/
inductive Termination where
  | completed (output : JsonValue)
  | failed (error : String)
  | cancelled (reason : String)
  | needsParentAction (requiredWork : String) (partialOutput : Option JsonValue)
deriving Repr

/-- What does the work. -/
inductive AsyncWorkKind where
  | subagent
  | tool
deriving DecidableEq, Repr

/-- How far the work is. -/
inductive AsyncWorkStatus where
  | cancelled
  | completed
  | failed
  | running
  | waitingForCapability
  | timedOut
deriving DecidableEq, Repr

/-- Work is over unless it runs or waits for a capability. -/
def isAsyncWorkTerminalStatus (status : AsyncWorkStatus) : Bool :=
  status ≠ .running ∧ status ≠ .waitingForCapability

/-- What is said of work when it is registered. -/
structure AsyncWorkRegistration where
  workId : String
  kind : AsyncWorkKind
  label : String
  graphNodeAlias : Option String := none
  childTaskId : Option String := none
  toolName : Option String := none
deriving DecidableEq, Repr

/-- A child waits until its parent has decided on a request of its. -/
structure AsyncWorkCapabilityBlocker where
  requestRef : String
  requests : List CapabilityRequest
  blockedAt : Timestamp
  deliveredAt : Option Timestamp := none
deriving DecidableEq, Repr

/-- What is known of work. -/
structure AsyncWorkRecord extends AsyncWorkRegistration where
  status : AsyncWorkStatus
  startedAt : Timestamp
  completedAt : Option Timestamp := none
  deliveredAt : Option Timestamp := none
  output : Option JsonValue := none
  termination : Option Termination := none
  error : Option String := none
  blocker : Option AsyncWorkCapabilityBlocker := none
deriving Repr

/-- Work that was started together. -/
structure AsyncWorkGeneration where
  generationId : String
  createdAt : Timestamp
  work : List AsyncWorkRecord
  closedAt : Option Timestamp := none
deriving Repr

/-- What is delivered of work that is over. -/
structure AsyncWorkResult where
  workId : String
  kind : AsyncWorkKind
  label : String
  graphNodeAlias : Option String
  status : AsyncWorkStatus
  completedAt : Timestamp
  output : Option JsonValue
  termination : Option Termination
  error : Option String
deriving Repr

/-- What is delivered of work that is not over. -/
structure AsyncWorkPending where
  workId : String
  kind : AsyncWorkKind
  label : String
  graphNodeAlias : Option String
  startedAt : Timestamp
  status : AsyncWorkStatus
  /-- Without the time at which it was delivered. -/
  blocker : Option AsyncWorkCapabilityBlocker
deriving Repr

/-- `AsyncWorkUpdateContextItem`. -/
structure AsyncWorkUpdate where
  generationId : String
  results : List AsyncWorkResult
  pending : List AsyncWorkPending
  allFinished : Bool
deriving Repr

namespace AsyncWorkRecord

variable (work : AsyncWorkRecord)

/-- The work has come to its end. -/
def terminal : Bool := isAsyncWorkTerminalStatus work.status

/-- The result is there, and the task has not seen it. -/
def undelivered : Bool := work.terminal ∧ work.deliveredAt = none

/-- The work is blocked, and the task has not seen that it is. -/
def newlyBlocked : Bool :=
  work.status = .waitingForCapability ∧
    (work.blocker.any fun blocker => blocker.deliveredAt = none)

/-- The result as an update brings it. -/
def result (now : Timestamp) : AsyncWorkResult where
  workId := work.workId
  kind := work.kind
  label := work.label
  graphNodeAlias := work.graphNodeAlias
  status := work.status
  completedAt := work.completedAt.getD now
  output := work.output
  termination := work.termination
  error := work.error

/-- Unfinished work as an update mentions it. -/
def pending : AsyncWorkPending where
  workId := work.workId
  kind := work.kind
  label := work.label
  graphNodeAlias := work.graphNodeAlias
  startedAt := work.startedAt
  status := if work.status = .waitingForCapability then .waitingForCapability else .running
  blocker := work.blocker.map fun blocker => { blocker with deliveredAt := none }

/-- The task sees the work's result, or that the work is blocked. -/
def deliver (now : Timestamp) : AsyncWorkRecord :=
  if work.undelivered then { work with deliveredAt := some now }
  else if work.newlyBlocked then
    { work with blocker := work.blocker.map fun blocker => { blocker with deliveredAt := some now } }
  else work

/-- The task is to be told again that the work is blocked. -/
def requeueBlocker : AsyncWorkRecord :=
  if work.status = .waitingForCapability then
    { work with blocker := work.blocker.map fun blocker => { blocker with deliveredAt := none } }
  else work

/-- The work comes to its end. What the result does not bring is kept. -/
def finish (status : AsyncWorkStatus) (now : Timestamp) (output : Option JsonValue)
    (termination : Option Termination) (error : Option String) : AsyncWorkRecord :=
  { work with
    status
    blocker := none
    completedAt := some now
    output := output.orElse fun _ => work.output
    termination := termination.orElse fun _ => work.termination
    error := error.orElse fun _ => work.error }

end AsyncWorkRecord

namespace AsyncWorkGeneration

variable (generation : AsyncWorkGeneration)

/-- A generation is open until it is closed. -/
def isOpen : Bool := generation.closedAt.isNone

/-- All work of a generation is over. -/
def allFinished : Bool := generation.work.all AsyncWorkRecord.terminal

/-- The update that brings what the task has not seen of a generation. -/
def update (now : Timestamp) : AsyncWorkUpdate where
  generationId := generation.generationId
  results := (generation.work.filter AsyncWorkRecord.undelivered).map (·.result now)
  pending := (generation.work.filter fun work => !work.terminal).map AsyncWorkRecord.pending
  allFinished := generation.allFinished

/-- The generation when the update has been taken. -/
def claimed (now : Timestamp) : AsyncWorkGeneration :=
  { generation with
    work := generation.work.map (·.deliver now)
    closedAt := if generation.allFinished then some now else generation.closedAt }

end AsyncWorkGeneration

end OsAgent.Kernel
