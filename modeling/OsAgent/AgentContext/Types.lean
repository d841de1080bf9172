import OsAgent.Library.Json
import OsAgent.Library.Script

/-!
# The data of the agent context

The types of `agent-context/api.ts` and `agent-context/management.ts`, and what `JSON.stringify` is
given of them. Where the source's type fixes a field (the schema version, the level of a frame, the
target of its chain) the field is not stored; it is written when the value is. A frame of any level
is a `ContextFrame`, and what the levels share is a `ContextFrameData`.
-/

namespace OsAgent.Context

open OsAgent.Library

/-- The level of a frame. -/
inductive ContextLevel where
  | one
  | two
  | three
deriving DecidableEq, Repr

/-- The number that the source gives a level. -/
def ContextLevel.toNat : ContextLevel → ℕ
  | .one => 1
  | .two => 2
  | .three => 3

/-- A work item, with its identity. -/
structure ContextTaskDefinition where
  id : String
  objective : String
deriving DecidableEq, Repr

/-- A reference to a task of the plan of a parent frame. -/
structure ContextTaskRef where
  frameId : String
  planRevision : ℕ
  taskId : String
deriving DecidableEq, Repr

/-- What kind of observation it is. -/
inductive ContextObservationKind where
  | fact
  | hypothesis
deriving DecidableEq, Repr

/-- A statement, with what it rests on. -/
structure ContextObservation where
  kind : ContextObservationKind
  statement : String
  sourceRefs : List String
deriving DecidableEq, Repr

/-- A lesson, with where it applies. -/
structure ContextLesson where
  statement : String
  scope : String
  sourceRefs : List String
deriving DecidableEq, Repr

/-- What is kept of finished or compacted work. -/
structure ContextSummary where
  outcome : String
  observations : List ContextObservation
  decisions : List String
  artifactRefs : List String
  unresolved : List String
  nextResponsibilities : List String
  lessonCandidates : List ContextLesson
  sourceRefs : List String
deriving DecidableEq, Repr

/-- How far a task is, with what the state carries. -/
inductive ContextTaskState where
  | waiting
  | running
  | completed (result : ContextSummary)
  | interrupted (reason : String) (partialResult : Option ContextSummary)
  | superseded
deriving DecidableEq, Repr

/-- A task of a plan. -/
structure ContextTask extends ContextTaskDefinition where
  state : ContextTaskState
deriving DecidableEq, Repr

/-- Why a plan was replaced. -/
structure ContextReplan where
  reason : String
  previousPlanRef : String
  partialResult : Option ContextSummary
deriving DecidableEq, Repr

/-- The phase of a chain. Only the planning phase may carry a replan, and only the executing phase
has a current task. -/
inductive ContextPhase where
  | planning (replan : Option ContextReplan)
  | executing (currentTaskId : String)
deriving DecidableEq, Repr

/-- The tasks of a frame. Revision 0 means that no plan is installed. -/
structure ContextTaskChain where
  revision : ℕ
  tasks : List ContextTask
  phase : ContextPhase
deriving DecidableEq, Repr

/-- Who wrote a message. -/
inductive ContextRole where
  | user
  | assistant
deriving DecidableEq, Repr

/-- What an entry records. -/
inductive ContextEntryContent where
  | message (role : ContextRole) (content : String) (attachmentRefs : Option (List String))
  | event (name : String) (data : JsonValue)
  | toolCall (callId : String) (toolName : String) (input : JsonValue)
  | toolResult (callId : String) (toolName : String) (output : JsonValue)
  | observation (observation : ContextObservation)
deriving Repr

/-- A semantic record. -/
structure ContextEntry where
  id : String
  createdAt : ℕ
  content : ContextEntryContent
deriving Repr

/-- The active memory of a frame. -/
structure ContextMemory where
  summary : Option ContextSummary
  lessons : List ContextLesson
  recentEntries : List ContextEntry
  historyRef : Option String
deriving Repr

/-- The capacity of a frame. -/
structure ContextBudget where
  maxTokens : ℕ
  compactAtTokens : ℕ
  targetTokens : ℕ
  maxTasks : ℕ
deriving DecidableEq, Repr

/-! ## Frames -/

/-- What frames of every level have. -/
structure ContextFrameData where
  id : String
  memory : ContextMemory
  budget : ContextBudget
  taskChain : ContextTaskChain
deriving Repr

/-- The root frame, which is always there. -/
structure LevelOneContext extends ContextFrameData where
  instructions : List String
  currentTask : ContextTaskDefinition
deriving Repr

/-- A frame for a task of the root's plan. -/
structure LevelTwoContext extends ContextFrameData where
  currentTask : ContextTaskRef
deriving Repr

/-- A frame for a task of the second level's plan. -/
structure LevelThreeContext extends ContextFrameData where
  currentTask : ContextTaskRef
deriving Repr

/-- A frame of any level. -/
inductive ContextFrame where
  | one (frame : LevelOneContext)
  | two (frame : LevelTwoContext)
  | three (frame : LevelThreeContext)
deriving Repr

namespace ContextFrame

/-- The level of a frame. -/
def level : ContextFrame → ContextLevel
  | .one _ => .one
  | .two _ => .two
  | .three _ => .three

/-- What the frame has in common with frames of every level. -/
def data : ContextFrame → ContextFrameData
  | .one frame => frame.toContextFrameData
  | .two frame => frame.toContextFrameData
  | .three frame => frame.toContextFrameData

/-- `{ ...frame, ...data }`. -/
def withData : ContextFrame → ContextFrameData → ContextFrame
  | .one frame, data => .one { frame with toContextFrameData := data }
  | .two frame, data => .two { frame with toContextFrameData := data }
  | .three frame, data => .three { frame with toContextFrameData := data }

/-- A frame has the data that it was given. -/
@[simp]
theorem data_withData (frame : ContextFrame) (data : ContextFrameData) :
    (frame.withData data).data = data := by
  cases frame <;> rfl

/-- Other data leave a frame at its level. -/
@[simp]
theorem level_withData (frame : ContextFrame) (data : ContextFrameData) :
    (frame.withData data).level = frame.level := by
  cases frame <;> rfl

/-- Only the last data count. -/
@[simp]
theorem withData_withData (frame : ContextFrame) (data data' : ContextFrameData) :
    (frame.withData data).withData data' = frame.withData data' := by
  cases frame <;> rfl

end ContextFrame

/-- The active contexts of an agent. -/
structure AgentContext where
  level1 : LevelOneContext
  level2 : Option LevelTwoContext
  level3 : Option LevelThreeContext
deriving Repr

/-! ## Checkpoints -/

/-- A frame and its plan, as a result may name them. -/
structure ContextCursor where
  frameId : String
  planRevision : ℕ
deriving DecidableEq, Repr

/-- What a summary is for. -/
inductive ContextSummaryPurpose where
  | complete
  | interrupt
  | compact
  | idle
deriving DecidableEq, Repr

/-- A summary that is still to be made, of a context that was sealed. -/
structure PendingContextSummary extends ContextCursor where
  id : String
  purpose : ContextSummaryPurpose
  reason : String
  sourceRef : String
  allowedRefs : List String
  attempts : ℕ
  lastError : Option String
deriving DecidableEq, Repr

/-- An input, under the key of its source. -/
structure ContextDelivery where
  key : String
  entries : List ContextEntry
  target : Option ContextCursor
deriving Repr

/-- What the host fixes. -/
structure ContextPolicy where
  budgets : ContextLevel → ContextBudget
  maxSummaryAttempts : ℕ
  maxInbox : ℕ
  maxDeliveryBytes : ℕ

/-- The whole state of a manager. -/
structure ContextCheckpoint where
  revision : ℕ
  context : AgentContext
  policy : ContextPolicy
  runnable : Bool
  pendingSummary : Option PendingContextSummary
  inbox : List ContextDelivery

/-- What a round may decide. -/
inductive ContextDecision where
  | plan (objectives : List String)
  | replan (objectives : List String) (reason : String)
  | advance
  | stepCompleted (result : ContextSummary)
  | complete
  | interrupt (reason : String)
  | compact
  | idle
  | finishTurn
  | continue
  | wait
deriving DecidableEq, Repr

/-- A record of the history. -/
inductive ContextRecord where
  | history (delivery : ContextDelivery)
  | frame (context : AgentContext)
  | summary (sourceRef : String) (summary : ContextSummary)
deriving Repr

/-- A record that is to be written. -/
structure ContextStoreWrite where
  ref : String
  record : ContextRecord
deriving Repr

/-- Whether the agent goes on. -/
inductive ContextIntent where
  | continue
  | idle
deriving DecidableEq, Repr

/-- What is noted of a round. -/
structure ContextReceipt where
  key : String
  intent : ContextIntent
deriving DecidableEq, Repr

/-! ## Errors -/

/-- The codes of the manager's own errors. -/
inductive ContextErrorCode where
  | invalidInput
  | invalidState
  | staleContext
  | budgetExceeded
  | summaryTooLarge
  | retryExhausted
  | storageConflict
deriving DecidableEq, Repr

/-- What an operation may throw: an `AgentContextError`, or an error of the store. -/
inductive Fault where
  | context (code : ContextErrorCode) (message : String)
  | storage (message : String)
deriving DecidableEq, Repr

/-! ## JSON -/

section Json

/-- A list of values. -/
def jsonArray {α : Type} (toJson : α → JsonValue) (l : List α) : JsonValue := .array (l.map toJson)

/-- A value or `null`. -/
def jsonOrNull {α : Type} (toJson : α → JsonValue) : Option α → JsonValue
  | none => .null
  | some a => toJson a

/-- How a reference to a task is written. -/
def ContextTaskRef.toJson (r : ContextTaskRef) : JsonValue :=
  .object [("frameId", .string r.frameId), ("planRevision", .ofNat r.planRevision),
    ("taskId", .string r.taskId)]

/-- How a kind is written. -/
def ContextObservationKind.toJson : ContextObservationKind → JsonValue
  | .fact => .string "fact"
  | .hypothesis => .string "hypothesis"

/-- How an observation is written. -/
def ContextObservation.toJson (o : ContextObservation) : JsonValue :=
  .object [("kind", o.kind.toJson), ("statement", .string o.statement),
    ("sourceRefs", .strings o.sourceRefs)]

/-- How a lesson is written. -/
def ContextLesson.toJson (l : ContextLesson) : JsonValue :=
  .object [("statement", .string l.statement), ("scope", .string l.scope),
    ("sourceRefs", .strings l.sourceRefs)]

/-- How a summary is written. -/
def ContextSummary.toJson (s : ContextSummary) : JsonValue :=
  .object [("outcome", .string s.outcome),
    ("observations", jsonArray ContextObservation.toJson s.observations),
    ("decisions", .strings s.decisions), ("artifactRefs", .strings s.artifactRefs),
    ("unresolved", .strings s.unresolved),
    ("nextResponsibilities", .strings s.nextResponsibilities),
    ("lessonCandidates", jsonArray ContextLesson.toJson s.lessonCandidates),
    ("sourceRefs", .strings s.sourceRefs)]

/-- The state of a task and what comes with it. -/
def ContextTaskState.properties : ContextTaskState → List (String × JsonValue)
  | .waiting => [("state", .string "WAITING")]
  | .running => [("state", .string "RUNNING")]
  | .completed result => [("state", .string "COMPLETED"), ("result", result.toJson)]
  | .interrupted reason partialResult =>
    [("state", .string "INTERRUPTED"), ("reason", .string reason)] ++
      JsonValue.optional "partialResult" (partialResult.map ContextSummary.toJson)
  | .superseded => [("state", .string "SUPERSEDED")]

/-- How a task is written. -/
def ContextTask.toJson (t : ContextTask) : JsonValue :=
  .object ([("id", .string t.id), ("objective", .string t.objective)] ++ t.state.properties)

/-- How a replaced plan is written. -/
def ContextReplan.toJson (r : ContextReplan) : JsonValue :=
  .object ([("reason", .string r.reason), ("previousPlanRef", .string r.previousPlanRef)] ++
    JsonValue.optional "partialResult" (r.partialResult.map ContextSummary.toJson))

/-- The phase of a chain and what comes with it. -/
def ContextPhase.properties : ContextPhase → List (String × JsonValue)
  | .planning replan =>
    [("phase", .string "PLANNING"), ("currentTaskId", .null)] ++
      JsonValue.optional "replan" (replan.map ContextReplan.toJson)
  | .executing currentTaskId =>
    [("phase", .string "EXECUTING"), ("currentTaskId", .string currentTaskId)]

/-- The target of the chains of a level. -/
def ContextLevel.target : ContextLevel → JsonValue
  | .one => .ofNat 2
  | .two => .ofNat 3
  | .three => .string "local"

/-- How a chain is written. -/
def ContextTaskChain.toJson (level : ContextLevel) (c : ContextTaskChain) : JsonValue :=
  .object ([("target", level.target), ("revision", .ofNat c.revision),
    ("tasks", jsonArray ContextTask.toJson c.tasks)] ++ c.phase.properties)

/-- How a role is written. -/
def ContextRole.toJson : ContextRole → JsonValue
  | .user => .string "user"
  | .assistant => .string "assistant"

/-- How the content of an entry is written. -/
def ContextEntryContent.properties : ContextEntryContent → List (String × JsonValue)
  | .message role content attachmentRefs =>
    [("kind", .string "message"), ("role", role.toJson), ("content", .string content)] ++
      JsonValue.optional "attachmentRefs" (attachmentRefs.map .strings)
  | .event name data => [("kind", .string "event"), ("name", .string name), ("data", data)]
  | .toolCall callId toolName input =>
    [("kind", .string "tool_call"), ("callId", .string callId), ("toolName", .string toolName),
      ("input", input)]
  | .toolResult callId toolName output =>
    [("kind", .string "tool_result"), ("callId", .string callId), ("toolName", .string toolName),
      ("output", output)]
  | .observation o =>
    [("kind", .string "observation"), ("observation", o.toJson)]

/-- How an entry is written. -/
def ContextEntry.toJson (e : ContextEntry) : JsonValue :=
  .object ([("id", .string e.id), ("createdAt", .ofNat e.createdAt)] ++ e.content.properties)

/-- How a memory is written. -/
def ContextMemory.toJson (m : ContextMemory) : JsonValue :=
  .object [("summary", jsonOrNull ContextSummary.toJson m.summary),
    ("lessons", jsonArray ContextLesson.toJson m.lessons),
    ("recentEntries", jsonArray ContextEntry.toJson m.recentEntries),
    ("historyRef", jsonOrNull .string m.historyRef)]

/-- How a budget is written. -/
def ContextBudget.toJson (b : ContextBudget) : JsonValue :=
  .object [("maxTokens", .ofNat b.maxTokens), ("compactAtTokens", .ofNat b.compactAtTokens),
    ("targetTokens", .ofNat b.targetTokens), ("maxTasks", .ofNat b.maxTasks)]

/-- The properties that frames of every level have, at a level and with a current task. -/
def ContextFrameData.properties (level : ContextLevel) (currentTask : JsonValue)
    (f : ContextFrameData) : List (String × JsonValue) :=
  [("id", .string f.id), ("level", .ofNat level.toNat), ("currentTask", currentTask),
    ("taskChain", f.taskChain.toJson level), ("memory", f.memory.toJson),
    ("budget", f.budget.toJson)]

/-- How the task of the root is written. -/
def ContextTaskDefinition.toJson (t : ContextTaskDefinition) : JsonValue :=
  .object [("id", .string t.id), ("objective", .string t.objective)]

/-- How a frame is written. -/
def ContextFrame.toJson : ContextFrame → JsonValue
  | .one f => .object (f.properties .one f.currentTask.toJson ++
      [("instructions", .strings f.instructions)])
  | .two f => .object (f.properties .two f.currentTask.toJson)
  | .three f => .object (f.properties .three f.currentTask.toJson)

/-- How a context is written. -/
def AgentContext.toJson (c : AgentContext) : JsonValue :=
  .object [("schemaVersion", .ofNat 1),
    ("level2", jsonOrNull (fun f => (ContextFrame.two f).toJson) c.level2),
    ("level3", jsonOrNull (fun f => (ContextFrame.three f).toJson) c.level3),
    ("level1", (ContextFrame.one c.level1).toJson)]

/-- How a cursor is written. -/
def ContextCursor.toJson (c : ContextCursor) : JsonValue :=
  .object [("frameId", .string c.frameId), ("planRevision", .ofNat c.planRevision)]

/-- How a delivery is written. -/
def ContextDelivery.toJson (d : ContextDelivery) : JsonValue :=
  .object ([("key", .string d.key), ("entries", jsonArray ContextEntry.toJson d.entries)] ++
    JsonValue.optional "target" (d.target.map ContextCursor.toJson))

end Json

end OsAgent.Context
