import OsAgent.AgentContext.Checkpoint
import OsAgent.Library.Program
import Mathlib.Data.Int.Notation

/-!
# Mutations: archives and summaries

A mutation works on a copy of the manager's state and collects the records to write. `Change` is the
monad of the functions that take a `Mutation` in the source; what such a function throws discards the
mutation. This module is `archive` of `agent-context/internal/frames.ts` and `internal/summaries.ts`.
-/

namespace OsAgent.Context

open OsAgent.Library

/-- A copy of the state, the records to write, and the source of identities: `createId k` is what
the call after `k` others returns. -/
structure Mutation where
  state : ContextCheckpoint
  writes : List ContextStoreWrite
  createId : ℕ → String
  created : ℕ

/-- The functions that change a mutation. -/
abbrev Change := EStateM Fault Mutation

/-- `mutation.id()`. -/
def nextId : Change String :=
  modifyGet fun m => (m.createId m.created, { m with created := m.created + 1 })

/-- Assign to fields of the state. -/
def assign (f : ContextCheckpoint → ContextCheckpoint) : Change Unit :=
  modify fun m => { m with state := f m.state }

/-- Assign the context. -/
def assignContext (context : AgentContext) : Change Unit := assign ({ · with context })

/-- Add a record to write. -/
def pushWrite (ref : String) (record : ContextRecord) : Change Unit :=
  modify fun m => { m with writes := m.writes ++ [{ ref, record }] }

/-- The state of the mutation. -/
def draft : Change ContextCheckpoint := return (← get).state

/-- `state.context = replaceFrame(state.context, frame)`. -/
def putFrame (frame : ContextFrame) : Change Unit := do
  assignContext (← replaceFrame (← draft).context frame)

/-- `archive`. -/
def archive : Change String := do
  let ref := "context-history://" ++ (← nextId)
  pushWrite ref (.frame (← draft).context)
  return ref

/-! ## References -/

/-- The members of a `Set`, in the order in which they were added first. -/
def uniqueRefs (refs : List String) : List String :=
  refs.foldl (fun seen ref => if ref ∈ seen then seen else seen ++ [ref]) []

/-- What a summary refers to. -/
def ContextSummary.refs (summary : ContextSummary) : List String :=
  summary.sourceRefs ++ summary.artifactRefs ++ summary.observations.flatMap (·.sourceRefs) ++
    summary.lessonCandidates.flatMap (·.sourceRefs)

/-- What the state of a task refers to. -/
def ContextTaskState.refs : ContextTaskState → List String
  | .completed result => result.refs
  | .interrupted _ (some partialResult) => partialResult.refs
  | _ => []

/-- What an event of the host's protocols lets a summary refer to. -/
def eventRefs (id name : String) (data : JsonValue) : List String :=
  if name = "conversation_message" then [id]
  else if name = "artifact_page" then ((data.get? "ref").bind JsonValue.asString?).toList
  else if name = "conversation_read" then
    ((data.get? "messages").map JsonValue.items |>.getD []).filterMap fun message =>
      (message.get? "messageId").bind JsonValue.asString?
  else []

/-- What an entry refers to. -/
def ContextEntry.refs (entry : ContextEntry) : List String :=
  match entry.content with
  | .message _ _ attachmentRefs => attachmentRefs.getD []
  | .observation observation => observation.sourceRefs
  | .event name data => eventRefs entry.id name data
  | .toolCall .. => []
  | .toolResult .. => []

/-- The references that a frame contains. -/
def sourceRefs (frame : ContextFrame) : List String :=
  let memory := frame.data.memory
  uniqueRefs (memory.historyRef.toList.filter (· ≠ "") ++
    memory.summary.toList.flatMap ContextSummary.refs ++
    memory.lessons.flatMap (·.sourceRefs) ++
    frame.data.taskChain.tasks.flatMap (·.state.refs) ++
    memory.recentEntries.flatMap ContextEntry.refs)

/-! ## Scheduling a summary -/

/-- Archives the context and lets a summary be pending for it. -/
def scheduleSummary (purpose : ContextSummaryPurpose) (reason : String) : Change Unit := do
  let frame := active (← draft).context
  requireContext (← draft).pendingSummary.isNone "已有待总结工作。" .invalidState
  requireContext (¬ (purpose = .complete ∨ purpose = .idle) ∨ frame.data.taskChain.settled)
    "任务链仍有未完成工作，不能完成或休眠。" .invalidState
  requireContext (purpose ≠ .complete ∨ frame.level ≠ .one) "根层长期职责不能完成。" .invalidState
  requireContext (purpose ≠ .interrupt ∨ frame.level ≠ .one) "根层长期职责不能中断。" .invalidState
  requireContext (purpose ≠ .idle ∨ frame.level = .one) "子层必须先向父层总结。" .invalidState
  let sourceRef ← archive
  let id ← nextId
  assign fun state => { state with
    pendingSummary := some
      { toContextCursor := frame.cursor
        id, purpose, reason, sourceRef
        allowedRefs := sourceRef :: sourceRefs frame
        attempts := 0
        lastError := none }
    runnable := true }

/-! ## Compaction -/

/-- A result of a step as an active plan keeps it: whole if it is short, else its beginning and a
reference to the sealed frame. -/
def compactResult (sealedSourceRef : String) (result : ContextSummary) : ContextSummary :=
  if estimateContextTokens result.toJson ≤ 1024 then result
  else
    let characters := result.outcome.toList
    { ContextSummary.only (String.ofList (characters.take 160) ++
        if 160 < characters.length then "…（完整结果见来源）" else "") with
      sourceRefs := [sealedSourceRef] }

/-- A task whose result is compacted. -/
def ContextTask.compact (sealedSourceRef : String) (task : ContextTask) : ContextTask :=
  match task.state with
  | .completed result => { task with state := .completed (compactResult sealedSourceRef result) }
  | .interrupted reason (some partialResult) =>
    { task with state := .interrupted reason (some (compactResult sealedSourceRef partialResult)) }
  | _ => task

/-- A frame after its summary: its finished plan is dropped, and its entries are. -/
def compactedFrame (frame : ContextFrame) (summary : ContextSummary) (historyRef : String)
    (sealedSourceRef : String) : ContextFrame :=
  let chain := frame.data.taskChain
  let updated :=
    if chain.settled then setChain frame (emptyChain chain.revision)
    else setChain frame { chain with tasks := chain.tasks.map (·.compact sealedSourceRef) }
  updated.withMemory { updated.data.memory with
    summary := some summary
    recentEntries := []
    historyRef := some historyRef }

/-- How much room a summary has. -/
structure SummaryCapacity where
  targetFrameBytes : ℕ
  fixedFrameBytes : ℤ
  maxSummaryBytes : ℤ
  suggestedContentBytes : ℤ
deriving DecidableEq, Repr

/-- What room a summary has in the frame that it is for. -/
def summaryCapacity (checkpoint : ContextCheckpoint) : Except Fault SummaryCapacity := do
  let pending ← requirePresent checkpoint.pendingSummary "缺少待总结状态。" .invalidState
  let frame := active checkpoint.context
  let empty := ContextSummary.only ""
  let projected := compactedFrame frame empty
    "context-summary://00000000-0000-0000-0000-000000000000" pending.sourceRef
  let targetTokens := frame.data.budget.targetTokens
  let fixedFrameBytes : ℤ := projected.size - estimateContextTokens empty.toJson
  let maxSummaryBytes := targetTokens - fixedFrameBytes
  let minimumBytes : ℤ := estimateContextTokens
    { ContextSummary.only "摘要" with sourceRefs := [pending.sourceRef] }.toJson
  requireContext (minimumBytes ≤ maxSummaryBytes)
    ("第 " ++ toString frame.level.toNat ++ " 层固定结构占 " ++ toString fixedFrameBytes ++
      " 字节，目标 " ++ toString targetTokens ++ " 字节，无法容纳摘要；请提高压缩目标容量。")
    .budgetExceeded
  let longestRef := (pending.allowedRefs.map fun ref => byteLength (stringify (.string ref))).foldl
    max 0
  let referenceReserve : ℤ := min (maxSummaryBytes / 2) (longestRef * 32)
  return {
    targetFrameBytes := targetTokens
    fixedFrameBytes
    maxSummaryBytes
    suggestedContentBytes := max 1 (maxSummaryBytes - minimumBytes - referenceReserve) }

/-! ## Integrating a summary -/

/-- The state of the parent's task after the summary of its frame. -/
def ContextSummaryPurpose.outcome (purpose : ContextSummaryPurpose) (reason : String)
    (summary : ContextSummary) : ContextTaskState :=
  if purpose = .complete then .completed summary else .interrupted reason (some summary)

/-- The tasks of the parent with the one of the released frame ended. -/
def endTask (taskId : String) (state : ContextTaskState) :
    List ContextTask → Except Fault (List ContextTask)
  | [] => .ok []
  | task :: tasks => do
    let task ←
      if task.id ≠ taskId then pure task
      else do
        requireContext (task.state = .running) "父任务不再运行。" .staleContext
        pure { task with state }
    return task :: (← endTask taskId state tasks)

/-- The parent after the frame that refers to it by `task` was released. -/
def releasedParent (parent : Option ContextFrameData) (task : ContextTaskRef)
    (state : ContextTaskState) : Except Fault ContextFrameData := do
  let parent ← requirePresent
    (parent.filter fun p => p.id = task.frameId ∧ p.taskChain.revision = task.planRevision)
    "父任务版本已变化。" .staleContext
  let tasks ← endTask task.taskId state parent.taskChain.tasks
  return { parent with taskChain := { parent.taskChain with tasks, phase := .planning none } }

/-- The context after the active frame was released to its parent. -/
def releaseFrame (context : AgentContext) (frame : ContextFrame) (state : ContextTaskState) :
    Except Fault AgentContext :=
  match frame with
  | .one _ => .error (.context .invalidState "根层不能被释放。")
  | .two f => do
    let parent ← releasedParent (some context.level1.toContextFrameData) f.currentTask state
    return { level1 := { context.level1 with toContextFrameData := parent }
             level2 := none
             level3 := none }
  | .three f => do
    let parent ← releasedParent (context.level2.map (·.toContextFrameData)) f.currentTask state
    return { context with
             level2 := context.level2.map ({ · with toContextFrameData := parent })
             level3 := none }

/-- Puts the pending summary into its frame, and goes on as its purpose says. -/
def integrateSummary (id : String) (summary : ContextSummary) : Change Unit := do
  let state ← draft
  let pending ← requirePresent (state.pendingSummary.filter (·.id = id)) "总结凭据已失效。" .staleContext
  let frame := active state.context
  assertCursor frame pending.toContextCursor
  validateSummary summary (some pending.allowedRefs)
  requireContext (pending.sourceRef ∈ summary.sourceRefs) "总结必须引用本次封存历史。" .invalidInput
  let summaryRef := "context-summary://" ++ (← nextId)
  let compacted := compactedFrame frame summary summaryRef pending.sourceRef
  let capacity ← summaryCapacity state
  requireContext (compacted.size ≤ frame.data.budget.targetTokens)
    ("第 " ++ toString frame.level.toNat ++ " 层压缩后 " ++ toString compacted.size ++
      " 字节，目标容量 " ++ toString capacity.targetFrameBytes ++ "；固定结构 " ++
      toString capacity.fixedFrameBytes ++ "，本次摘要 " ++
      toString (estimateContextTokens summary.toJson) ++ "，摘要最多 " ++
      toString capacity.maxSummaryBytes ++ " 字节。请减少观察和经验条目、合并重复引用后重新提交。")
    .summaryTooLarge
  pushWrite summaryRef (.summary pending.sourceRef summary)
  if pending.purpose = .compact ∨ pending.purpose = .idle then
    putFrame compacted
  else
    assignContext (← releaseFrame (← draft).context frame
      (pending.purpose.outcome pending.reason summary))
  assertBudgets (← draft).context
  assign fun state => { state with
    pendingSummary := none
    runnable := pending.purpose ≠ .idle || 0 < state.inbox.length }

end OsAgent.Context
