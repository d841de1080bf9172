import OsAgent.AgentContext.Frames

/-!
# The checks of checkpoints and records

`agent-context/internal/checkpoint.ts` and `internal/records.ts`. A checkpoint is checked before it is
committed and after it was loaded, and a record after it was read. The loop of the source over the
three levels is `validateFrames`, which carries the identities that it has seen.
-/

namespace OsAgent.Context

open OsAgent.Library

/-- The budgets and the limits of a policy. -/
def validatePolicy (value : ContextPolicy) : Except Fault Unit := do
  validateBudget (value.budgets .one)
  validateBudget (value.budgets .two)
  validateBudget (value.budgets .three)
  integer value.maxSummaryAttempts 1
  integer value.maxInbox 1
  integer value.maxDeliveryBytes 1

/-- The identity and the plan of a cursor. -/
def validateCursor (value : ContextCursor) : Except Fault Unit := do
  text value.frameId
  integer value.planRevision 0

/-- A delivery has a key and entries that pass their checks. -/
def validateDelivery (value : ContextDelivery) : Except Fault Unit := do
  text value.key
  checkIfPresent validateCursor value.target
  requireContext (0 < value.entries.length) "投递必须包含语义记录。" .invalidInput
  value.entries.forM validateEntry

/-! ## Frames -/

/-- The identities seen so far, with a new one. -/
def freshId (ids : List String) (id message : String) : Except Fault (List String) := do
  requireContext (id ∉ ids) message .invalidInput
  return ids ++ [id]

/-- The result of a task that ended passes its check. -/
def validateTaskState : ContextTaskState → Except Fault Unit
  | .waiting => .ok ()
  | .running => .ok ()
  | .completed result => validateSummary result none
  | .interrupted reason partialResult => do
    text reason
    checkIfPresent (validateSummary · none) partialResult
  | .superseded => .ok ()

/-- The loop over the tasks of a chain. -/
def validateTasks (ids : List String) : List ContextTask → Except Fault (List String)
  | [] => .ok ids
  | task :: tasks => do
    text task.id
    let ids ← freshId ids task.id "任务身份发生冲突。"
    text task.objective
    validateTaskState task.state
    validateTasks ids tasks

/-- The tasks of a chain that are running. -/
def ContextTaskChain.running (chain : ContextTaskChain) : List String :=
  (chain.tasks.filter fun task => task.state = .running).map fun task => task.id

/-- What is known of a replaced plan. -/
def validateReplan (replan : ContextReplan) : Except Fault Unit := do
  text replan.reason
  text replan.previousPlanRef
  checkIfPresent (validateSummary · none) replan.partialResult

/-- Whether the phase of a chain fits the states of its tasks. -/
def ContextTaskChain.phaseMatches (chain : ContextTaskChain) : Bool :=
  match chain.phase with
  | .executing currentTaskId => chain.running = [currentTaskId]
  | .planning _ => chain.running = []

/-- The replan that a chain carries. -/
def ContextPhase.replan : ContextPhase → Option ContextReplan
  | .planning replan => replan
  | .executing _ => none

/-- A chain has tasks with new identities, in states that match its phase. -/
def validateChain (ids : List String) (chain : ContextTaskChain) : Except Fault (List String) := do
  integer chain.revision 0
  let ids ← validateTasks ids chain.tasks
  requireContext (0 < chain.revision ∨ chain.tasks.length = 0) "未安装计划不能带任务。" .invalidInput
  requireContext chain.phaseMatches "任务选择与运行状态不一致。" .invalidInput
  checkIfPresent validateReplan chain.phase.replan
  return ids

/-- The summary, the lessons and the recent entries of a frame. -/
def validateMemory (memory : ContextMemory) : Except Fault Unit := do
  checkIfPresent (validateSummary · none) memory.summary
  validateSummary { ContextSummary.only "经验校验" with lessonCandidates := memory.lessons } none
  memory.recentEntries.forM validateEntry
  checkIfPresent text memory.historyRef

/-- The check of a reference to a task of the parent. -/
def validateTaskRef (task : ContextTaskRef) : Except Fault Unit := do
  text task.frameId
  text task.taskId
  integer task.planRevision 1

/-- The check of the current task of a frame, and of the instructions of the root. -/
def validateCurrentTask (ids : List String) : ContextFrame → Except Fault (List String)
  | .one frame => do
    text frame.currentTask.id
    text frame.currentTask.objective
    let ids ← freshId ids frame.currentTask.id "根任务身份冲突。"
    strings frame.instructions
    return ids
  | .two frame => do
    validateTaskRef frame.currentTask
    return ids
  | .three frame => do
    validateTaskRef frame.currentTask
    return ids

/-- A frame has a new identity, a chain, a memory and the budget of its level. -/
def validateFrame (budgets : ContextLevel → ContextBudget) (ids : List String)
    (frame : ContextFrame) : Except Fault (List String) := do
  text frame.data.id
  let ids ← freshId ids frame.data.id "内部身份发生冲突。"
  validateBudget frame.data.budget
  requireContext (stringify frame.data.budget.toJson = stringify (budgets frame.level).toJson)
    "层级预算与宿主策略不一致。" .invalidInput
  let ids ← validateCurrentTask ids frame
  validateMemory frame.data.memory
  validateChain ids frame.data.taskChain

/-- The frames, with identities of their own. -/
def validateFrames (budgets : ContextLevel → ContextBudget) (ids : List String) :
    List ContextFrame → Except Fault Unit
  | [] => .ok ()
  | frame :: rest => do
    let ids ← validateFrame budgets ids frame
    validateFrames budgets ids rest

/-- Whether a frame runs a task. -/
def ContextFrameData.executing (frame : ContextFrameData) : Bool :=
  match frame.taskChain.phase with
  | .executing _ => true
  | .planning _ => false

/-- The frames of a context, and the tasks that lead from one to the next. -/
def validateContext (budgets : ContextLevel → ContextBudget) (context : AgentContext) :
    Except Fault Unit := do
  validateFrames budgets [] (frames context)
  requireContext (context.level2.isSome ∨ context.level3.isNone) "第三层不能脱离第二层。" .invalidInput
  (frames context).forM fun frame => do
    let _ ← objective context frame
  requireContext (context.level1.executing = false ∨ context.level2.isSome)
    "运行任务缺少第二层。" .invalidInput
  requireContext ((∀ frame ∈ context.level2, frame.executing = false) ∨ context.level3.isSome)
    "运行任务缺少第三层。" .invalidInput
  assertBudgets context

/-! ## Checkpoints -/

/-- The deliveries of an inbox are distinct and within its limits. -/
def validateInbox (policy : ContextPolicy) (inbox : List ContextDelivery) : Except Fault Unit := do
  inbox.forM validateDelivery
  requireContext (inbox.length ≤ policy.maxInbox) "收件箱超过上限。" .invalidInput
  inbox.forM fun delivery =>
    requireContext (byteLength (stringify delivery.toJson) ≤ policy.maxDeliveryBytes)
      "恢复输入超过单次容量上限。" .invalidInput
  requireContext (inbox.map ContextDelivery.key).Nodup "收件箱包含重复投递。" .invalidInput

/-- Whether a task is finished, interrupted or superseded. -/
def ContextTask.settled (task : ContextTask) : Bool := task.state ≠ .running ∧ task.state ≠ .waiting

/-- Whether no task of a chain is left to run. -/
def ContextTaskChain.settled (chain : ContextTaskChain) : Bool :=
  chain.tasks.all ContextTask.settled

/-- A pending summary is for the active frame, refers to its source, and has a purpose that fits the frame.
-/
def validatePending (policy : ContextPolicy) (context : AgentContext) (runnable : Bool)
    (pending : PendingContextSummary) : Except Fault Unit := do
  text pending.id
  text pending.frameId
  integer pending.planRevision 0
  text pending.sourceRef
  strings pending.allowedRefs
  requireContext (pending.sourceRef ∈ pending.allowedRefs) "总结缺少封存引用。" .invalidInput
  integer pending.attempts 0
  requireContext (pending.attempts ≤ policy.maxSummaryAttempts) "总结尝试次数越界。" .invalidInput
  checkIfPresent text pending.lastError
  assertCursor (active context) pending.toContextCursor
  requireContext runnable "待总结状态必须仍可调度。" .invalidInput
  requireContext (pending.purpose ≠ .idle ∨ (active context).level = .one)
    "空闲总结只能位于根层。" .invalidInput
  requireContext (¬ (pending.purpose = .complete ∨ pending.purpose = .interrupt) ∨
      (active context).level ≠ .one)
    "根层职责不能完成或中断。" .invalidInput
  requireContext (¬ (pending.purpose = .complete ∨ pending.purpose = .idle) ∨
      (active context).data.taskChain.settled)
    "未完成任务不能处于结束总结阶段。" .invalidInput

/-- A checkpoint, before it is restored or saved. -/
def validateCheckpoint (value : ContextCheckpoint) : Except Fault Unit := do
  integer value.revision 0
  validatePolicy value.policy
  validateInbox value.policy value.inbox
  validateContext value.policy.budgets value.context
  checkIfPresent (validatePending value.policy value.context value.runnable) value.pendingSummary

/-! ## Records -/

/-- The budgets that the frames of a context have. A level without a frame gets the root's. -/
def ownBudgets (context : AgentContext) : ContextLevel → ContextBudget
  | .one => context.level1.budget
  | .two => (context.level2.map (·.budget)).getD context.level1.budget
  | .three => (context.level3.map (·.budget)).getD context.level1.budget

/-- The checkpoint as which `validateRecord` checks an archived context. -/
def recordCheckpoint (context : AgentContext) : ContextCheckpoint where
  revision := 0
  context
  policy :=
    { budgets := ownBudgets context
      maxSummaryAttempts := 1
      maxInbox := 1
      maxDeliveryBytes := 1 }
  runnable := true
  pendingSummary := none
  inbox := []

/-- A record, before it is returned. -/
def validateRecord : ContextRecord → Except Fault Unit
  | .history delivery => validateDelivery delivery
  | .summary sourceRef summary => do
    text sourceRef
    validateSummary summary none
  | .frame context => validateCheckpoint (recordCheckpoint context)

end OsAgent.Context
