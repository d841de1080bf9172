import OsAgent.AgentContext.Summaries

/-!
# Decisions and the inbox

`agent-context/internal/tasks.ts`, which applies a decision of a round to the active frame, and
`internal/inbox.ts`, which moves deliveries from the inbox into frames.
-/

namespace OsAgent.Context

open OsAgent.Library

/-! ## Decisions -/

/-- A task of a replaced plan: what ran is interrupted and what waited is superseded. -/
def ContextTask.replaced (reason : String) (task : ContextTask) : ContextTask :=
  match task.state with
  | .running => { task with state := .interrupted reason none }
  | .waiting => { task with state := .superseded }
  | _ => task

/-- The chain of a frame after its plan was given up for a reason. -/
def ContextTaskChain.replaced (reason : String) (chain : ContextTaskChain) : ContextTaskChain where
  revision := chain.revision
  tasks := chain.tasks.map (·.replaced reason)
  phase := .planning none

/-- New tasks, each with an identity of its own. -/
def newTasks : List String → Change (List ContextTask)
  | [] => pure []
  | objective :: objectives => do
    let id ← nextId
    return { id, objective, state := .waiting } :: (← newTasks objectives)

/-- Archive the plan of a frame and install a new one. -/
def installPlan (frame : ContextFrame) (objectives : List String) (reason : Option String) :
    Change Unit := do
  let previousPlanRef ← archive
  let frame := frame.withMemory { frame.data.memory with historyRef := some previousPlanRef }
  let tasks ← newTasks objectives
  putFrame (setChain frame {
    revision := frame.data.taskChain.revision + 1
    tasks
    phase := .planning (reason.map fun reason =>
      { reason, previousPlanRef, partialResult := none }) })

/-- The frame for a task that a frame starts to run. -/
def childFrame (frame : ContextFrame) (id taskId : String) (budget : ContextBudget) :
    ContextFrameData × ContextTaskRef :=
  ({ id
     memory := { emptyMemory with
       summary := frame.data.memory.summary
       recentEntries := frame.data.memory.recentEntries
       historyRef := frame.data.memory.historyRef }
     budget
     taskChain := emptyChain 0 },
   { frameId := frame.data.id
     planRevision := frame.data.taskChain.revision
     taskId })

/-- The context with a child of the active frame. The third level has no children. -/
def addChild (policy : ContextPolicy) (context : AgentContext) (frame : ContextFrame)
    (id taskId : String) : AgentContext :=
  match frame with
  | .one _ =>
    let child := childFrame frame id taskId (policy.budgets .two)
    { context with
      level2 := some { toContextFrameData := child.1, currentTask := child.2 }
      level3 := none }
  | .two _ =>
    let child := childFrame frame id taskId (policy.budgets .three)
    { context with level3 := some { toContextFrameData := child.1, currentTask := child.2 } }
  | .three _ => context

/-- Start the first task that waits. -/
def advance (frame : ContextFrame) : Change Unit := do
  let chain := frame.data.taskChain
  requireContext (frame.data.executing = false) "已经有运行中的任务。" .invalidState
  let next ← requirePresent (chain.tasks.find? (·.state = .waiting)) "没有待运行任务。" .invalidState
  putFrame (setChain frame {
    revision := chain.revision
    tasks := chain.tasks.map fun task =>
      if task = next then { task with state := .running } else task
    phase := .executing next.id })
  let id ← nextId
  let state ← draft
  assignContext (addChild state.policy state.context frame id next.id)

/-- The chain after the step that it runs was completed. -/
def ContextTaskChain.stepCompleted (currentTaskId : String) (result : ContextSummary)
    (chain : ContextTaskChain) : ContextTaskChain where
  revision := chain.revision
  tasks := chain.tasks.map fun task =>
    if task.id = currentTaskId then { task with state := .completed result } else task
  phase := .planning none

/-- The task that a chain runs. -/
def ContextPhase.currentTaskId : ContextPhase → Option String
  | .planning _ => none
  | .executing currentTaskId => some currentTaskId

/-- Completes the current task of a frame with its result. -/
def completeStep (frame : ContextFrame) (result : ContextSummary) : Change Unit := do
  let currentTaskId ← requirePresent
    (frame.data.taskChain.phase.currentTaskId.filter fun _ => frame.level = .three)
    "只能完成正在执行的第三层步骤。" .invalidState
  validateSummary result (some (sourceRefs frame))
  putFrame (setChain frame (frame.data.taskChain.stepCompleted currentTaskId result))

/-- The check of the objectives of a plan. -/
def validateObjectives (frame : ContextFrame) (objectives : List String) : Except Fault Unit := do
  strings objectives
  requireContext (0 < objectives.length ∧ objectives.length ≤ frame.data.budget.maxTasks)
    "任务链不能为空或超过任务数量上限。" .invalidInput

/-- The `switch` of `applyDecision`, on the active frame with its new entries. -/
def takeDecision (frame : ContextFrame) (decision : ContextDecision) : Change Unit := do
  match decision with
  | .plan objectives => do
    validateObjectives frame objectives
    requireContext frame.data.taskChain.settled "替换未完成计划需要显式 replan。" .invalidState
    installPlan frame objectives none
  | .replan objectives reason => do
    validateObjectives frame objectives
    text reason
    putFrame (setChain frame (frame.data.taskChain.replaced reason))
    installPlan frame objectives (some reason)
  | .advance => advance frame
  | .stepCompleted result => completeStep frame result
  | .interrupt reason => do
    text reason
    scheduleSummary .interrupt reason
  | .complete => scheduleSummary .complete ""
  | .compact => scheduleSummary .compact ""
  | .idle => scheduleSummary .idle ""
  | .finishTurn => do
    let context := (← draft).context
    requireContext (frame.level = .one ∧ context.level2.isNone ∧ context.level3.isNone ∧
        frame.data.taskChain.settled)
      "静默结束只允许根层且无未完成任务。" .invalidState
    assign ({ · with runnable := false })
  | .continue => assign ({ · with runnable := true })
  | .wait => assign ({ · with runnable := false })

/-- Takes in the entries of a round, and does what was decided. -/
def applyDecision (decision : ContextDecision) (entries : List ContextEntry) : Change Unit := do
  (entries.forM validateEntry : Except Fault Unit)
  let frame := (active (← draft).context).withEntries entries
  -- A new child must see the recent material on which its task rests.
  putFrame frame
  assign ({ · with runnable := true })
  takeDecision frame decision

/-! ## The inbox -/

section Inbox

variable (sha256 : String → String)

/-- The reference under which a delivery is recorded. `sha256` is the hash in hexadecimal. -/
def deliveryRef (key : String) : String := "context-input://" ++ sha256 key

/-- The frame that a delivery is for, if its plan is still the present one. -/
def deliveryTarget (context : AgentContext) (delivery : ContextDelivery) : Option ContextFrame :=
  match delivery.target with
  | some target => (frames context).find? fun frame => frame.cursor = target
  | none => some (.one context.level1)

/-- What the root is told of a result for a plan that was replaced. -/
def staleEntry (id : String) (delivery : ContextDelivery) : ContextEntry where
  id
  createdAt := 0
  content := .event "stale_context_input"
    (.object [("sourceRef", .string (deliveryRef sha256 delivery.key))])

/-- The entries of a delivery, or a reference to them if its target is gone. -/
def deliveryEntries (target : Option ContextFrame) (delivery : ContextDelivery) :
    Change (List ContextEntry) :=
  match target with
  | some _ => pure delivery.entries
  | none => return [staleEntry sha256 (← nextId) delivery]

/-- The loop over the deliveries that were in the inbox. The result says whether it ended early,
with a summary scheduled. -/
def drainDeliveries : List ContextDelivery → Change Bool
  | [] => pure false
  | delivery :: rest => do
    let context := (← draft).context
    let target := deliveryTarget context delivery
    -- A result for a replaced plan is reported to the root, and only as a reference.
    let frame := target.getD (.one context.level1)
    if frame.data.id ≠ (active context).data.id then
      drainDeliveries rest
    else do
      let updated := frame.withEntries (← deliveryEntries sha256 target delivery)
      if frame.data.budget.maxTokens < updated.size then
        requireContext (0 < frame.data.memory.recentEntries.length)
          "输入超过可用容量；请将大内容存为引用或先缩减活跃任务。" .budgetExceeded
        scheduleSummary .compact ""
        return true
      else
        putFrame updated
        assign fun state => { state with
          inbox := state.inbox.filter (·.key ≠ delivery.key)
          runnable := true }
        if frame.data.budget.compactAtTokens ≤ updated.size then
          scheduleSummary .compact ""
          return true
        else
          drainDeliveries rest

/-- Moves deliveries into the active frame, and compacts it where it is full. -/
def drainInbox : Change Unit := do
  let state ← draft
  if state.pendingSummary.isSome then
    return
  if ← drainDeliveries sha256 state.inbox then
    return
  let frame := active (← draft).context
  if frame.data.budget.compactAtTokens ≤ frame.size then
    scheduleSummary .compact ""

/-- Whether two deliveries have the same content. -/
def sameDelivery (left right : ContextDelivery) : Bool :=
  stringify left.toJson = stringify right.toJson

end Inbox

end OsAgent.Context
