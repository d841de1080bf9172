import OsAgent.AgentContext.Types
import OsAgent.AgentScheduler.Types
import OsAgent.ControlBlock
import OsAgent.Library.Json
import OsAgent.Library.OrderedMap
import OsAgent.Library.Program
import Mathlib.Logic.Function.Basic

/-!
# The tool executor

`ToolExecutor` with the tables of `RuntimeStore` that it reads and writes. A stretch of code that runs
without an `await` is a program over `Executor`. A write to the store is made or the process ends
before it, and a program may also end in an error, which keeps what it did before.

`launch` starts a chain of promises, and `Launch` says how far the chain is: its place behind the
mutation before it in the workspace, `#execute`, the promise `executing` of the tool, the end of the
chain, and the tail that lets the next mutation of the workspace go on. The signals and timers only
decide when a chain goes on and whether it finds its signal aborted. Both are left open here.

What the scheduler, the registry of tools, the capabilities and the host answer is given by
`Surroundings`, anew for every stretch of code.
-/

namespace OsAgent.AgentRuntime

open OsAgent.Library
open ControlBlock (AgentId)
open AgentScheduler (AsyncOperation AsyncOperationOutcome AsyncOperationResult)
open Context (ContextCursor)

/-! ## Records -/

/-- How far an operation is. -/
inductive OperationState where
  | registered
  | running
  | succeeded
  | failed
  | approval
  | unknown
deriving DecidableEq, Repr

/-- What a tool may do. -/
inductive ToolEffect where
  | readOnly
  | sideEffect
  | privileged
deriving DecidableEq, Repr

/-- Whether a tool may change something. -/
def ToolEffect.mutating : ToolEffect → Bool
  | .readOnly => false
  | _ => true

/-- An operation of an agent. -/
structure ExecutionOperation where
  id : String
  agentId : AgentId
  batchId : String
  target : ContextCursor
  toolName : String
  arguments : List (String × JsonValue)
  state : OperationState
  effect : ToolEffect
  schedulerOperation : Option AsyncOperation
  result : JsonValue

/-- How a state is written. -/
def OperationState.text : OperationState → String
  | registered => "registered"
  | running => "running"
  | succeeded => "succeeded"
  | failed => "failed"
  | approval => "approval"
  | unknown => "unknown"

/-- The operation with a new state and result. -/
def ExecutionOperation.become (operation : ExecutionOperation) (state : OperationState)
    (result : JsonValue) : ExecutionOperation := { operation with state, result }

/-- A result that is an error. -/
def errorResult (code : String) (more : List (String × JsonValue)) : JsonValue :=
  .object (("error", .string code) :: more)

/-- What a tool's promise is rejected with. -/
inductive ToolFailure where
  | precondition (code message : String)
  | execution (code message : String) (detail : JsonValue)
  | other

/-- The promise `executing`. A value that is not JSON data counts as another failure. -/
inductive Work where
  | scheduled
  | running
  | settled (answer : Except ToolFailure JsonValue)

/-- How far the promise of a launch is. -/
inductive Phase where
  | queued
  | executing
  | ended
  | caught
  | settled
deriving DecidableEq, Repr

/-- One launch of an operation, in this process. -/
structure Launch where
  ticket : ℕ
  /-- The operation's object, which `#execute` changes. -/
  operation : ExecutionOperation
  /-- The launch whose tail it waits for. -/
  previous : Option ℕ
  phase : Phase
  /-- Whether `#execute` threw. -/
  faulted : Bool
  work : Option Work
  /-- Whether its own tail is resolved. -/
  released : Bool

/-- The store's tables and the executor's fields. -/
structure Executor where
  operations : OrderedMap ExecutionOperation.id
  /-- The metadata `result:<ref>`. -/
  results : String → Option ExecutionOperation
  /-- The metadata `wait-result:<key>`. -/
  waits : String → Option String
  /-- The metadata `reconciliation:<id>`. -/
  reconciliations : String → Bool
  /-- How many writes were made. -/
  writes : ℕ
  /-- The canonical path of each agent's workspace. -/
  workspace : AgentId → String
  launches : OrderedMap Launch.ticket
  nextTicket : ℕ
  active : String → Option ℕ
  mutationTails : String → Option ℕ
  mutationWork : String → Option ℕ
  stopping : Bool
  /-- Whether this process has isolated the operations that it found. -/
  isolated : Bool
  /-- The operations whose tool was executed, without those of tools that only read. -/
  executed : List String

/-- Why a stretch of code ends before its end. -/
inductive Stop where
  | crash
  | fault (message : String)
deriving DecidableEq, Repr

/-- What the rest of the runtime answers during a stretch of code. -/
structure Surroundings where
  /-- Whether the process ends before this write. -/
  crashes : ℕ → Bool
  registerOperations : String → Except Stop AsyncOperation
  completeOperation : AsyncOperation → String → Except Stop Unit
  /-- `operationHandle` gives a handle that is neither aborted nor late. -/
  handlePending : AsyncOperation → Bool
  /-- The agent's status is `active`. -/
  agentActive : AgentId → Bool
  /-- The effect of a registered tool. -/
  tool : String → Option ToolEffect
  /-- The agent's skills include the tool. -/
  visible : AgentId → String → Bool
  validateInput : String → List (String × JsonValue) → Except String Bool
  /-- The operation has requirements, all of them within the agent's ceiling. -/
  withinCeiling : ExecutionOperation → Except String Bool
  /-- The agent's grants allow the requirements now. -/
  check : ExecutionOperation → Except String Bool
  /-- `grantByHuman` and the update of the agent. -/
  grantByHuman : ExecutionOperation → Except Stop Unit
  onFault : AgentId → String → String → Except Stop Unit
  onUnknown : AgentId → Except Stop Unit
  onReconciled : ExecutionOperation → String → Except Stop Bool
  sha256 : String → String

/-! ## The store -/

variable (env : Surroundings)

/-- One transaction of the store. It is made, or the process ends before it. -/
def write (change : Executor → Executor) : EStateM Stop Executor Unit := do
  let s ← get
  if env.crashes s.writes then throw .crash
  else set { change s with writes := s.writes + 1 }

/-- The process with an operation written. -/
def Executor.put (s : Executor) (operation : ExecutionOperation) : Executor :=
  { s with operations := s.operations.insert operation }

/-- Writes an operation. -/
def putOperation (operation : ExecutionOperation) : EStateM Stop Executor Unit :=
  write env (·.put operation)

/-- The terminal state and the mark that it is to be delivered, in one transaction. -/
def putReconciliation (operation : ExecutionOperation) : EStateM Stop Executor Unit :=
  write env fun s => { s.put operation with
    reconciliations := Function.update s.reconciliations operation.id true }

/-- The host knows of a reconciliation. -/
def acknowledgeReconciliation (id : String) : EStateM Stop Executor Unit :=
  write env fun s => { s with reconciliations := Function.update s.reconciliations id false }

/-- Whether the outcome of a mutation in a workspace is unknown. -/
def Executor.hasUnknownMutation (s : Executor) (workspace : String) : Bool :=
  s.operations.entries.any fun operation =>
    operation.state = .unknown && operation.effect.mutating &&
      s.workspace operation.agentId = workspace

/-- The operations of an agent. -/
def Executor.operationsOf (s : Executor) (agentId : AgentId) : List ExecutionOperation :=
  s.operations.entries.filter fun operation => operation.agentId = agentId

/-! ## Launches -/

/-- Changes one launch. -/
def Executor.setLaunch (s : Executor) (launch : Launch) : Executor :=
  { s with launches := s.launches.insert launch }

/-- The chain of promises that `launch` starts. -/
def Executor.newLaunch (s : Executor) (operation : ExecutionOperation) : Launch where
  ticket := s.nextTicket
  operation := operation
  previous :=
    if operation.effect.mutating then s.mutationTails (s.workspace operation.agentId) else none
  phase := .queued
  faulted := false
  work := none
  released := false

/-- Launches an operation, unless it is launched already. -/
def Executor.launch (s : Executor) (operation : ExecutionOperation) : Executor :=
  if s.stopping || (s.active operation.id).isSome then s
  else
    { s with
      launches := s.launches.insert (s.newLaunch operation)
      nextTicket := s.nextTicket + 1
      active := Function.update s.active operation.id (some s.nextTicket)
      mutationTails :=
        if operation.effect.mutating then
          Function.update s.mutationTails (s.workspace operation.agentId) (some s.nextTicket)
        else s.mutationTails }

/-! ## Results -/

/-- Saves what is known of an operation, and gives a reference to it. -/
def snapshot (operation : ExecutionOperation) : EStateM Stop Executor String := do
  let version := env.sha256 (String.ofList
    (stringify (.array [.string operation.state.text, operation.result])))
  let ref := "operation/" ++ operation.id ++ "/" ++ version
  write env fun s => { s with results := Function.update s.results ref (some operation) }
  return ref

/-- Tells the scheduler of an operation that is over. -/
def deliver (operation : ExecutionOperation) : EStateM Stop Executor Unit :=
  match operation.schedulerOperation with
  | none => return
  | some handle => do
    let ref ← snapshot env operation
    env.completeOperation handle ref

/-- Tells the host of a reconciliation. -/
def deliverReconciliation (operation : ExecutionOperation) : EStateM Stop Executor Unit := do
  if (← get).reconciliations operation.id then
    let ref ← snapshot env operation
    if ← (env.onReconciled operation ref : Except Stop Bool) then
      acknowledgeReconciliation env operation.id

/-- Whether the scheduler waits for an operation. -/
def pending (operation : ExecutionOperation) : Bool :=
  operation.schedulerOperation.any env.handlePending

/-- Whether an operation waits to be launched or approved. -/
def ExecutionOperation.waiting (operation : ExecutionOperation) : Bool :=
  operation.state = .registered || operation.state = .approval

/-- A waiting operation that can no longer be executed. -/
def ExecutionOperation.expired (operation : ExecutionOperation) : ExecutionOperation :=
  operation.become .failed (errorResult "operation_expired_or_cancelled" [])

/-- Fails an operation that waits. -/
def expire (operation : ExecutionOperation) : EStateM Stop Executor Unit := do
  if operation.waiting then
    putOperation env operation.expired
    deliver env operation.expired

/-! ## Staging a round -/

/-- A call of a tool. -/
structure ToolCall where
  name : String
  arguments : List (String × JsonValue)

/-- Whether a path of the workspace leads upwards. -/
def escapes (arguments : List (String × JsonValue)) : Bool :=
  arguments.any fun argument =>
    match argument.2 with
    | .string value =>
      "workspace://".toList.isPrefixOf value.toList &&
        (value.toList.splitOn '/').contains ['.', '.']
    | _ => false

/-- What becomes of a new operation. -/
inductive Judgement where
  | allowed
  | approval
  | rejected (message : String)

/-- The judgement of a call that is none. -/
def invalidCall : Judgement := .rejected "工具未注册或参数无效。"

/-- The checks of a new operation. What throws counts as an invalid call. -/
def judge (operation : ExecutionOperation) : Judgement :=
  if (env.tool operation.toolName).isNone then invalidCall
  else if !env.visible operation.agentId operation.toolName then
    .rejected "工具对当前角色不可见。"
  else if escapes operation.arguments then .rejected "工作区路径不能包含上级目录。"
  else
    match env.validateInput operation.toolName operation.arguments,
        env.withinCeiling operation with
    | .ok valid, .ok within =>
      if !within then .rejected "操作超出宿主授予的权限范围。"
      else if !valid then .rejected "工具参数校验失败。"
      else
        match env.check operation with
        | .ok true => .allowed
        | .ok false => .approval
        | .error _ => invalidCall
    | _, _ => invalidCall

/-- The identifier of a call of a round. -/
def operationId (roundKey : String) (index : ℕ) : String :=
  roundKey ++ ":tool:" ++ toString index

/-- A call that has a record already. -/
def restage (previous : ExecutionOperation) (call : ToolCall) : EStateM Stop Executor Unit := do
  if previous.toolName ≠ call.name ∨
      stringify (.object previous.arguments) ≠ stringify (.object call.arguments) then
    throw (.fault "原批次已有不同参数的执行记录，停止重放并保留现场。")
  else
    let previous ← registered previous
    match previous.state with
    | .registered | .running => modify (·.launch previous)
    | .succeeded | .failed => deliver env previous
    | .unknown => do
      env.onUnknown previous.agentId
      deliver env previous
    | .approval => return
where
  /-- Registers the operation with the scheduler, unless it is. -/
  registered (previous : ExecutionOperation) : EStateM Stop Executor ExecutionOperation := do
    if previous.schedulerOperation.isSome then return previous
    else
      let handle ← (env.registerOperations previous.id : Except Stop AsyncOperation)
      let previous := { previous with schedulerOperation := some handle }
      putOperation env previous
      return previous

/-- The record of a new call, as the checks leave it. -/
def judged (operation : ExecutionOperation) : Judgement → ExecutionOperation
  | .allowed => operation
  | .approval => { operation with state := .approval }
  | .rejected message =>
    operation.become .failed
      (errorResult "permission_or_input_denied" [("message", .string message)])

/-- The record comes before the scheduler knows of the operation and before any side effect. -/
def recordNew (operation : ExecutionOperation) (judgement : Judgement) :
    EStateM Stop Executor Unit := do
  putOperation env operation
  let handle ← (env.registerOperations operation.id : Except Stop AsyncOperation)
  let operation := { operation with schedulerOperation := some handle }
  putOperation env operation
  match judgement with
  | .rejected _ => deliver env operation
  | .approval => return
  | .allowed => modify (·.launch operation)

/-- A new call. -/
def stageNew (operation : ExecutionOperation) : EStateM Stop Executor Unit :=
  match judge env operation with
  | .rejected message => do
    (env.onFault operation.agentId "permission" message : Except Stop Unit)
    recordNew env (judged operation (.rejected message)) (.rejected message)
  | judgement => recordNew env (judged operation judgement) judgement

/-- The record of a call of a round, before the checks. -/
def newOperation (roundKey : String) (agentId : AgentId) (cursor : ContextCursor) (id : String)
    (call : ToolCall) : ExecutionOperation where
  id := id
  agentId := agentId
  batchId := roundKey
  target := cursor
  toolName := call.name
  arguments := call.arguments
  state := .registered
  effect := (env.tool call.name).getD .readOnly
  schedulerOperation := none
  result := .null

/-- Stages the calls of a round. -/
def stage (roundKey : String) (agentId : AgentId) (cursor : ContextCursor)
    (calls : List ToolCall) : EStateM Stop Executor Unit :=
  calls.zipIdx.forM fun (call, index) => do
    let id := operationId roundKey index
    match (← get).operations.get? id with
    | some previous => restage env previous call
    | none => stageNew env (newOperation env roundKey agentId cursor id call)

/-! ## The host's decisions -/

/-- The host approves an operation, or does not. -/
def approve (id : String) (allowed : Bool) : EStateM Stop Executor Unit := do
  match (← get).operations.get? id with
  | none => throw (.fault "没有待处理的审批操作。")
  | some operation =>
    if operation.state ≠ .approval then throw (.fault "没有待处理的审批操作。")
    else if !pending env operation then
      expire env operation
      throw (.fault "审批已经超时或取消，不能执行。")
    else if !env.agentActive operation.agentId then throw (.fault "Agent 已暂停或取消。")
    else if !allowed then
      let operation := operation.become .failed (errorResult "approval_denied" [])
      putOperation env operation
      deliver env operation
    else
      env.grantByHuman operation
      let operation := { operation with state := .registered }
      putOperation env operation
      modify (·.launch operation)

/-- How the host settles an operation whose outcome is unknown. -/
inductive Reconciliation where
  | succeeded
  | failed

/-- The state of an operation that was settled. -/
def Reconciliation.state : Reconciliation → OperationState
  | .succeeded => .succeeded
  | .failed => .failed

/-- The host settles an operation whose outcome is unknown. -/
def reconcile (id : String) (outcome : Reconciliation) (result : JsonValue) :
    EStateM Stop Executor Unit := do
  match (← get).operations.get? id with
  | none => throw (.fault "操作不是结果未知状态。")
  | some operation =>
    if operation.state ≠ .unknown then throw (.fault "操作不是结果未知状态。")
    else if ((← get).mutationWork id).isSome then
      throw (.fault "底层副作用仍在执行，须等待实际停止后再对账。")
    else
      let operation := operation.become outcome.state result
      putReconciliation env operation
      deliverReconciliation env operation
      deliver env operation

/-! ## Recovery -/

/-- What becomes of an operation that a former process left running. -/
def ExecutionOperation.interrupted (operation : ExecutionOperation) : ExecutionOperation :=
  { operation with state := if operation.effect.mutating then .unknown else .registered }

/-- Isolates what a former process left running. -/
def isolateRestoredOperations : EStateM Stop Executor Unit := do
  (← get).operations.entries.forM fun operation => do
    if operation.state = .running then putOperation env operation.interrupted
  modify fun s => { s with isolated := true }

/-- Goes on with what a former process left. -/
def recover (agentId : AgentId) : EStateM Stop Executor Unit := do
  ((← get).operationsOf agentId).forM fun operation => do
    match operation.state with
    | .registered =>
      if operation.schedulerOperation.isSome then modify (·.launch operation)
    | .succeeded | .failed => deliver env operation
    | .unknown => do
      env.onUnknown agentId
      deliver env operation
    | .running | .approval => pure ()
    deliverReconciliation env operation

/-- Tells the host again of the reconciliations of an agent. -/
def notifyReconciliations (agentId : AgentId) : EStateM Stop Executor Unit := do
  ((← get).operationsOf agentId).forM (deliverReconciliation env)

/-- Launches again what an agent has registered. -/
def resume (agentId : AgentId) : EStateM Stop Executor Unit := do
  ((← get).operationsOf agentId).forM fun operation => do
    if operation.state = .registered then modify (·.launch operation)

/-- Fails what an agent has waiting. -/
def dismiss (agentId : AgentId) : EStateM Stop Executor Unit := do
  ((← get).operationsOf agentId).forM fun operation => do
    if operation.waiting then expire env operation

/-- Nothing more is launched. -/
def stop : EStateM Stop Executor Unit := modify fun s => { s with stopping := true }

/-! ## Results of the scheduler -/

/-- An operation whose wait has ended without a result. -/
def ExecutionOperation.abandoned (operation : ExecutionOperation) (outcome : String) :
    ExecutionOperation :=
  operation.become (if operation.effect.mutating then .unknown else .failed)
    (errorResult outcome [])

/-- How an outcome without a result is written. -/
def unfinished? : AsyncOperationOutcome → Option String
  | .timedOut => some "timed_out"
  | .cancelled _ => some "cancelled"
  | _ => none

/-- The reference to what a wait ended with, which is made once. -/
def resolveWait (operation : ExecutionOperation) (result : AsyncOperationResult) :
    EStateM Stop Executor String := do
  let key := "wait-result:" ++ result.operation.operationId ++ ":" ++ toString result.completedAt
  match ((← get).waits key).filter (· ≠ "") with
  | some previous => return previous
  | none =>
    let operation ← settleWait operation (unfinished? result.outcome)
    let ref ← match result.outcome with
      | .succeeded resultRef => pure resultRef
      | _ => snapshot env operation
    write env fun s => { s with waits := Function.update s.waits key (some ref) }
    return ref
where
  /-- The operation after its wait has ended. -/
  settleWait (operation : ExecutionOperation) :
      Option String → EStateM Stop Executor ExecutionOperation
    | none => return operation
    | some outcome => do
      if operation.state = .running then
        let operation := operation.abandoned outcome
        putOperation env operation
        if operation.state = .unknown then
          (env.onUnknown operation.agentId : Except Stop Unit)
        return operation
      else if operation.waiting then
        expire env operation
        return operation.expired
      else return operation

/-! ## `#execute` -/

/-- The process with a launch changed. -/
def Executor.modifyLaunch (s : Executor) (ticket : ℕ) (change : Launch → Launch) : Executor :=
  match s.launches.get? ticket with
  | some launch => s.setLaunch (change launch)
  | none => s

/-- The launch's operation object is now `operation`. -/
def hold (ticket : ℕ) (operation : ExecutionOperation) : EStateM Stop Executor Unit :=
  modify (·.modifyLaunch ticket fun launch => { launch with operation })

/-- The launch's promise is at `phase`. -/
def moveTo (ticket : ℕ) (phase : Phase) : EStateM Stop Executor Unit :=
  modify (·.modifyLaunch ticket fun launch => { launch with phase })

/-- The operation ends without a call of its tool. -/
def refuse (ticket : ℕ) (operation : ExecutionOperation) (result : JsonValue) :
    EStateM Stop Executor Unit := do
  let operation := operation.become .failed result
  hold ticket operation
  putOperation env operation
  deliver env operation

/-- Whether the agent may still use the tool as it was recorded. -/
def permitted (operation : ExecutionOperation) (effect : ToolEffect) : Except Stop Bool :=
  if effect ≠ operation.effect || !env.visible operation.agentId operation.toolName then
    return false
  else (env.check operation).mapError .fault

/-- `#expire` on the operation object of a launch. -/
def expireHeld (ticket : ℕ) (operation : ExecutionOperation) : EStateM Stop Executor Unit := do
  if operation.waiting then
    hold ticket operation.expired
    expire env operation

/-- From the record that an operation is running to the call of its tool. The result says whether
`#execute` goes on waiting for the tool. -/
def start (ticket : ℕ) (operation : ExecutionOperation) : EStateM Stop Executor Bool := do
  let operation := { operation with state := .running }
  hold ticket operation
  putOperation env operation
  let s ← get
  if operation.effect.mutating && s.hasUnknownMutation (s.workspace operation.agentId) then
    refuse env ticket operation (errorResult "workspace_unreconciled"
      [("message", .string "同一工作区有未确认副作用，请先对账。")])
    return false
  else
    modify (·.modifyLaunch ticket fun launch => { launch with work := some .scheduled })
    modify fun s => { s with
      mutationWork := if operation.effect.mutating then
        Function.update s.mutationWork operation.id (some ticket) else s.mutationWork }
    return true

/-- Up to the call of the tool. -/
def execute (ticket : ℕ) (operation : ExecutionOperation) : EStateM Stop Executor Bool := do
  if !pending env operation then
    expireHeld env ticket operation
    return false
  else if !env.agentActive operation.agentId then return false
  else
    match env.tool operation.toolName with
    | none => throw (.fault ("Tool is not registered: " ++ operation.toolName))
    | some effect =>
      if !(← (permitted env operation effect : Except Stop Bool)) then
        refuse env ticket operation (errorResult "permission_denied" [])
        return false
      else start env ticket operation

/-- What an operation whose tool failed ends in. -/
def failure (operation : ExecutionOperation) (aborted : Bool) :
    ToolFailure → ExecutionOperation × String
  | .precondition code message =>
    if aborted then failed (errorResult "tool_failed" unreconciled) else
      (operation.become .failed (errorResult code [("message", .string message)]), message)
  | .execution code message detail =>
    failed (errorResult code [("message", .string message), ("detail", detail)])
  | .other => failed (errorResult "tool_failed" unreconciled)
where
  unreconciled := [("message", JsonValue.string "工具执行失败；副作用结果需对账。")]
  failed (result : JsonValue) : ExecutionOperation × String :=
    (operation.become (if operation.effect.mutating then .unknown else .failed) result,
      "工具执行失败。")

/-- The operation after the tool's answer, and the fault to report. -/
def concluded (operation : ExecutionOperation) (aborted : Bool) :
    Except ToolFailure JsonValue → ExecutionOperation × Option String
  | .ok result =>
    (operation.become
      (if aborted && operation.effect.mutating then .unknown else .succeeded) result, none)
  | .error error =>
    let (operation, message) := failure operation aborted error
    (operation, some message)

/-- The outcome of a tool is written and delivered. -/
def writeOutcome (operation : ExecutionOperation) : EStateM Stop Executor Unit := do
  putOperation env operation
  if operation.state = .unknown then (env.onUnknown operation.agentId : Except Stop Unit)
  deliver env operation

/-- From the tool's answer to the end of `#execute`. -/
def conclude (ticket : ℕ) (operation : ExecutionOperation) (aborted : Bool)
    (answer : Except ToolFailure JsonValue) : EStateM Stop Executor Unit := do
  let (operation, fault) := concluded operation aborted answer
  hold ticket operation
  match fault with
  | none => writeOutcome env operation
  | some message => do
    (env.onFault operation.agentId "tool" message : Except Stop Unit)
    writeOutcome env operation

/-- A part of `#execute`. When it throws, the promise of the launch is rejected. -/
def guarded (ticket : ℕ) (body : EStateM Stop Executor Bool) : EStateM Stop Executor Unit :=
  tryCatch
    (do
      let waits ← body
      if !waits then moveTo ticket .ended)
    fun
      | .crash => throw .crash
      | .fault _ => modify (·.modifyLaunch ticket fun launch =>
          { launch with phase := .ended, faulted := true })

end OsAgent.AgentRuntime
