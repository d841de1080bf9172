import OsAgent.AgentContext.Decisions
import OsAgent.Library.OrderedMap

/-!
# The context manager and its store

`agent-context/internal/manager.ts` over a store as `agent-context/storage/memory.ts` keeps it for
one key. Every operation that changes something does so in one `mutate`, whose commit is atomic: the
store takes the checkpoint, the records and the receipts, or throws and takes nothing.

What is outside the code is given for each call of an operation: what `createId` returns, and which
calls of the store fail. The hash of delivery keys is a parameter of the whole module.
-/

namespace OsAgent.Context

open OsAgent.Library

/-! ## The store -/

/-- What a store holds for one key. -/
structure Namespace where
  state : Option ContextCheckpoint
  records : OrderedMap ContextStoreWrite.ref
  receipts : OrderedMap ContextReceipt.key

/-- A store that holds nothing for the key. -/
def Namespace.empty : Namespace := ⟨none, .empty, .empty⟩

/-- Add the records of a commit. -/
def addRecords (records : OrderedMap ContextStoreWrite.ref) :
    List ContextStoreWrite → Except Fault (OrderedMap ContextStoreWrite.ref)
  | [] => .ok records
  | write :: writes => do
    requireContext (records.has write.ref = false) "历史引用已存在，不能覆盖。" .storageConflict
    addRecords (records.insert write) writes

/-- Add the receipts of a commit. -/
def addReceipts (results : OrderedMap ContextReceipt.key) :
    List ContextReceipt → Except Fault (OrderedMap ContextReceipt.key)
  | [] => .ok results
  | receipt :: receipts => do
    requireContext (results.has receipt.key = false) "轮次已经提交。" .storageConflict
    addReceipts (results.insert receipt) receipts

/-- The store after a commit. -/
def Namespace.commit (store : Namespace) (expectedRevision : Option ℕ)
    (checkpoint : ContextCheckpoint) (writes : List ContextStoreWrite)
    (receipts : List ContextReceipt) : Except Fault Namespace := do
  requireContext (store.state.map (·.revision) = expectedRevision)
    "检查点版本冲突，请从存储重新恢复。" .storageConflict
  requireContext (checkpoint.revision = (expectedRevision.map (· + 1)).getD 0)
    "检查点版本必须逐次递增。" .storageConflict
  let records ← addRecords store.records writes
  let results ← addReceipts store.receipts receipts
  return { state := some checkpoint, records, receipts := results }

/-! ## Sessions -/

/-- The calls of a store. -/
inductive StoreCall where
  | load
  | read (ref : String)
  | receipt (id : String)
  | commit
deriving DecidableEq, Repr

/-- What is outside the code during a call of an operation. -/
structure Surroundings where
  createId : ℕ → String
  /-- The error with which a call of the store fails, if it does. -/
  failure : StoreCall → Option String

/-- A live manager and its store. -/
structure Session where
  key : String
  state : ContextCheckpoint
  store : Namespace

/-- A method of the manager. -/
abbrev Operate := EStateM Fault Session

/-- Let a call of the store fail where the surroundings say so. -/
def storeCall (env : Surroundings) (call : StoreCall) : Except Fault Unit :=
  match env.failure call with
  | some message => .error (.storage message)
  | none => .ok ()

section Manager

variable (sha256 : String → String) (env : Surroundings)

/-- Reads a record, which is checked. -/
def read (ref : String) : Operate (Option ContextRecord) := do
  storeCall env (.read ref)
  let record := ((← get).store.records.get? ref).map ContextStoreWrite.record
  (checkIfPresent validateRecord record : Except Fault Unit)
  return record

/-- Reads a receipt. -/
def receipt (id : String) : Operate (Option ContextReceipt) := do
  storeCall env (.receipt id)
  return (← get).store.receipts.get? id

/-- The key under which a round is settled. -/
def roundKeyOf (roundKey : String) : String := "round:" ++ roundKey

/-- The key under which the summary of a round is settled. -/
def summaryKeyOf (roundKey : String) : String := "round-summary:" ++ roundKey

/-- The key under which a phase is settled. -/
def phaseKeyOf (id : String) : String := "summary:" ++ id

/-- The receipt of a round. -/
def roundReceipt (roundKey : String) : Operate (Option ContextReceipt) :=
  receipt env (roundKeyOf roundKey)

/-- The receipt of the summary of a round. -/
def summaryReceipt (roundKey : String) : Operate (Option ContextReceipt) :=
  receipt env (summaryKeyOf roundKey)

/-- The mutation in which an operation starts. -/
def ContextCheckpoint.mutation (state : ContextCheckpoint) (createId : ℕ → String) : Mutation where
  state
  writes := []
  createId
  created := 0

/-- The receipts of a commit. -/
def receiptsOf (state : ContextCheckpoint) (receiptKeys : List String) : List ContextReceipt :=
  receiptKeys.map fun key => { key, intent := if state.runnable then .continue else .idle }

/-- The part of `mutate` that only computes: what a change makes of the state, checked. -/
def prepareMutation (change : Change Unit) (state : ContextCheckpoint) : Except Fault Mutation :=
  match change (state.mutation env.createId) with
  | .error e _ => .error e
  | .ok _ mutation => do
    let mutation := { mutation with
      state := { mutation.state with revision := mutation.state.revision + 1 } }
    integer mutation.state.revision 0
    validateCheckpoint mutation.state
    return mutation

/-- Prepares a change and commits it. -/
def mutate (change : Change Unit) (receiptKeys : List String) : Operate Unit := do
  let s ← get
  let mutation ← prepareMutation env change s.state
  storeCall env .commit
  let store ← s.store.commit (some s.state.revision) mutation.state mutation.writes
    (receiptsOf mutation.state receiptKeys)
  -- The state in memory is replaced only when the commit has succeeded.
  set { s with state := mutation.state, store }

/-! ## Deliveries -/

/-- The loop over the deliveries, with those that are new so far. -/
def freshDeliveries (fresh : List ContextDelivery) :
    List ContextDelivery → Operate (List ContextDelivery)
  | [] => pure fresh
  | delivery :: deliveries => do
    validateDelivery delivery
    requireContext
      (byteLength (stringify delivery.toJson) ≤ (← get).state.policy.maxDeliveryBytes)
      "单次输入过大，请保存正文并投递引用。" .budgetExceeded
    let previous ← read env (deliveryRef sha256 delivery.key)
    match fresh.find? (·.key = delivery.key), previous with
    | some duplicate, _ =>
      requireContext (sameDelivery duplicate delivery) "投递键已绑定其他输入。" .invalidInput
      freshDeliveries fresh deliveries
    | none, some (.history recorded) =>
      requireContext (sameDelivery recorded delivery) "投递键已绑定其他输入。" .invalidInput
      freshDeliveries fresh deliveries
    | none, some _ => throw (.context .invalidInput "投递键已绑定其他输入。")
    | none, none => freshDeliveries (fresh ++ [delivery]) deliveries

/-- The change by which new deliveries enter the inbox. -/
def acceptDeliveries (fresh : List ContextDelivery) : Change Unit := do
  assign fun state => { state with inbox := state.inbox ++ fresh, runnable := true }
  modify fun m => { m with writes := m.writes ++ fresh.map fun delivery =>
    { ref := deliveryRef sha256 delivery.key, record := .history delivery } }

/-- Accepts deliveries that are new. -/
def receiveFresh (fresh : List ContextDelivery) : Operate Unit :=
  if fresh.length = 0 then pure () else mutate env (acceptDeliveries sha256 fresh) []

/-- Receives deliveries, which all have to fit. -/
def receive (deliveries : List ContextDelivery) : Operate Unit := do
  let fresh ← freshDeliveries sha256 env [] deliveries
  let state := (← get).state
  requireContext (state.inbox.length + fresh.length ≤ state.policy.maxInbox)
    "收件箱已满，来源系统需要保留并稍后重投。" .budgetExceeded
  receiveFresh sha256 env fresh

/-- Receives deliveries, if all of them fit. -/
def receiveAvailable (deliveries : List ContextDelivery) : Operate Bool := do
  let fresh ← freshDeliveries sha256 env [] deliveries
  let state := (← get).state
  let available := state.policy.maxInbox - state.inbox.length
  receiveFresh sha256 env (fresh.take available)
  return fresh.length ≤ available

/-- Moves the inbox into the active frame, unless a summary is pending. -/
def prepare : Operate ContextCheckpoint := do
  if (← get).state.pendingSummary.isNone then
    mutate env (drainInbox sha256) []
  return (← get).state

/-! ## Rounds and summaries -/

/-- Whether there is something to do. -/
def needsRun : Operate Bool := do
  let state := (← get).state
  return state.runnable || state.pendingSummary.isSome

/-- The cursor of the active frame. -/
def cursor : Operate ContextCursor := return (active (← get).state.context).cursor

/-- The change of `apply`. -/
def applyRound (cursor : ContextCursor) (decision : ContextDecision)
    (entries : List ContextEntry) : Change Unit := do
  requireContext (← draft).pendingSummary.isNone "总结完成前不能执行普通业务轮。" .invalidState
  assertCursor (active (← draft).context) cursor
  applyDecision decision entries
  let _ ← archive

/-- Applies the decision of a round, once. -/
def apply (roundKey : String) (cursor : ContextCursor) (decision : ContextDecision)
    (entries : List ContextEntry) : Operate Unit := do
  text roundKey
  if (← roundReceipt env roundKey).isSome then
    return
  mutate env (applyRound cursor decision entries) [roundKeyOf roundKey]

/-- The change of `beginSummaryAttempt`. -/
def countAttempt : Change Unit := do
  let state ← draft
  let pending ← requirePresent state.pendingSummary "当前没有待总结请求。" .invalidState
  requireContext (pending.attempts < state.policy.maxSummaryAttempts)
    ("总结尝试已达 " ++ toString state.policy.maxSummaryAttempts ++ " 次上限。最近原因：" ++
      pending.lastError.getD "未记录" ++ "。请调整设置后由宿主继续，现场已保留。") .retryExhausted
  assign fun state => { state with
    pendingSummary := some { pending with attempts := pending.attempts + 1 } }

/-- Counts an attempt at the pending summary. -/
def beginSummaryAttempt : Operate (Option PendingContextSummary) := do
  mutate env countAttempt []
  return (← get).state.pendingSummary

/-- The change of `configureBudget`. A sealed context is archived again, with its new budget. -/
def setBudgets (budget : ContextBudget) : Change Unit := do
  assign fun state => { state with policy := { state.policy with budgets := fun _ => budget } }
  (frames (← draft).context).forM fun frame => putFrame (frame.withBudget budget)
  match (← draft).pendingSummary with
  | none => pure ()
  | some pending => do
    let sourceRef ← archive
    assign fun state => { state with
      pendingSummary := some { pending with
        sourceRef, allowedRefs := pending.allowedRefs ++ [sourceRef] } }

/-- Sets the budget of all levels, unless it is set. -/
def configureBudget (budget : ContextBudget) : Operate Unit := do
  validateBudget budget
  let budgets := (← get).state.policy.budgets
  if ∀ level ∈ [ContextLevel.one, .two, .three],
      stringify (budgets level).toJson = stringify budget.toJson then
    return
  mutate env (setBudgets budget) []

/-- The change of `retrySummary`. -/
def resetAttempts : Change Unit :=
  assign fun state => { state with
    pendingSummary := state.pendingSummary.map ({ · with attempts := 0 }) }

/-- Lets the pending summary be tried again. -/
def retrySummary : Operate Unit := do
  requireContext (← get).state.pendingSummary.isSome "当前没有待总结请求。" .invalidState
  mutate env resetAttempts []

/-- The change of `failSummary`. -/
def recordFailure (id message : String) : Change Unit := do
  let pending ← requirePresent ((← draft).pendingSummary.filter (·.id = id))
    "总结凭据已失效。" .staleContext
  let kept := sliceUtf16 message 1000
  assign fun state => { state with
    pendingSummary := some { pending with
      lastError := some (if kept = "" then "总结请求失败。" else kept) } }

/-- Notes why an attempt failed. -/
def failSummary (id message : String) : Operate Unit := mutate env (recordFailure id message) []

/-- Commits the pending summary within a round, once. -/
def commitSummaryPhase (roundKey id : String) (summary : ContextSummary) : Operate Unit := do
  text roundKey
  text id
  if (← receipt env (phaseKeyOf id)).isSome then
    return
  let reported ← summaryReceipt env roundKey
  mutate env (integrateSummary id summary)
    (phaseKeyOf id :: if reported.isSome then [] else [summaryKeyOf roundKey])

/-- Settles a round whose summary was committed. -/
def acknowledgeRound (roundKey : String) : Operate Unit := do
  text roundKey
  if (← roundReceipt env roundKey).isSome then
    return
  requireContext (← summaryReceipt env roundKey).isSome "批次尚未提交总结阶段。" .invalidState
  mutate env (pure ()) [roundKeyOf roundKey]

/-- Commits the pending summary and settles its round. -/
def commitSummary (roundKey id : String) (summary : ContextSummary) : Operate Unit := do
  text roundKey
  if (← roundReceipt env roundKey).isSome then
    return
  mutate env (integrateSummary id summary) [roundKeyOf roundKey]

end Manager

/-! ## Creating and restoring -/

/-- What a manager is created with. -/
structure ContextManagerOptions where
  key : String
  instructions : List String
  objective : String
  policy : ContextPolicy
  initiallyIdle : Bool

/-- The state of a new manager. -/
def ContextManagerOptions.initial (options : ContextManagerOptions) (createId : ℕ → String) :
    ContextCheckpoint where
  revision := 0
  runnable := !options.initiallyIdle
  pendingSummary := none
  inbox := []
  policy := options.policy
  context :=
    { level1 :=
        { id := createId 0
          instructions := options.instructions
          currentTask := { id := createId 1, objective := options.objective }
          taskChain := emptyChain 0
          memory := emptyMemory
          budget := options.policy.budgets .one }
      level2 := none
      level3 := none }

/-- Creates a manager over an empty store. -/
def createAgentContextManager (env : Surroundings) (options : ContextManagerOptions)
    (store : Namespace) : Except Fault Session := do
  validatePolicy options.policy
  strings options.instructions
  text options.objective
  text options.key
  let initial := options.initial env.createId
  validateCheckpoint initial
  storeCall env .commit
  let store ← store.commit none initial [] []
  return { key := options.key, state := initial, store }

/-- The check of a restored checkpoint against the record of the context that it sealed. -/
def validateSource (env : Surroundings) (store : Namespace) (checkpoint : ContextCheckpoint)
    (pending : PendingContextSummary) : Except Fault Unit := do
  storeCall env (.read pending.sourceRef)
  match (store.records.get? pending.sourceRef).map ContextStoreWrite.record with
  | none => .error (.context .invalidInput "需要 JSON 对象。")
  | some source => do
    validateRecord source
    match source with
    | .frame context =>
      requireContext (stringify context.toJson = stringify checkpoint.context.toJson)
        "总结来源缺失或与封存场景不一致。" .invalidInput
    | _ => .error (.context .invalidInput "总结来源缺失或与封存场景不一致。")

/-- Restores a manager from what its store has. -/
def restoreAgentContextManager (env : Surroundings) (key : String) (store : Namespace) :
    Except Fault Session := do
  text key
  storeCall env .load
  let checkpoint ← requirePresent store.state "没有可恢复的上下文检查点。" .invalidInput
  validateCheckpoint checkpoint
  checkIfPresent (validateSource env store checkpoint) checkpoint.pendingSummary
  return { key, state := checkpoint, store }

end OsAgent.Context
