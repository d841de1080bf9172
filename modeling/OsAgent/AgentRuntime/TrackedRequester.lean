import OsAgent.AgentRuntime.NativeHistory
import OsAgent.AgentRuntime.RequestAdmission
import OsAgent.Library.Program

/-!
# The requester that keeps accounts

The runtime sends an agent's model requests through `trackedRequester` (`agent-runtime/internal/limits.ts`). It
answers from the store what was answered before, builds a request once and sends it again after a failure,
checks it against the limits, and writes down what it may cost before it is sent. The rounds of one piece of
work are counted in a budget (`agent-runtime/internal/work-budget.ts`) that stays over retries and restarts.

The state is that of one agent. The agent has one round at a time, so nothing else uses its budget or its
accounts while a request is prepared, sent or answered. Every write to the store may fail, and so may the
moment before the request leaves. A process that ends there leaves what a failure there leaves.
-/

namespace OsAgent.AgentRuntime

open OsAgent.Library OsAgent.Context

/-! ## The state -/

/-- The metadata `work-budget:<agent>`. -/
structure WorkBudget where
  key : String
  used : ℕ
  allocation : ℕ
  closed : Bool
deriving DecidableEq, Repr

/-- What the requester reads of the limits. `cost` is the price of tokens that are put in and out, and
`toFixed` and `costText` are how an amount is printed, with four places or as it is. -/
structure RequesterLimits (Cost : Type) where
  maxRequestTokens : ℕ
  maxOutputTokens : ℕ
  maxTotalTokens : ℕ
  maxRounds : ℕ
  maxCostUsd : Cost
  cost : ℕ → ℕ → Cost
  toFixed : Cost → String
  costText : Cost → String

/-- What the requester reads and writes of the agent. -/
structure AgentUsage (Cost : Type) where
  rounds : ℕ
  totalTokens : ℤ
  costUsd : Cost

/-- An answer, with its usage. -/
structure UsedCompletion extends ModelCompletion where
  inputTokens : ℕ
  outputTokens : ℕ
  totalTokens : ℕ

/-- What happened to the requests, in this order. A request is known by its key and by how often the key was
archived before. -/
inductive RequestEvent where
  /-- A request was sent, with a reservation of tokens, in a grant of rounds. -/
  | sent (key : String) (generation grant : ℕ) (request : ModelCompletionRequest) (tokens : ℕ)
  /-- The answer was stored. -/
  | answered (key : String) (generation : ℕ) (tokens actual : ℕ)

/-- A request whose answer has not come. -/
structure Flight (Cost : Type) where
  key : String
  tokens : ℕ
  estimatedCost : Cost

/-- The accounts of an agent. -/
structure Accounts (Cost : Type) where
  limits : RequesterLimits Cost
  store : HistoryStore
  /-- The metadata `protocol-version:<key>`. -/
  version : String → Option ℕ
  work : Option WorkBudget
  agent : AgentUsage Cost
  admission : RequestAdmission
  flight : Option (Flight Cost)
  /-- How often rounds were granted, by a new budget or a renewed one. -/
  grants : ℕ
  /-- How often a key was archived. -/
  archived : String → ℕ
  events : List RequestEvent
  /-- The highest limit of the tokens so far. -/
  ceiling : ℕ

/-- What a request may fail with. -/
inductive RequesterFault where
  /-- A `RuntimeFault` of the kind `budget`. -/
  | budget (message : String)
  | admission (error : AdmissionError)
  | history (error : ReadError)
  | aborted
  /-- What the hook before a request throws. -/
  | hook (message : String)
  | store
  | stopped

/-- Where the store is written. -/
inductive StorePoint where
  | repairVersion
  | repairCapacity
  | prepareBudget
  | prepareHistory
  | budget
  | admission
  | request
  | version
  | consume
  | charge
  | completion
  | refund
  | event
deriving DecidableEq

/-- What a call of the requester finds outside. -/
structure RequestSurroundings where
  /-- The keys under which the store and the history know the request. -/
  key : String
  batchId : String
  /-- The batch of messages that is worked on. -/
  workBatch : Option String
  /-- The key of new work without a batch. -/
  freshKey : String
  /-- The scope of the history, for work under a key. -/
  scope : String → String
  receipt : String → Bool
  result : String → ℕ → Option JsonValue
  now : ℚ
  aborted : Bool
  beforeSend : Except String Unit
  /-- The process ends before the request leaves. -/
  stopped : Bool
  failure : StorePoint → Bool

/-- What the requester does. -/
abbrev Request (Cost : Type) := EStateM RequesterFault (Accounts Cost)

section Requester

variable {Cost : Type} (env : RequestSurroundings)

/-- A write to the store, which may fail. -/
def putStore (point : StorePoint) (change : Accounts Cost → Accounts Cost) : Request Cost Unit :=
  if env.failure point then throw .store else modify change

/-! ## The budget of a piece of work -/

/-- Rounds for a new piece of work. -/
def newWorkBudget (point : StorePoint) : Request Cost WorkBudget := do
  let budget : WorkBudget :=
    { key := env.workBatch.getD env.freshKey, used := 0, allocation := 1, closed := false }
  putStore env point fun g => { g with work := some budget, grants := g.grants + 1 }
  return budget

/-- The budget of the current work. That of a batch is opened again if it was closed too early. -/
def workBudget (point : StorePoint) : Request Cost WorkBudget := do
  match (← get).work with
  | none => newWorkBudget env point
  | some saved =>
    if env.workBatch = some saved.key ∧ saved.closed = true then do
      putStore env point fun g => { g with work := some { saved with closed := false } }
      return { saved with closed := false }
    else if saved.closed = false ∧ ∀ batchId ∈ env.workBatch, batchId = "" ∨ saved.key = batchId then
      return saved
    else
      newWorkBudget env point

/-- A request of the work is used. -/
def consumeWorkRound (budget : WorkBudget) : Request Cost Unit :=
  putStore env .consume fun g => { g with work := some { budget with used := budget.used + 1 } }

/-- The work has ended. -/
def finishWorkBudget (g : Accounts Cost) : Accounts Cost :=
  match g.work with
  | some saved => if saved.closed then g else { g with work := some { saved with closed := true } }
  | none => g

/-- The work may go on for as many requests again. -/
def renewWorkBudget (g : Accounts Cost) : Accounts Cost :=
  match g.work with
  | some saved =>
    if saved.closed = true ∨ saved.used < g.limits.maxRounds then
      g
    else
      { g with
        work := some { saved with used := 0, allocation := saved.allocation + 1 }
        grants := g.grants + 1 }
  | none => g

/-! ## A request -/

/-- What was sent and answered under a key is archived. -/
def Accounts.archive (key : String) (g : Accounts Cost) : Accounts Cost :=
  { g with
    store := g.store.repairRequest key
    archived := fun name => if name = key then g.archived key + 1 else g.archived name }

/-- The reservation of output, in the request or by default. -/
def outputTokens (limits : RequesterLimits Cost) (request : ModelCompletionRequest) : ℕ :=
  request.maxOutputTokens.getD limits.maxOutputTokens

/-- Whether the estimate of a request is within the limits. -/
def requestFitsLimits (limits : RequesterLimits Cost) (request : ModelCompletionRequest) : Bool :=
  isPositiveInteger (outputTokens limits request) && outputTokens limits request ≤ limits.maxOutputTokens &&
    estimateContextTokens request.toJson + outputTokens limits request ≤ limits.maxRequestTokens

/-- A request that was built before the layout of the fourth version is archived. -/
def repairVersion : Request Cost Unit := do
  let g ← get
  if (g.version env.key).getD 1 < 4 ∧ (g.store.request env.key).isSome then
    putStore env .repairVersion (Accounts.archive env.key)
  else
    pure ()

/-- The request that was built before, unless the limits do not admit it any more. -/
def savedRequest : Request Cost (Option ModelCompletionRequest) := do
  let g ← get
  match g.store.request env.key with
  | none => pure none
  | some saved =>
    if saved.maxOutputTokens = none ∨ requestFitsLimits g.limits saved = false then do
      putStore env .repairCapacity (Accounts.archive env.key)
      return none
    else
      return saved

section History

variable (numbers : List Char → Option String) (digest : String → String)

/-- The request goes on with the history of its work. That for a summary does not. -/
def prepare (input : ModelCompletionRequest) : Request Cost ModelCompletionRequest :=
  if (input.tools.getD []).any fun tool => "submit_".toList.isPrefixOf tool.name.toList then
    pure input
  else do
    let budget ← workBudget env .prepareBudget
    let g ← get
    let selected := withNativeHistory numbers digest g.store
      { key := env.batchId, scope := env.scope budget.key, request := input
        maxInput := g.limits.maxRequestTokens - outputTokens g.limits input
        receipt := env.receipt, result := env.result }
    match selected with
    | .error e => throw (.history e)
    | .ok (selected, store) => do
      putStore env .prepareHistory fun g => { g with store }
      return selected

/-- The request to send, with its reservation of output. -/
def selectedRequest (input : ModelCompletionRequest) : Request Cost ModelCompletionRequest := do
  repairVersion env
  let saved ← savedRequest env
  let selected ← match saved with
    | some saved => pure saved
    | none => prepare env numbers digest input
  let g ← get
  return { selected with maxOutputTokens := some (outputTokens g.limits selected) }

end History

/-- What a request takes from the accounts at most. -/
def reservation (limits : RequesterLimits Cost) (request : ModelCompletionRequest) : ℕ :=
  estimateContextTokens request.toJson + outputTokens limits request

/-- What a request is expected to cost. -/
def estimatedCost (limits : RequesterLimits Cost) (request : ModelCompletionRequest) : Cost :=
  limits.cost (estimateContextTokens request.toJson) (outputTokens limits request)

variable [Add Cost] [Sub Cost] [LT Cost] [DecidableLT Cost]

/-- The checks of the accounts. -/
def checkAccounts (g : Accounts Cost) (request : ModelCompletionRequest) (budget : WorkBudget) :
    Except RequesterFault Unit :=
  if g.limits.maxRounds ≤ budget.used then
    .error (.budget ("本次工作已用完 " ++ toString g.limits.maxRounds ++
      " 轮模型请求。现场已保存；点击“继续”可追加 " ++ toString g.limits.maxRounds ++
        " 轮，累计 Token 和费用上限仍有效。"))
  else if (g.limits.maxTotalTokens : ℤ) < g.agent.totalTokens + reservation g.limits request then
    .error (.budget ("累计 Token 额度不足：已使用 " ++ toString g.agent.totalTokens ++ "，本次需预留 " ++
      toString (reservation g.limits request) ++ "，上限 " ++ toString g.limits.maxTotalTokens ++ "。"))
  else if g.limits.maxCostUsd < g.agent.costUsd + estimatedCost g.limits request then
    .error (.budget ("累计费用额度不足：已使用 $" ++ g.limits.toFixed g.agent.costUsd ++ "，上限 $" ++
      g.limits.costText g.limits.maxCostUsd ++ "。"))
  else
    .ok ()

/-- The admission writes its reservation down. -/
def acquire (tokens : ℕ) : Request Cost Unit := do
  let g ← get
  match g.admission.acquire env.now tokens with
  | .error e => throw (.admission e)
  | .ok admission => putStore env .admission fun g => { g with admission }

/-- The signal is not aborted, and the hook lets the request through. -/
def startSending : Request Cost Unit :=
  if env.aborted then
    throw .aborted
  else
    match env.beforeSend with
    | .ok () => pure ()
    | .error message => throw (.hook message)

/-- What the request may take is written down before it is sent. -/
def charge (request : ModelCompletionRequest) : Request Cost Unit := do
  let g ← get
  let agent : AgentUsage Cost :=
    { rounds := g.agent.rounds + 1
      totalTokens := g.agent.totalTokens + reservation g.limits request
      costUsd := g.agent.costUsd + estimatedCost g.limits request }
  putStore env .charge fun g => { g with agent }

/-- The request leaves. -/
def send (request : ModelCompletionRequest) : Request Cost Unit :=
  if env.stopped then
    throw .stopped
  else
    modify fun g =>
      { g with
        events := g.events ++
          [.sent env.key (g.archived env.key) g.grants request (reservation g.limits request)]
        flight := some
          { key := env.key, tokens := reservation g.limits request
            estimatedCost := estimatedCost g.limits request } }

/-- From the request that is stored to the one that is sent. -/
def sendRequest (request : ModelCompletionRequest) (budget : WorkBudget) : Request Cost Unit := do
  putStore env .request fun g => { g with store := g.store.putRequest env.key request }
  putStore env .version fun g =>
    { g with version := fun name => if name = env.key then some 4 else g.version name }
  startSending env
  consumeWorkRound env budget
  charge env request
  send env request

/-- The slot of the admission is given back. -/
def release (g : Accounts Cost) : Accounts Cost := { g with admission := g.admission.release }

/-- What a call comes to, before an answer. -/
inductive Dispatch where
  /-- The stored answer, which has to be migrated if it was stored by an earlier version. -/
  | replayed (completion : ModelCompletion) (migrate : Bool)
  | sent

section Dispatch

variable (numbers : List Char → Option String) (digest : String → String)

/-- A request that was not answered before is sent. -/
def dispatchNew (input : ModelCompletionRequest) : Request Cost Dispatch := do
  let request ← selectedRequest env numbers digest input
  let g ← get
  if requestFitsLimits g.limits request = false then
    throw (.budget "完整模型请求或输出预留超过当前宿主 Token 限制。")
  else do
    let budget ← workBudget env .budget
    let g ← get
    liftM (checkAccounts g request budget)
    acquire env (reservation g.limits request)
    tryCatch (sendRequest env request budget) fun e => do
      modify release
      throw e
    return .sent

/-- `dispatchRequest`, until the request is sent. -/
def dispatchRequest (input : ModelCompletionRequest) : Request Cost Dispatch := do
  let g ← get
  match g.store.completion env.key with
  | some completed => return .replayed completed ((g.version env.key).getD 1 < 2)
  | none => dispatchNew env numbers digest input

end Dispatch

/-! ## The answer -/

/-- The tokens that the provider reports, or else the reservation. -/
def actualTokens (flight : Flight Cost) (result : UsedCompletion) : ℕ :=
  if result.totalTokens = 0 then flight.tokens else result.totalTokens

/-- What a request did cost. -/
def actualCost (limits : RequesterLimits Cost) (flight : Flight Cost) (result : UsedCompletion) : Cost :=
  if 0 < result.totalTokens then limits.cost result.inputTokens result.outputTokens else flight.estimatedCost

/-- The answer is stored, and then what the request really took. -/
def settleRequest (flight : Flight Cost) (result : UsedCompletion) : Request Cost Unit := do
  putStore env .completion fun g =>
    { g with
      store := g.store.putCompletion flight.key result.toModelCompletion
      events := g.events ++
        [.answered flight.key (g.archived flight.key) flight.tokens (actualTokens flight result)] }
  putStore env .refund fun g =>
    { g with
      agent :=
        { g.agent with
          totalTokens := g.agent.totalTokens - flight.tokens + actualTokens flight result
          costUsd := g.agent.costUsd - flight.estimatedCost + actualCost g.limits flight result } }
  putStore env .event id

/-- The request is over. -/
def endFlight (g : Accounts Cost) : Accounts Cost := { release g with flight := none }

/-- `dispatchRequest`, from the answer on. -/
def completeRequest (flight : Flight Cost) (result : UsedCompletion) : Request Cost Unit := do
  tryCatch (settleRequest env flight result) fun e => do
    modify endFlight
    throw e
  modify endFlight

end Requester

end OsAgent.AgentRuntime
