import OsAgent.AgentRound.Drain
import OsAgent.AgentRound.SummaryRequests
import OsAgent.AgentScheduler.History

/-!
# The round runner

`agent-round/runner.ts` leads one batch of the scheduler through the context of its agent: the batch is taken
in, a summary is made or the work of the round is done, what was decided is committed, and the scheduler is
told to consume the batch or gets it back. The state is that of the scheduler and of the context, each with
its store, with a record of what happened.

Wherever the runner awaits something, others go on (`Act`): they use the scheduler and the context in any way
except to end a run of the agent or to settle a round. A process that ends in the middle of a stretch leaves
what it leaves if from there on the stores fail, so this is what an end of the process looks like.
-/

namespace OsAgent.AgentRound

open OsAgent.Library OsAgent.Context OsAgent.AgentRuntime
open ControlBlock (AgentId)
open AgentScheduler (AgentRun AgentDispatchBatch AgentWakeEvent AsyncOperationResult AgentRunIntent)

/-! ## The state -/

/-- What a round may throw. -/
inductive RoundFault where
  | context (fault : Context.Fault)
  | scheduler (fault : AgentScheduler.Fault)
  /-- What the host's callbacks throw. -/
  | host (message : String)
  | aborted
deriving Repr

/-- The scheduler and the context of an agent. -/
structure Rounds where
  scheduler : AgentScheduler.Scheduler
  session : Session
  /-- The runs that the scheduler handed out. -/
  taken : List AgentRun
  /-- The batches of the agent that were consumed. -/
  consumed : List AgentDispatchBatch
  /-- The decisions that were applied, with the keys of their rounds. -/
  decided : List (String × ContextDecision)

/-- What a runner does. -/
abbrev Round := EStateM RoundFault Rounds

/-- What a runner is created with. `scheduler` and `sha256` are what is outside the scheduler and the
context; `parameters` and `issues` are what the schema library says of the form of a summary. -/
structure AgentRoundOptions where
  agentId : AgentId
  maxRequestTokens : ℕ
  maxOutputTokens : ℕ
  formatError : RoundFault → String
  scheduler : AgentScheduler.Environment
  sha256 : String → String
  parameters : JsonValue
  issues : JsonValue → String

/-! ## What others do -/

/-- The operations of the context that settle a round. -/
def settles : Context.Operation → Bool
  | .apply .. | .commitSummaryPhase .. | .acknowledgeRound .. | .commitSummary .. => true
  | _ => false

/-- The operations of the scheduler that end a run of the agent with its batch. -/
def finishes (agentId : AgentId) : AgentScheduler.Operation → Bool
  | .finishRun run _ => run.agentId = agentId
  | _ => false

/-- What others may do while the runner awaits something, or between its rounds. -/
inductive Act (agentId : AgentId) where
  | context (env : Context.Surroundings) (op : Context.Operation) (other : settles op = false)
  | scheduler (op : AgentScheduler.Operation) (other : finishes agentId op = false)

/-- The run that an operation of the scheduler hands out. -/
def takenRun (env : AgentScheduler.Environment) (op : AgentScheduler.Operation)
    (s : AgentScheduler.Scheduler) : Option AgentRun :=
  match op with
  | .takeNextRun =>
    match AgentScheduler.takeNextRun env s with
    | .ok run _ => run
    | .error _ _ => none
  | _ => none

section Runner

variable (options : AgentRoundOptions)

/-- The state after an operation of the scheduler, which ended in `s`. -/
def Rounds.scheduled (g : Rounds) (op : AgentScheduler.Operation) (s : AgentScheduler.Scheduler) :
    Rounds :=
  { g with
    scheduler := s
    taken := g.taken ++ (takenRun options.scheduler op g.scheduler).toList
    consumed := g.consumed ++ (AgentScheduler.finishedBatch op g.scheduler options.agentId).toList }

/-- The state after others did something, which may have thrown. -/
def Act.perform (g : Rounds) : Act options.agentId → Rounds
  | .context env op _ =>
    { g with session := finalState (op.perform options.sha256 env g.session) }
  | .scheduler op _ => g.scheduled options op (finalState (op.perform options.scheduler g.scheduler))

/-- A promise of the host: what others do until it is settled, and how it is. -/
structure Await (agentId : AgentId) (α : Type) where
  meanwhile : List (Act agentId)
  answer : Except String α

/-- Others go on while a promise is awaited, which is then kept or not. -/
def await {α : Type} (promise : Await options.agentId α) : Round α := fun g =>
  let g := promise.meanwhile.foldl (Act.perform options) g
  match promise.answer with
  | .ok a => .ok a g
  | .error message => .error (.host message) g

/-! ## The surroundings of a round -/

/-- The calls of the context in a round. -/
inductive ContextCall where
  | roundReceipt
  | drain (k : ℕ)
  | summaryReceipt
  | acknowledge
  | commitSummary
  | failSummary
  | apply
deriving DecidableEq

/-- Where the runner looks at its signal. -/
inductive Checkpoint where
  | start
  | request
  | summarized
  | worked
deriving DecidableEq

/-- What may happen between the call of `dispatchRequest` and its answer. -/
inductive Dispatched (agentId : AgentId) where
  | act (act : Act agentId)
  /-- The hook is called, when the signal may be aborted. -/
  | beforeSend (aborted : Bool) (env : Context.Surroundings)

/-- How the request for a summary is sent: by the requester, after the hook, or by `dispatchRequest`, which
calls the hook when it likes. -/
inductive Sending (agentId : AgentId) where
  | requester (aborted : Bool) (env : Context.Surroundings) (answer : Await agentId SummaryCompletion)
  | dispatch (events : List (Dispatched agentId)) (answer : Except String SummaryCompletion)

/-- What an input is resolved to. -/
structure ResolvedContextInput where
  entries : List ContextEntry
  target : Option ContextCursor

/-- What the host answers in one round. -/
structure RoundSurroundings (agentId : AgentId) where
  context : ContextCall → Context.Surroundings
  aborted : Checkpoint → Bool
  resolveEvent : AgentWakeEvent → Await agentId ResolvedContextInput
  resolveResult : AsyncOperationResult → Await agentId ResolvedContextInput
  inputsReceived : Await agentId Unit
  summary : ModelCompletionRequest → Sending agentId
  work : List JsonValue → Await agentId (ContextDecision × List ContextEntry)
  waitSatisfied : Except String Bool
  failureReturned : RoundFault → Await agentId Unit

/-! ## The parts of a round -/

/-- An operation of the context. -/
def onContext {α : Type} (x : Operate α) : Round α :=
  within Rounds.session (fun g session => { g with session }) .context x

/-- A part that only computes. -/
def compute {α : Type} (x : Except Context.Fault α) : Round α := onContext (liftM x)

/-- An operation of the scheduler, with a record of what it did. -/
def schedule (op : AgentScheduler.Operation) : Round Unit := fun g =>
  match op.perform options.scheduler g.scheduler with
  | .ok _ s => .ok () (g.scheduled options op s)
  | .error e s => .error (.scheduler e) (g.scheduled options op s)

/-- Looks at the agent in the scheduler. -/
def inspect (agentId : AgentId) : Round AgentScheduler.AgentScheduleSnapshot :=
  within Rounds.scheduler (fun g scheduler => { g with scheduler }) .scheduler
    (AgentScheduler.inspect agentId)

variable (env : RoundSurroundings options.agentId)

/-- Ends the round if it was aborted. -/
def throwIfAborted (checkpoint : Checkpoint) : Round Unit :=
  if env.aborted checkpoint then throw .aborted else pure ()

/-- The key under which an event is delivered. -/
def eventKey (event : AgentWakeEvent) : String := "event:" ++ event.eventId

/-- The key under which a result is delivered. -/
def resultKey (result : AsyncOperationResult) : String := "operation:" ++ result.operation.operationId

/-- The deliveries of a list of inputs, each resolved after the one before. -/
def resolveEach {ι : Type} (key : ι → String) (resolve : ι → Await options.agentId ResolvedContextInput) :
    List ι → Round (List ContextDelivery)
  | [] => pure []
  | input :: inputs => do
    let resolved ← await options (resolve input)
    let others ← resolveEach key resolve inputs
    return { key := key input, entries := resolved.entries, target := resolved.target } :: others

/-- The deliveries of the events and results of a batch. -/
def resolveBatch (batch : AgentDispatchBatch) : Round (List ContextDelivery) := do
  let events ← resolveEach options eventKey env.resolveEvent batch.events
  let results ← resolveEach options resultKey env.resolveResult batch.results
  return events ++ results

/-- How the round is consumed, if the context is to be run again or not. -/
def finishRound (run : AgentRun) (intent : ContextIntent) : Round Unit := do
  let again ← onContext needsRun
  schedule options (.finishRun run
    (if again then .continue else match intent with | .continue => .continue | .idle => .idle))

/-- A request has to be within the limits of the runner. -/
def checkRequestBudget (request : ModelCompletionRequest) (maximum output : ℕ) :
    Except Context.Fault Unit :=
  let requested := request.maxOutputTokens.getD output
  requireContext (isPositiveInteger requested ∧ requested ≤ output ∧
      estimateContextTokens request.toJson + requested ≤ maximum)
    "完整模型请求与输出预留超过宿主预算。" .budgetExceeded

/-- The hook before a request is sent counts the attempt. It may be called once, unless it failed. -/
def dispatchEvents (attempted : Option PendingContextSummary) :
    List (Dispatched options.agentId) → Round (Option PendingContextSummary)
  | [] => pure attempted
  | .act act :: events => do
    modify fun g => act.perform options g
    dispatchEvents attempted events
  | .beforeSend aborted env :: events => do
    -- What the hook throws, the host sees and not the runner.
    if attempted.isSome ∨ aborted then
      dispatchEvents attempted events
    else
      let attempted ← tryCatch (onContext (beginSummaryAttempt env)) fun _ => pure none
      dispatchEvents attempted events

/-- Sends the request for a summary. The attempt is there if it was counted. -/
def sendSummary : Sending options.agentId →
    Round (Option PendingContextSummary × Except RoundFault SummaryCompletion)
  | .requester aborted env answer =>
    if aborted then
      throw .aborted
    else do
      let attempted ← onContext (beginSummaryAttempt env)
      let completion ← tryCatch (Except.ok <$> await options answer) fun e => pure (.error e)
      return (attempted, completion)
  | .dispatch events answer => do
    let attempted ← dispatchEvents options none events
    return (attempted, answer.mapError .host)

/-- A request as it is sent, checked. -/
def boundedRequest (input : ModelCompletionRequest) : Except Context.Fault ModelCompletionRequest := do
  let bounded := { input with
    maxOutputTokens := some (input.maxOutputTokens.getD options.maxOutputTokens) }
  checkRequestBudget bounded options.maxRequestTokens options.maxOutputTokens
  return bounded

/-- What is made of the answer: a phase of the summary that is committed. -/
def commitAnswer (batchId : String) (pending : PendingContextSummary) :
    Except RoundFault SummaryCompletion → Round Unit
  | .error e => throw e
  | .ok completion => do
    throwIfAborted options env .summarized
    let restored ← compute
      (parseSummary options.issues completion pending.allowedRefs pending.sourceRef)
    onContext (commitSummaryPhase (env.context .commitSummary) batchId pending.id restored)

/-- The failure of an attempt that was counted is noted with the summary. -/
def noteFailure (attempted : Option PendingContextSummary) (id : String) (e : RoundFault) : Round Unit :=
  if attempted.isSome then
    onContext (failSummary (env.context .failSummary) id (options.formatError e))
  else
    pure ()

/-- How a batch was executed. -/
inductive RoundOutcome where
  | work
  | summary
  | replayed
deriving DecidableEq, Repr

/-- A round that made a summary has dealt with its batch if all of it was taken in. Otherwise only the run is
given back. -/
def settleSummary (run : AgentRun) (inputsReceived : Bool) : Round Unit :=
  if inputsReceived then do
    onContext (acknowledgeRound (env.context .acknowledge) run.batch.batchId)
    finishRound options run .idle
  else
    schedule options (.returnRun run)

/-- The round makes a summary. -/
def summarize (run : AgentRun) (pass : Pass) (pending : PendingContextSummary) :
    Round RoundOutcome := do
  let input ← compute (summaryRequest options.parameters pass.checkpoint options.maxOutputTokens)
  throwIfAborted options env .request
  let bounded ← compute (boundedRequest options input)
  let (attempted, answer) ← sendSummary options (env.summary bounded)
  let pending := attempted.getD pending
  tryCatch (commitAnswer options env run.batch.batchId pending answer) fun e => do
    noteFailure options env attempted pending.id e
    throw e
  settleSummary options env run pass.inputsReceived
  return .summary

/-- Whether the decision needs that no operation is in flight. -/
def endsGoal : ContextDecision → Bool
  | .complete | .idle | .finishTurn => true
  | _ => false

/-- An agent waits for an operation in flight, or for what the host says is there. -/
def checkWait (decision : ContextDecision) (pending : ℕ) : Round Unit :=
  if decision = .wait ∧ pending = 0 then
    match env.waitSatisfied with
    | .ok satisfied =>
      compute (requireContext (satisfied = true) "等待必须有在途操作提供唤醒路径。" .invalidState)
    | .error message => throw (.host message)
  else
    pure ()

/-- The round does its work, and commits what was decided. -/
def doWork (run : AgentRun) (pass : Pass) : Round RoundOutcome := do
  let cursor ← onContext cursor
  let view ← compute (viewFrames pass.checkpoint.context)
  let (decision, entries) ← await options (env.work view)
  throwIfAborted options env .worked
  let snapshot ← inspect run.agentId
  let pending := snapshot.pendingOperations.length
  compute (requireContext (¬(endsGoal decision ∧ 0 < pending))
    "仍有在途操作，不能结束当前目标。" .invalidState)
  checkWait options env decision pending
  onContext (apply (env.context .apply) run.batch.batchId cursor decision entries)
  modify fun g => { g with decided := g.decided ++ [(run.batch.batchId, decision)] }
  finishRound options run .idle
  return .work

/-- The host hears of a batch that was taken in. If a summary was made for it before, that is all. -/
def replaySummary (run : AgentRun) (inputsReceived : Bool) : Round Bool :=
  if inputsReceived then do
    await options env.inputsReceived
    let receipt ← onContext (summaryReceipt (env.context .summaryReceipt) run.batch.batchId)
    if receipt.isSome then do
      onContext (acknowledgeRound (env.context .acknowledge) run.batch.batchId)
      finishRound options run .idle
      return true
    else
      return false
  else
    pure false

/-- The round after the batch was taken in as far as there is room. -/
def afterDrain (run : AgentRun) (pass : Pass) : Round RoundOutcome := do
  let replayed ← replaySummary options env run pass.inputsReceived
  if replayed then
    return .replayed
  else
    match pass.checkpoint.pendingSummary with
    | some pending => summarize options env run pass pending
    | none => do
      compute (requireContext (pass.inputsReceived = true)
        "收件箱无法继续接收，未接收输入仍保留在原调度批次中。" .budgetExceeded)
      doWork options env run pass

/-- The part of `execute` whose failure gives the run back. -/
def executeBatch (run : AgentRun) : Round RoundOutcome := do
  throwIfAborted options env .start
  match ← onContext (roundReceipt (env.context .roundReceipt) run.batch.batchId) with
  | some receipt => do
    finishRound options run receipt.intent
    return .replayed
  | none => do
    let deliveries ← resolveBatch options env run.batch
    let drained ← onContext
      (drain options.sha256 (fun k => env.context (.drain k)) deliveries (deliveries.length + 1))
    match drained with
    | some pass => afterDrain options env run pass
    -- The loop has as many passes as it may need.
    | none => throw (.host "")

/-- Whether the run is the one that the scheduler has. -/
def isCurrent (run : AgentRun) (snapshot : AgentScheduler.AgentScheduleSnapshot) : Bool :=
  snapshot.running.map AgentRun.runId = some run.runId

/-- After a failure the run is given back with its batch, if it is still there. -/
def giveBack (run : AgentRun) (e : RoundFault) : Round Unit := do
  let snapshot ← inspect run.agentId
  if isCurrent run snapshot then do
    schedule options (.returnRun run)
    await options (env.failureReturned e)
  else
    pure ()

/-- `execute`, when no other round of the runner is under way. -/
def execute (run : AgentRun) : Round RoundOutcome := do
  compute (requireContext (run.agentId = options.agentId) "需要该 Agent 的有效独占运行凭据。" .invalidState)
  let snapshot ← inspect run.agentId
  compute (requireContext (isCurrent run snapshot = true) "需要该 Agent 的有效独占运行凭据。" .invalidState)
  tryCatch (executeBatch options env run) fun e => do
    giveBack options env run e
    throw e

end Runner

end OsAgent.AgentRound
