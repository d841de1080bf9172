import OsAgent.Conversations.Budgets
import OsAgent.Conversations.Delivery

/-!
# Messages of agents

What the runtime (`agent-runtime/internal/runtime.ts`) does when a model asks to send a message, and
what else it does with conversations. The runtime knows the agents, by the fields that are read here,
and keeps its conversations in the store. A method may throw after it has written, so a method is a
program that leaves a state in either case.
-/

namespace OsAgent.Conversations

open OsAgent.Library
open OsAgent.Context (AgentContext ContextDecision ContextEntry)

/-! ## The runtime -/

/-- Whether an agent works. -/
inductive AgentStatus where
  | active
  | paused
  | cancelled
  | dismissed
deriving DecidableEq, Repr

/-- An agent, as far as its messages depend on it. -/
structure RuntimeAgent where
  agentId : ℕ
  ownerId : String
  workspaceId : String
  status : AgentStatus := .active
  /-- The metadata `name:id`. -/
  name : Option String := none
  /-- The policy of an agent's contexts is that of its first one. -/
  maxDeliveryBytes : ℕ := 20000
deriving DecidableEq, Repr

/-- The name of an agent by its number. -/
def RuntimeAgent.agentName (agent : RuntimeAgent) : String := "agent-" ++ toString agent.agentId

/-- The name under which an agent is shown. -/
def RuntimeAgent.displayName (agent : RuntimeAgent) : String := agent.name.getD agent.agentName

/-- An agent as a member of conversations. -/
def RuntimeAgent.member (agent : RuntimeAgent) : ConversationMember := .agent agent.agentId

/-- The agents and their conversations. -/
structure Runtime where
  workspaces : List String := []
  agents : List RuntimeAgent := []
  /-- The last number that was reserved for an agent. -/
  lastAgentId : ℕ := 0
  conversations : ConversationStore := {}

/-- A method of the runtime. -/
abbrev RuntimeM := EStateM StoreError Runtime

/-- A method of the store that writes. -/
def onStore {α : Type} (method : ConversationStore → Except StoreError (α × ConversationStore)) :
    RuntimeM α := do
  let r ← get
  let (result, conversations) ← liftM (method r.conversations)
  set { r with conversations }
  pure result

/-- What becomes of an error that a round ends with. -/
inductive FaultClass where
  | fault (kind : FaultKind)
  /-- The runtime stops. -/
  | internal
deriving DecidableEq, Repr

/-- `classifyFault`, for what is thrown here. -/
def classifyFault : StoreError → FaultClass
  | .fault kind _ _ => .fault kind
  | _ => .internal

namespace Runtime

variable (r : Runtime)

/-- The agent of a number. -/
def live (id : ℕ) : Except StoreError RuntimeAgent :=
  match r.agents.find? fun agent => agent.agentId = id with
  | none => .error (.error "Agent 不存在。")
  | some agent => .ok agent

/-- The agent of a number, if it is the owner's. -/
def owned (id : ℕ) (owner : String) : Except StoreError RuntimeAgent := do
  let agent ← r.live id
  require (agent.ownerId = owner) (.error "Agent 不属于当前宿主。")
  pure agent

/-- Changes what is known of an agent. -/
def update (id : ℕ) (change : RuntimeAgent → RuntimeAgent) : Runtime :=
  { r with agents := r.agents.map fun agent => if agent.agentId = id then change agent else agent }

/-! ## Destinations -/

/-- Whether an agent may write to another. -/
def canMessage (sender recipient : RuntimeAgent) : Bool :=
  sender.agentId ≠ recipient.agentId && sender.ownerId = recipient.ownerId &&
    sender.workspaceId = recipient.workspaceId && recipient.status ≠ .cancelled &&
    recipient.status ≠ .dismissed

/-- Whether a member is a cancelled agent. The search stops at the first one. -/
def anyCancelled : List ConversationMember → Except StoreError Bool
  | [] => pure false
  | .user _ :: members => anyCancelled members
  | .agent id :: members => do
    let agent ← r.live id
    if agent.status = .cancelled then pure true else anyCancelled members

/-- Whether an agent may send to a conversation. -/
def checkAccess (live : RuntimeAgent) (conversation : RuntimeConversation) :
    Except StoreError Unit := do
  let refused : StoreError := .fault .permission "不能向非成员或已取消成员的会话发送消息。" false
  require (conversation.ownerId = live.ownerId ∧ conversation.workspaceId = live.workspaceId ∧
    isMember conversation live.member = true) refused
  let cancelled ← r.anyCancelled conversation.members
  require (cancelled = false) refused

/-- The conversation between two agents, as it is created. -/
def peerConversation (live recipient : RuntimeAgent) : CreateConversation where
  ownerId := live.ownerId
  workspaceId := live.workspaceId
  kind := .direct
  title := live.displayName ++ " · " ++ recipient.displayName
  members := [live.member, recipient.member]

/-- The limit of a member, if it is an agent that has not been dismissed. -/
def limitOf : ConversationMember → Except StoreError (Option ℕ)
  | .user _ => pure none
  | .agent id => do
    let agent ← r.live id
    pure (if agent.status = .dismissed then none else some agent.maxDeliveryBytes)

/-- The limit for a message to a conversation: the least of its agents' limits. -/
def deliveryLimit (conversation : RuntimeConversation) : Except StoreError (Option ℕ) := do
  let limits ← conversation.members.mapM r.limitOf
  pure (limits.filterMap id).min?

end Runtime

/-- The name of a peer, if the destination is one. -/
def peerAlias (destination : String) : Option String :=
  if "peer:".toList <+: destination.toList then some (String.ofList (destination.toList.drop 5))
  else none

/-- The conversation that a destination names. -/
def messageDestination (live : RuntimeAgent) (destination : String) (host : Host) :
    RuntimeM RuntimeConversation := do
  let r ← get
  match peerAlias destination with
  | some name =>
    match r.agents.find? fun agent => agent.agentName = name with
    | some recipient =>
      if Runtime.canMessage live recipient then
        onStore fun s => s.create (Runtime.peerConversation live recipient) host
      else throw (.fault .permission
        "通信目标必须是同一用户、同一工作区内另一个未取消的长期 Agent。" false)
    | none => throw (.fault .permission
        "通信目标必须是同一用户、同一工作区内另一个未取消的长期 Agent。" false)
  | none =>
    match r.conversations.get destination with
    | .error _ => throw (.fault .permission "目标会话不存在或不可访问。" false)
    | .ok conversation => do
      liftM (r.checkAccess live conversation)
      pure conversation

/-! ## Mail -/

/-- What the loop over the mailboxes finds of the agents, besides the conversations. -/
structure Mail where
  /-- Whether the context of an agent needs a run. Nothing for an agent whose round is not over, or
  whose schedule has something else. -/
  needsRun : ℕ → Option Bool
  /-- What the host gives for the batch of an agent. -/
  host : ℕ → Host

/-- The identities that the host gives are new and distinct. -/
structure Mail.Fresh (mail : Mail) (r : Runtime) : Prop where
  fresh : ∀ agentId, "chat:" ++ (mail.host agentId).id ∉
    r.conversations.batches.map ConversationBatch.id
  distinct : ∀ a b, (mail.host a).id = (mail.host b).id → a = b

/-- A batch that was worked at is acknowledged. -/
def acknowledgeFinished (finished : Option ConversationBatch) (now : Timestamp) : RuntimeM Unit :=
  match finished with
  | some batch => onStore fun s => (s.acknowledge batch.id now).map fun s' => ((), s')
  | none => pure ()

/-- `refreshMail`, for one agent: the batch that it has worked at is finished, and the next one is
sealed. -/
def refreshAgent (agent : RuntimeAgent) (needsRun : Bool) (host : Host) : RuntimeM Unit := do
  let r ← get
  let batch := r.conversations.active agent.agentId
  let finished := batch.filter fun batch => batch.status = .delivered ∧ needsRun = false
  acknowledgeFinished finished host.now
  if needsRun = false ∧ (batch = none ∨ finished.isSome = true) then
    let _ ← onStore fun s => s.sealBatch agent.agentId agent.maxDeliveryBytes host
    pure ()

/-- `refreshMail`, as far as it changes the conversations. -/
def refreshMail (mail : Mail) : RuntimeM Unit := do
  let r ← get
  r.agents.forM fun agent =>
    match mail.needsRun agent.agentId with
    | some needsRun =>
      if agent.status = .active then refreshAgent agent needsRun (mail.host agent.agentId) else pure ()
    | none => pure ()

/-! ## The action -/

/-- What a model asks for: `message` for one agent, or `send_message`. -/
inductive MessageAction where
  | message (recipient content : String)
  | sendMessage (conversationId content : String) (replyTo : Option String) (mentions : Option (List ℕ))
      (finish : Bool)
deriving DecidableEq, Repr

namespace MessageAction

/-- Where a message goes. -/
def destination : MessageAction → String
  | .message recipient _ => "peer:" ++ recipient
  | .sendMessage conversationId _ _ _ _ => conversationId

/-- Whether the task is finished with the message. -/
def finish : MessageAction → Bool
  | .message _ _ => false
  | .sendMessage _ _ _ _ finish => finish

/-- What is sent in the round of the key. -/
def input (idempotencyKey : String) : MessageAction → SendConversationMessage
  | .message _ content => { content, idempotencyKey }
  | .sendMessage _ content replyTo mentions _ =>
    { content, idempotencyKey, replyTo := truthy replyTo, mentions := mentions.getD [] }

end MessageAction

/-- Whether a task is not over. -/
def isOpen (task : OsAgent.Context.ContextTask) : Bool :=
  match task.state with
  | .running | .waiting => true
  | _ => false

/-- Whether the turn can end: the agent works at nothing, and waits for nothing. -/
def assertCanFinish (context : AgentContext) (pendingOperations : ℕ) : Except StoreError Unit := do
  require (context.level2.isNone = true ∧ context.level3.isNone = true)
    (.fault .protocol ("结束本轮前必须回到L1。当前L2/L3请用context_complete({})收尾，" ++
      "不能发送finish=true；不要为收尾安装新计划。") true)
  require (context.level1.taskChain.tasks.any isOpen = false)
    (.fault .protocol
      "结束本轮前必须完成现有L1任务链，请advance处理等待项，完成后再finish=true。" true)
  require (pendingOperations = 0)
    (.fault .protocol "结束本轮前必须等待在途操作完成。" true)

/-- What a round that sends a message is given. -/
structure MessageRound where
  idempotencyKey : String
  context : AgentContext
  pendingOperations : ℕ
  conversationHost : Host
  messageHost : Host
  mail : Mail

/-- An action that finishes the turn is refused if the turn can not end. -/
def MessageAction.checkFinish (action : MessageAction) (round : MessageRound) :
    Except StoreError Unit :=
  if action.finish = true then assertCanFinish round.context round.pendingOperations else pure ()

/-- The record of a message that was sent. -/
def sentEntry (message : ConversationMessage) : ContextEntry where
  id := "sent:" ++ message.id
  createdAt := message.createdAt
  content := .event "message_sent" (.object [("messageId", .string message.id),
    ("conversationId", .string message.conversationId), ("content", .string message.content),
    ("replyTo", .ofString? message.replyTo)])

section Policy

variable (policy : ConversationPolicy) (sha256 : String → String)

/-- The message is sent. A batch on its way has the phase that the message belongs to. -/
def deliverMessage (live : RuntimeAgent) (action : MessageAction) (round : MessageRound)
    (conversation : RuntimeConversation) : RuntimeM ConversationMessage := do
  let r ← get
  let limit ← liftM (r.deliveryLimit conversation)
  onStore fun s => s.send policy sha256 conversation.id live.member
    (action.input round.idempotencyKey) (some (r.conversations.agentPhase live.agentId)) limit
    round.messageHost

/-- `performWork`, for an action that sends a message. There is no message guard. -/
def performMessage (live : RuntimeAgent) (action : MessageAction) (round : MessageRound) :
    RuntimeM (ContextDecision × List ContextEntry) := do
  liftM (action.checkFinish round)
  let conversation ← messageDestination live action.destination round.conversationHost
  let message ← deliverMessage policy sha256 live action round conversation
  refreshMail round.mail
  pure (if action.finish then .finishTurn else .continue, [sentEntry message])

end Policy

/-! ## What the host does -/

/-- What a new agent is given, as far as its messages depend on it. The other fields have been
checked. -/
structure CreateRuntimeAgent where
  ownerId : String
  workspaceId : String
  displayName : Option String := none
  maxDeliveryBytes : ℕ := 20000

/-- The names that are accepted. -/
def checkDisplayName (name : String) : Except StoreError String :=
  match parseDisplayName name with
  | none => .error .schema
  | some name => .ok name

/-- The direct conversation of a user with an agent. -/
def directConversation (id : ℕ) (owner : String) (host : Host) : RuntimeM RuntimeConversation := do
  let r ← get
  let agent ← liftM (r.owned id owner)
  onStore fun s => s.create
    { ownerId := owner, workspaceId := agent.workspaceId, kind := .direct, title := agent.displayName,
      members := [.user owner, agent.member] } host

/-- Registers a workspace. -/
def registerWorkspace (id : String) : RuntimeM Unit := do
  liftM (require (isBlank id = false) (StoreError.error "工作区登记不可用。"))
  modify fun r => { r with workspaces := r.workspaces ++ [id] }

/-- Creates an agent in a registered workspace. -/
def createAgent (input : CreateRuntimeAgent) (host : Host) : RuntimeM Unit := do
  let r ← get
  let name ← liftM (input.displayName.mapM checkDisplayName)
  liftM (require (input.workspaceId ∈ r.workspaces ∧ isBlank input.ownerId = false)
    (StoreError.error "宿主、工作区或目标无效。"))
  let agentId := r.lastAgentId + 1
  set { r with lastAgentId := agentId }
  liftM (require (isPositiveInteger agentId = true) (StoreError.error "agentId 必须为正安全整数。"))
  modify fun r => { r with
    agents := r.agents ++ [⟨agentId, input.ownerId, input.workspaceId, .active, name,
      input.maxDeliveryBytes⟩] }
  let _ ← directConversation agentId input.ownerId host
  pure ()

/-- Names an agent. -/
def setDisplayName (id : ℕ) (owner name : String) : RuntimeM Unit := do
  let r ← get
  let _ ← liftM (r.owned id owner)
  let parsed ← liftM (checkDisplayName name)
  set (r.update id fun agent => { agent with name := some parsed })

/-- A member of a conversation that the user creates. -/
def checkMember (r : Runtime) (input : CreateConversation) :
    ConversationMember → Except StoreError Unit
  | .user id => require (id = input.ownerId) (.error "当前宿主不支持加入其他用户。")
  | .agent id => do
    let agent ← r.owned id input.ownerId
    require (agent.workspaceId = input.workspaceId ∧ agent.status ≠ .cancelled ∧
      agent.status ≠ .dismissed) (.error "成员工作区或状态无效。")

/-- Creates a conversation between agents of a workspace and its owner. -/
def createConversation (input : CreateConversation) (host : Host) : RuntimeM Unit := do
  let r ← get
  liftM (require (input.workspaceId ∈ r.workspaces ∧ .user input.ownerId ∈ input.members)
    (StoreError.error "用户创建的会话需要包含本人和有效工作区。"))
  liftM (input.members.forM (checkMember r input))
  let _ ← onStore fun s => s.create input host
  pure ()

section Policy

variable (policy : ConversationPolicy) (sha256 : String → String)

/-- `sendMessage`, which a user calls. -/
def sendUserMessage (id owner : String) (input : SendConversationMessage) (host : Host) (mail : Mail) :
    RuntimeM Unit := do
  let r ← get
  let conversation ← liftM (r.conversations.get id)
  liftM (require (conversation.ownerId = owner ∧ isMember conversation (.user owner) = true)
    (StoreError.error "无权读取此会话。"))
  let cancelled ← liftM (r.anyCancelled conversation.members)
  liftM (require (cancelled = false) (StoreError.error "会话包含已取消的 Agent，需恢复后再发送。"))
  let limit ← liftM (r.deliveryLimit conversation)
  let _ ← onStore fun s => s.send policy sha256 id (.user owner) input none limit host
  refreshMail mail

/-- An agent is paused, resumed or cancelled. A dismissed agent stays so. -/
def setStatus (id : ℕ) (status : AgentStatus) : RuntimeM Unit :=
  modify fun r => r.update id fun agent =>
    if agent.status = .dismissed ∨ status = .dismissed then agent else { agent with status }

/-- Dismisses an agent. -/
def dismissAgent (id : ℕ) (owner : String) : RuntimeM Unit := do
  let r ← get
  let _ ← liftM (r.owned id owner)
  set { r.update id (fun agent => { agent with status := .dismissed }) with
    conversations := r.conversations.dismiss id }

/-! ## Runs -/

/-- What happens to a runtime. A restart finds the state that was stored. -/
inductive RuntimeCall where
  | registerWorkspace (id : String)
  | createAgent (input : CreateRuntimeAgent) (host : Host)
  | setDisplayName (id : ℕ) (owner name : String)
  | createConversation (input : CreateConversation) (host : Host)
  | directConversation (id : ℕ) (owner : String) (host : Host)
  | sendMessage (id owner : String) (input : SendConversationMessage) (host : Host) (mail : Mail)
  | performMessage (id : ℕ) (action : MessageAction) (round : MessageRound)
  /-- The process stops when the conversation of a message is there. -/
  | stopAtDestination (id : ℕ) (action : MessageAction) (round : MessageRound)
  /-- The process stops when the message is there. -/
  | stopAtMessage (id : ℕ) (action : MessageAction) (round : MessageRound)
  | refreshMail (mail : Mail)
  /-- The process stops when a batch is acknowledged, before the next one is sealed. -/
  | stopAtBatch (batchId : String) (now : Timestamp)
  | delivered (batchId : String)
  | setStatus (id : ℕ) (status : AgentStatus)
  | dismissAgent (id : ℕ) (owner : String)

/-- The host gives a message of the user an identity for its phase. -/
def RuntimeCall.Identified : RuntimeCall → Prop
  | .sendMessage _ _ _ host _ => host.phaseId ≠ ""
  | _ => True

/-- What a call does. -/
def RuntimeCall.perform : RuntimeCall → RuntimeM Unit
  | .registerWorkspace id => Conversations.registerWorkspace id
  | .createAgent input host => Conversations.createAgent input host
  | .setDisplayName id owner name => Conversations.setDisplayName id owner name
  | .createConversation input host => Conversations.createConversation input host
  | .directConversation id owner host => do
    let _ ← Conversations.directConversation id owner host
    pure ()
  | .sendMessage id owner input host mail => sendUserMessage policy sha256 id owner input host mail
  | .performMessage id action round => do
    let r ← get
    let live ← liftM (r.live id)
    let _ ← Conversations.performMessage policy sha256 live action round
    pure ()
  | .stopAtDestination id action round => do
    let r ← get
    let live ← liftM (r.live id)
    let _ ← messageDestination live action.destination round.conversationHost
    pure ()
  | .stopAtMessage id action round => do
    let r ← get
    let live ← liftM (r.live id)
    let conversation ← messageDestination live action.destination round.conversationHost
    let _ ← deliverMessage policy sha256 live action round conversation
    pure ()
  | .refreshMail mail => Conversations.refreshMail mail
  | .stopAtBatch batchId now => onStore fun s => (s.acknowledge batchId now).map fun s' => ((), s')
  | .delivered batchId => modify fun r => { r with conversations := r.conversations.delivered batchId }
  | .setStatus id status => Conversations.setStatus id status
  | .dismissAgent id owner => Conversations.dismissAgent id owner

/-- The runs of a runtime with a new database. -/
def runtimeSystem : TransitionSystem Runtime where
  init r := r = {}
  step r r' := ∃ call : RuntimeCall, call.Identified ∧ r' = finalState (call.perform policy sha256 r)

end Policy

end OsAgent.Conversations
