import Mathlib.Data.List.Dedup
import OsAgent.Library.Check
import OsAgent.Library.Json
import OsAgent.Library.Script

/-!
# The conversation store

Conversations between the user and agents (`agent-runtime/internal/conversations.ts`): their messages,
a mailbox for every agent in every conversation, the batches in which messages are delivered, and the
budgets of automatic messages. The store is a database. A method that writes does so in one transaction,
which is rolled back when it throws, so a method that throws leaves the store as it was.
-/

namespace OsAgent.Conversations

open OsAgent.Library

/-! ## The data -/

/-- A time in milliseconds. -/
abbrev Timestamp := ℕ

/-- Who takes part in a conversation. -/
inductive ConversationMember where
  | user (id : String)
  | agent (id : ℕ)
deriving DecidableEq, Repr

/-- The kinds of conversations. -/
inductive ConversationKind where
  | direct
  | group
deriving DecidableEq, Repr

/-- To which agents a message of a group goes. -/
inductive Participation where
  | all
  | mentioned
deriving DecidableEq, Repr

/-- A conversation. -/
structure RuntimeConversation where
  id : String
  ownerId : String
  workspaceId : String
  kind : ConversationKind
  title : String
  members : List ConversationMember
  participation : Participation
  createdAt : Timestamp
deriving DecidableEq, Repr

/-- A message. -/
structure ConversationMessage where
  id : String
  sequence : ℕ
  conversationId : String
  sender : ConversationMember
  content : String
  createdAt : Timestamp
  replyTo : Option String
  mentions : List ℕ
  phaseId : String
deriving DecidableEq, Repr

/-- What is to be sent. -/
structure SendConversationMessage where
  content : String
  idempotencyKey : String
  replyTo : Option String := none
  mentions : List ℕ := []
deriving DecidableEq, Repr

/-- What is to be created. -/
structure CreateConversation where
  ownerId : String
  workspaceId : String
  kind : ConversationKind
  title : String := ""
  members : List ConversationMember
  participation : Participation := .all
deriving DecidableEq, Repr

/-- How far a batch is. -/
inductive BatchStatus where
  | queued
  | delivered
  | done
deriving DecidableEq, Repr

/-- The messages that an agent gets at once. -/
structure ConversationBatch where
  id : String
  agentId : ℕ
  conversationId : String
  upper : ℕ
  phaseId : String
  messages : List ConversationMessage
  status : BatchStatus
deriving DecidableEq, Repr

/-- When messages are delivered, and how many may be sent without a user. -/
structure ConversationPolicy where
  quietMs : ℕ := 500
  maxWaitMs : ℕ := 2000
  groupQuietMs : ℕ := 1200
  maxAutomaticMessages : ℕ := 12
deriving DecidableEq, Repr

/-- The key of a member. -/
def memberKey : ConversationMember → String
  | .user id => "user:" ++ id
  | .agent id => "agent:" ++ toString id

/-- Whether someone takes part in a conversation. -/
def isMember (conversation : RuntimeConversation) (member : ConversationMember) : Bool :=
  conversation.members.any fun item => memberKey item = memberKey member

/-! ## The tables -/

/-- A row of `chat_conversations`. Only a direct conversation has a key. -/
structure ConversationRow where
  conversation : RuntimeConversation
  directKey : Option String
deriving DecidableEq, Repr

/-- A row of `chat_mailboxes`. -/
structure MailboxRow where
  agentId : ℕ
  conversationId : String
  processed : ℕ := 0
  firstAt : Option Timestamp := none
  dueAt : Option Timestamp := none
  priority : ℕ := 0
deriving DecidableEq, Repr

/-- A row of `chat_outbox`. -/
structure OutboxRow where
  id : String
  fingerprint : String
  messageId : String
deriving DecidableEq, Repr

/-- A row of `chat_phases`. -/
structure PhaseRow where
  id : String
  sent : ℕ := 0
deriving DecidableEq, Repr

/-- The database. The rows of a table are in the order in which they were inserted, and those of
`chat_messages` are therefore in the order of their sequence. -/
structure ConversationStore where
  conversations : List ConversationRow := []
  messages : List ConversationMessage := []
  /-- The last sequence that was given out. -/
  lastSequence : ℕ := 0
  outbox : List OutboxRow := []
  mailboxes : List MailboxRow := []
  batches : List ConversationBatch := []
  /-- `chat_dismissed_agents`. -/
  dismissed : List ℕ := []
  phases : List PhaseRow := []
deriving DecidableEq, Repr

/-- The kinds of faults. -/
inductive FaultKind where
  | loop
  | permission
  | protocol
deriving DecidableEq, Repr

/-- What a method throws. -/
inductive StoreError where
  | error (message : String)
  /-- A `RuntimeFault`. -/
  | fault (kind : FaultKind) (message : String) (retryable : Bool)
  /-- A value does not have the form that its schema says. -/
  | schema
  /-- A row has the key of another one. -/
  | constraint (key : String)
deriving DecidableEq, Repr

/-- What the host gives a method: new identities, and the time. -/
structure Host where
  id : String
  phaseId : String := ""
  now : Timestamp
deriving DecidableEq, Repr

/-! ## Texts -/

/-- A text that is not empty, as a condition has it. -/
def truthy (s : Option String) : Option String := s.filter (· ≠ "")

/-- `value.length`. -/
def lengthOf (s : String) : ℕ := (s.toList.map utf16Length).sum

/-- How a member is written. -/
def ConversationMember.toJson : ConversationMember → JsonValue
  | .user id => .object [("kind", .string "user"), ("id", .string id)]
  | .agent id => .object [("kind", .string "agent"), ("id", .ofNat id)]

/-- A message as it is read from the store. -/
def ConversationMessage.properties (m : ConversationMessage) : List (String × JsonValue) :=
  [("id", .string m.id), ("sequence", .ofNat m.sequence),
    ("conversationId", .string m.conversationId), ("sender", m.sender.toJson),
    ("content", .string m.content), ("createdAt", .ofNat m.createdAt),
    ("replyTo", .ofString? m.replyTo), ("mentions", .array (m.mentions.map .ofNat)),
    ("phaseId", .string m.phaseId)]

/-- How a message is written. -/
def ConversationMessage.toJson (m : ConversationMessage) : JsonValue := .object m.properties

/-- A message as it is written: two properties have other places. -/
def ConversationMessage.written (m : ConversationMessage) : JsonValue :=
  .object [("id", .string m.id), ("conversationId", .string m.conversationId),
    ("sequence", .ofNat m.sequence), ("sender", m.sender.toJson), ("content", .string m.content),
    ("createdAt", .ofNat m.createdAt), ("replyTo", .ofString? m.replyTo),
    ("mentions", .array (m.mentions.map .ofNat)), ("phaseId", .string m.phaseId)]

/-- `Buffer.byteLength(JSON.stringify(message))` of a message that was read. -/
def ConversationMessage.size (m : ConversationMessage) : ℕ := byteLength (stringify m.toJson)

/-! ## Mailboxes -/

/-- The scalar `MIN`, which is null if one of its arguments is. -/
def sqlMin : Option Timestamp → Option Timestamp → Option Timestamp
  | some a, some b => some (min a b)
  | _, _ => none

/-- The mailboxes of the agents in a new conversation. -/
def newMailboxes (conversation : RuntimeConversation) : List MailboxRow :=
  conversation.members.filterMap fun member =>
    match member with
    | .user _ => none
    | .agent agentId => some { agentId, conversationId := conversation.id }

/-- A mailbox when a message has come that wakes its agent. -/
def MailboxRow.receive (row : MailboxRow) (policy : ConversationPolicy) (addressed : Bool)
    (quiet : ℕ) (createdAt : Timestamp) : MailboxRow :=
  { row with
    firstAt := some (row.firstAt.getD createdAt)
    dueAt := sqlMin (some (row.firstAt.getD createdAt + policy.maxWaitMs))
      (if addressed.toNat < row.priority then sqlMin row.dueAt (some (createdAt + quiet))
        else some (createdAt + quiet))
    priority := max row.priority addressed.toNat }

/-- A mailbox that waits for nothing. -/
def MailboxRow.cleared (row : MailboxRow) : MailboxRow :=
  { row with firstAt := none, dueAt := none, priority := 0 }

/-- A mailbox when a batch has been worked at. -/
def MailboxRow.advance (row : MailboxRow) (upper : ℕ) : MailboxRow :=
  { row with processed := max row.processed upper }

/-- A mailbox that is due again. -/
def MailboxRow.restore (row : MailboxRow) (firstAt now : Timestamp) : MailboxRow :=
  { row with firstAt := some (row.firstAt.getD firstAt), dueAt := some (row.dueAt.getD now) }

/-- Changes the mailbox of an agent in a conversation. -/
def updateMailbox (agentId : ℕ) (conversationId : String) (change : MailboxRow → MailboxRow)
    (rows : List MailboxRow) : List MailboxRow :=
  rows.map fun row =>
    if row.agentId = agentId ∧ row.conversationId = conversationId then change row else row

/-- Which mailbox is sealed first. A null comes before every time. -/
def sealedBefore (row row' : MailboxRow) : Bool :=
  if row.priority ≠ row'.priority then row'.priority < row.priority
  else
    match row.firstAt, row'.firstAt with
    | none, some _ => true
    | some _, none => false
    | none, none => row.conversationId ≤ row'.conversationId
    | some a, some b => if a ≠ b then a < b else row.conversationId ≤ row'.conversationId

/-! ## Reading -/

namespace ConversationStore

variable (s : ConversationStore)

/-- The conversation of an identifier. -/
def get (id : String) : Except StoreError RuntimeConversation :=
  match s.conversations.find? fun row => row.conversation.id = id with
  | none => .error (.error "会话不存在。")
  | some row => .ok row.conversation

/-- `messages`. -/
def messagesAfter (id : String) (after : ℕ) : List ConversationMessage :=
  s.messages.filter fun m => m.conversationId = id && after < m.sequence

/-- The message of an identifier. -/
def message? (id : String) : Option ConversationMessage := s.messages.find? fun m => m.id = id

/-- The batch of an agent that is not done. -/
def active (agentId : ℕ) : Option ConversationBatch :=
  s.batches.find? fun b => b.agentId = agentId && b.status ≠ .done

/-- The batch of an identifier. -/
def batch? (id : String) : Option ConversationBatch := s.batches.find? fun b => b.id = id

/-- Whether an agent was dismissed. -/
def isDismissed (agentId : ℕ) : Bool := agentId ∈ s.dismissed

/-- A member that is an agent, and is dismissed. -/
def isDismissedAgent : ConversationMember → Bool
  | .user _ => false
  | .agent id => s.isDismissed id

/-! ## Conversations -/

/-- `conversationSchema.parse`. -/
def validateConversation (conversation : RuntimeConversation) : Except StoreError Unit := do
  require (conversation.ownerId ≠ "" ∧ conversation.workspaceId ≠ "") .schema
  require (lengthOf conversation.title ≤ 100) .schema
  require (2 ≤ conversation.members.length ∧ conversation.members.length ≤ 32) .schema
  conversation.members.forM fun member =>
    match member with
    | .user id => require (id ≠ "") .schema
    | .agent id => require (isPositiveInteger id = true) .schema

/-- The identity of a direct conversation. -/
def directKey (conversation : RuntimeConversation) : Option String :=
  if conversation.kind = .direct then
    some (String.ofList (stringify (.array [.string conversation.ownerId,
      .string conversation.workspaceId,
      .strings ((conversation.members.map memberKey).mergeSort (· ≤ ·))])))
  else none

/-- Creates a conversation. A direct one that is there already is returned. -/
def create (input : CreateConversation) (host : Host) :
    Except StoreError (RuntimeConversation × ConversationStore) := do
  let conversation : RuntimeConversation := {
    id := host.id
    ownerId := input.ownerId
    workspaceId := input.workspaceId
    kind := input.kind
    title := input.title
    members := input.members
    participation := input.participation
    createdAt := host.now }
  validateConversation conversation
  require ((conversation.members.map memberKey).Nodup ∧
      (conversation.kind = .direct → conversation.members.length = 2))
    (.error "成员重复或私聊成员数量无效。")
  let key := directKey conversation
  match s.conversations.find? fun row => key.isSome && row.directKey = key with
  | some row =>
    let conversation ← s.get row.conversation.id
    pure (conversation, s)
  | none =>
    require (host.id ∉ s.conversations.map fun row => row.conversation.id)
      (.constraint "chat_conversations.id")
    pure (conversation,
      { s with
        conversations := s.conversations ++ [⟨conversation, key⟩]
        mailboxes := s.mailboxes ++ newMailboxes conversation })

/-! ## Sending -/

/-- Whether a message is to an agent: it names the agent, or replies to it. -/
def addresses (mentions : List ℕ) (reply : Option ConversationMessage) (agentId : ℕ) : Bool :=
  agentId ∈ mentions || reply.any fun reply => reply.sender = .agent agentId

/-- How long the agent waits for more. -/
def quietFor (policy : ConversationPolicy) (conversation : RuntimeConversation)
    (addressed : Bool) : ℕ :=
  if conversation.kind = .direct ∨ addressed = true then policy.quietMs else policy.groupQuietMs

/-- The mailboxes when a message has been sent. The loop passes over the members whom the message does
not wake. -/
def receive (policy : ConversationPolicy) (conversation : RuntimeConversation)
    (message : ConversationMessage) (reply : Option ConversationMessage) :
    List MailboxRow → List ConversationMember → List MailboxRow
  | rows, [] => rows
  | rows, .user _ :: members => receive policy conversation message reply rows members
  | rows, .agent id :: members =>
    let addressed := addresses message.mentions reply id
    if s.isDismissed id ∨ memberKey (.agent id) = memberKey message.sender then
      receive policy conversation message reply rows members
    else if conversation.kind = .group ∧ conversation.participation = .mentioned ∧
        addressed = false then
      receive policy conversation message reply rows members
    else
      receive policy conversation message reply
        (updateMailbox id conversation.id
          (fun row => row.receive policy addressed (quietFor policy conversation addressed)
            message.createdAt) rows) members

/-- Registers a phase, unless it is known. -/
def withPhase (phaseId : String) (phases : List PhaseRow) : List PhaseRow :=
  if phaseId ∈ phases.map PhaseRow.id then phases else phases ++ [{ id := phaseId }]

/-- The budgets when a message has been counted in a phase. Only messages of agents count. -/
def countMessage (policy : ConversationPolicy) (phaseId : String) (phases : List PhaseRow) :
    ConversationMember → Except StoreError (List PhaseRow)
  | .user _ => pure (withPhase phaseId phases)
  | .agent _ => do
    require (∃ row ∈ withPhase phaseId phases,
        row.id = phaseId ∧ row.sent < policy.maxAutomaticMessages)
      (.fault .loop "本次交流的自动发言预算已用完，等待用户推进。" false)
    pure ((withPhase phaseId phases).map fun row =>
      if row.id = phaseId ∧ row.sent < policy.maxAutomaticMessages then
        { row with sent := row.sent + 1 }
      else row)

/-- The phase of a message: a new one, or the one that the host has given an agent. -/
def phaseOf (phase : Option String) (host : Host) : ConversationMember → Except StoreError String
  | .user _ => pure host.phaseId
  | .agent _ =>
    match truthy phase with
    | none => .error (.error "Agent 发言缺少宿主交流预算。")
    | some phaseId => pure phaseId

/-- The transaction of `send`, for a message that was not sent before. -/
def store (policy : ConversationPolicy) (conversation : RuntimeConversation)
    (sender : ConversationMember) (input : SendConversationMessage) (mentions : List ℕ)
    (reply : Option ConversationMessage) (key fingerprint : String) (phase : Option String)
    (maxDeliveryBytes : Option ℕ) (host : Host) :
    Except StoreError (ConversationMessage × ConversationStore) := do
  let phaseId ← phaseOf phase host sender
  let phases ← countMessage policy phaseId s.phases sender
  require (host.id ∉ s.messages.map ConversationMessage.id) (.constraint "chat_messages.id")
  let message : ConversationMessage := {
    id := host.id
    sequence := s.lastSequence + 1
    conversationId := conversation.id
    sender
    content := input.content
    createdAt := host.now
    replyTo := input.replyTo
    mentions
    phaseId }
  require (∀ limit ∈ maxDeliveryBytes, byteLength (stringify message.written) + 1200 ≤ limit)
    (.fault .protocol "消息超过接收成员的上下文投递容量，请缩短正文。" true)
  pure (message,
    { s with
      messages := s.messages ++ [message]
      lastSequence := s.lastSequence + 1
      outbox := s.outbox ++ [⟨key, fingerprint, message.id⟩]
      mailboxes := s.receive policy conversation message reply s.mailboxes conversation.members
      phases })

/-- What a message is, when it is sent again under the same key. -/
def fingerprint (conversationId : String) (input : SendConversationMessage) (mentions : List ℕ) :
    String :=
  String.ofList (stringify (.array [.string conversationId, .string input.content,
    .ofString? input.replyTo, .array (mentions.map .ofNat)]))

/-- `send`, where `sha256` is the digest of the key. No limit stands for `Infinity`. -/
def send (policy : ConversationPolicy) (sha256 : String → String) (conversationId : String)
    (sender : ConversationMember) (input : SendConversationMessage) (phase : Option String)
    (maxDeliveryBytes : Option ℕ) (host : Host) :
    Except StoreError (ConversationMessage × ConversationStore) := do
  let conversation ← s.get conversationId
  require (s.isDismissedAgent sender = false)
    (.fault .permission "Agent 已解雇。" false)
  require (conversation.kind = .direct →
      ∀ member ∈ conversation.members, s.isDismissedAgent member = false)
    (.fault .permission "Agent 已解雇，私聊仅保留历史。" false)
  require (isMember conversation sender = true) (.fault .permission "发送者不是会话成员。" false)
  require (isBlank input.content = false ∧ byteLength input.content.toList ≤ 12000 ∧
      isBlank input.idempotencyKey = false ∧ lengthOf input.idempotencyKey ≤ 300)
    (.fault .protocol "消息内容或幂等键无效；正文最多 12000 字节。" true)
  let mentions := input.mentions.dedup.mergeSort (· ≤ ·)
  require (∀ id ∈ mentions, s.isDismissed id = false ∧ isMember conversation (.agent id) = true)
    (.fault .permission "只能点名本会话的 Agent。" false)
  let reply := (truthy input.replyTo).bind s.message?
  require ((truthy input.replyTo).isSome = true →
      reply.map ConversationMessage.conversationId = some conversationId)
    (.fault .permission "回复引用不属于当前会话。" false)
  let key := sha256 (String.ofList (stringify (.array [.string conversation.ownerId,
    .string (memberKey sender), .string input.idempotencyKey])))
  let fingerprint := fingerprint conversationId input mentions
  match s.outbox.find? fun row => row.id = key with
  | some existing =>
    require (existing.fingerprint = fingerprint) (.error "幂等键已用于不同消息。")
    match s.message? existing.messageId with
    | some message => pure (message, s)
    | none => .error .schema
  | none =>
    s.store policy conversation sender input mentions reply key fingerprint phase maxDeliveryBytes host

/-! ## Batches -/

/-- The loop that fills a batch, with the bytes and the number of the messages that it has. -/
def select (maxBytes : ℕ) : ℕ → ℕ → List ConversationMessage → List ConversationMessage
  | _, _, [] => []
  | bytes, count, message :: incoming =>
    let size := message.size + 400
    if maxBytes < bytes + size ∨ 16 ≤ count then []
    else message :: select maxBytes (bytes + size) (count + 1) incoming

/-- `seal`, for a mailbox that is due. -/
def sealRow (row : MailboxRow) (agentId maxBytes : ℕ) (host : Host) :
    Except StoreError (ConversationBatch × ConversationStore) := do
  let incoming := s.messagesAfter row.conversationId row.processed
  let selected := select maxBytes 800 0 incoming
  match selected.getLast? with
  | none => .error (.error "会话输入超过当前上下文投递上限。")
  | some last =>
    let batch : ConversationBatch := {
      id := "chat:" ++ host.id
      agentId
      conversationId := row.conversationId
      upper := last.sequence
      phaseId := last.phaseId
      messages := selected
      status := .queued }
    require (batch.id ∉ s.batches.map ConversationBatch.id) (.constraint "chat_batches.id")
    pure (batch,
      { s with
        batches := s.batches ++ [batch]
        mailboxes := updateMailbox agentId row.conversationId MailboxRow.cleared s.mailboxes })

/-- `seal`, which is a word of Lean. -/
def sealBatch (agentId maxBytes : ℕ) (host : Host) :
    Except StoreError (Option ConversationBatch × ConversationStore) :=
  if s.isDismissed agentId then .ok (none, s)
  else
    match s.active agentId with
    | some batch => .ok (some batch, s)
    | none =>
      let due := s.mailboxes.filter fun row =>
        row.agentId = agentId && row.dueAt.any fun dueAt => dueAt ≤ host.now
      match (due.mergeSort sealedBefore).head? with
      | none => .ok (none, s)
      | some row => do
        let (batch, s') ← s.sealRow row agentId maxBytes host
        pure (some batch, s')

/-- Stores a batch again. -/
def saveBatch (batch : ConversationBatch) : ConversationStore :=
  { s with batches := s.batches.map fun b => if b.id = batch.id then batch else b }

/-- Notes that a batch was delivered. -/
def delivered (id : String) : ConversationStore :=
  match s.batch? id with
  | none => s
  | some batch => if batch.status = .queued then s.saveBatch { batch with status := .delivered } else s

/-- The messages for which an agent is woken after a batch. The message that another one replies to is
in the store. -/
def pendingFor (conversation : RuntimeConversation) (agentId : ℕ) (message : ConversationMessage) :
    Bool :=
  if memberKey message.sender = "agent:" ++ toString agentId then false
  else
    conversation.kind = .direct || conversation.participation = .all ||
      agentId ∈ message.mentions ||
      ((truthy message.replyTo).bind s.message?).any fun reply =>
        memberKey reply.sender = "agent:" ++ toString agentId

/-- A batch is done, and the mailbox goes on behind it. -/
def acknowledge (id : String) (now : Timestamp) : Except StoreError ConversationStore :=
  match s.batch? id with
  | none => .ok s
  | some batch =>
    if batch.status = .done then .ok s
    else do
      let s := s.saveBatch { batch with status := .done }
      let s := { s with
        mailboxes := updateMailbox batch.agentId batch.conversationId
          (fun row => row.advance batch.upper) s.mailboxes }
      let conversation ← s.get batch.conversationId
      let pending := (s.messagesAfter batch.conversationId batch.upper).filter
        (s.pendingFor conversation batch.agentId)
      match pending with
      | [] => pure s
      | first :: _ =>
        pure { s with
          mailboxes := updateMailbox batch.agentId batch.conversationId
            (fun row => row.restore first.createdAt now) s.mailboxes }

/-- Closes the batch that is on its way to an agent. The cursor stays where it is. -/
def closeBatch (agentId : ℕ) : ConversationStore :=
  match s.active agentId with
  | none => s
  | some batch => s.saveBatch { batch with status := .done }

/-- An agent gets no further batches. -/
def dismiss (agentId : ℕ) : ConversationStore :=
  { s.closeBatch agentId with
    dismissed := if agentId ∈ s.dismissed then s.dismissed else s.dismissed ++ [agentId]
    mailboxes := s.mailboxes.map fun row => if row.agentId = agentId then row.cleared else row }

end ConversationStore

end OsAgent.Conversations
