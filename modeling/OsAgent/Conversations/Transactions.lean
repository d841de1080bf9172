import OsAgent.Conversations.Outcomes
import OsAgent.Library.Program

/-!
# The transaction of `send`

`send` writes to the database statement by statement, and a check may fail after some of them: the budget
is counted before the size of the message is known. `sendStatements` are the statements as they are
executed, and `transaction` takes back what they have written when one throws. What comes of it is `send`
as the store has it (`transaction_sendStatements`).
-/

namespace OsAgent.Conversations

open OsAgent.Library

/-- A statement on the database. -/
abbrev Statement (α : Type) := EStateM StoreError ConversationStore α

namespace ConversationStore

/-- `UPDATE chat_phases SET sent=sent+1`, which must change a row. -/
def countStatement (policy : ConversationPolicy) (phaseId : String) : Statement Unit := do
  let s ← MonadState.get
  modify fun s => { s with
    phases := s.phases.map fun row =>
      if row.id = phaseId ∧ row.sent < policy.maxAutomaticMessages then
        { row with sent := row.sent + 1 }
      else row }
  liftM (require (∃ row ∈ s.phases, row.id = phaseId ∧ row.sent < policy.maxAutomaticMessages)
    (StoreError.fault .loop "本次交流的自动发言预算已用完，等待用户推进。" false))

/-- Only messages of agents are counted. -/
def countIfAgent (policy : ConversationPolicy) (phaseId : String) :
    ConversationMember → Statement Unit
  | .user _ => pure ()
  | .agent _ => countStatement policy phaseId

/-- A pass of the loop over the members. -/
def receiveStatement (policy : ConversationPolicy) (conversation : RuntimeConversation)
    (message : ConversationMessage) (reply : Option ConversationMessage) :
    ConversationMember → Statement Unit
  | .user _ => pure ()
  | .agent id => do
    let s ← MonadState.get
    let addressed := addresses message.mentions reply id
    if s.isDismissed id ∨ memberKey (.agent id) = memberKey message.sender then pure ()
    else if conversation.kind = .group ∧ conversation.participation = .mentioned ∧
        addressed = false then pure ()
    else
      modify fun s => { s with
        mailboxes := updateMailbox id conversation.id
          (fun row => row.receive policy addressed (quietFor policy conversation addressed)
            message.createdAt) s.mailboxes }

/-- The statements for a message that was not sent before. Its row is inserted without a body, which takes
a sequence, and the body follows when its size is known. Nothing reads the row in between. -/
def storeStatements (policy : ConversationPolicy) (conversation : RuntimeConversation)
    (sender : ConversationMember) (input : SendConversationMessage) (mentions : List ℕ)
    (reply : Option ConversationMessage) (key fingerprint : String) (phase : Option String)
    (maxDeliveryBytes : Option ℕ) (host : Host) : Statement ConversationMessage := do
  let phaseId ← liftM (phaseOf phase host sender)
  modify fun s => { s with phases := withPhase phaseId s.phases }
  countIfAgent policy phaseId sender
  let s ← MonadState.get
  liftM (require (host.id ∉ s.messages.map ConversationMessage.id) (StoreError.constraint "chat_messages.id"))
  modify fun s => { s with lastSequence := s.lastSequence + 1 }
  let message : ConversationMessage := {
    id := host.id
    sequence := s.lastSequence + 1
    conversationId := conversation.id
    sender
    content := input.content
    createdAt := host.now
    replyTo := input.replyTo
    mentions
    phaseId }
  liftM (require (∀ limit ∈ maxDeliveryBytes, byteLength (stringify message.written) + 1200 ≤ limit)
    (StoreError.fault .protocol "消息超过接收成员的上下文投递容量，请缩短正文。" true))
  modify fun s => { s with messages := s.messages ++ [message] }
  modify fun s => { s with outbox := s.outbox ++ [⟨key, fingerprint, message.id⟩] }
  conversation.members.forM (receiveStatement policy conversation message reply)
  pure message

/-- What the transaction of `send` executes. -/
def sendStatements (policy : ConversationPolicy) (conversation : RuntimeConversation)
    (sender : ConversationMember) (input : SendConversationMessage) (mentions : List ℕ)
    (reply : Option ConversationMessage) (key fingerprint : String) (phase : Option String)
    (maxDeliveryBytes : Option ℕ) (host : Host) : Statement ConversationMessage := do
  let s ← MonadState.get
  match s.outbox.find? fun row => row.id = key with
  | some existing =>
    liftM (require (existing.fingerprint = fingerprint) (StoreError.error "幂等键已用于不同消息。"))
    match s.message? existing.messageId with
    | some message => pure message
    | none => throw .schema
  | none =>
    storeStatements policy conversation sender input mentions reply key fingerprint phase
      maxDeliveryBytes host

/-- What `send` checks before the transaction. -/
def checkSend (s : ConversationStore) (conversationId : String) (sender : ConversationMember)
    (input : SendConversationMessage) :
    Except StoreError (RuntimeConversation × Option ConversationMessage) := do
  let conversation ← s.get conversationId
  require (s.isDismissedAgent sender = false)
    (.fault .permission "Agent 已解雇。" false)
  require (conversation.kind = .direct →
      ∀ member ∈ conversation.members, s.isDismissedAgent member = false)
    (.fault .permission "Agent 已解雇，私聊仅保留历史。" false)
  require (isMember conversation sender = true) (.fault .permission "发送者不是会话成员。" false)
  require (isBlank input.content = false ∧ byteLength input.content.toList ≤ 12000 ∧
      isBlank input.idempotencyKey = false ∧ lengthOf input.idempotencyKey ≤ 300)
    (.fault .protocol "消息内容或幂等键无效；正文最多 12000 字节。" true)
  require (∀ id ∈ input.mentions.dedup.mergeSort (· ≤ ·),
      s.isDismissed id = false ∧ isMember conversation (.agent id) = true)
    (.fault .permission "只能点名本会话的 Agent。" false)
  let reply := (truthy input.replyTo).bind s.message?
  require ((truthy input.replyTo).isSome = true →
      reply.map ConversationMessage.conversationId = some conversationId)
    (.fault .permission "回复引用不属于当前会话。" false)
  pure (conversation, reply)

/-- The key under which a message is in the outbox. -/
def outboxKey (sha256 : String → String) (conversation : RuntimeConversation)
    (sender : ConversationMember) (input : SendConversationMessage) : String :=
  sha256 (String.ofList (stringify (.array [.string conversation.ownerId,
    .string (memberKey sender), .string input.idempotencyKey])))

/-- `send` as it runs on the database. -/
def sendMessage (policy : ConversationPolicy) (sha256 : String → String) (conversationId : String)
    (sender : ConversationMember) (input : SendConversationMessage) (phase : Option String)
    (maxDeliveryBytes : Option ℕ) (host : Host) : Statement ConversationMessage := do
  let s ← MonadState.get
  let (conversation, reply) ← liftM (s.checkSend conversationId sender input)
  let mentions := input.mentions.dedup.mergeSort (· ≤ ·)
  transaction (sendStatements policy conversation sender input mentions reply
    (outboxKey sha256 conversation sender input) (fingerprint conversationId input mentions) phase
    maxDeliveryBytes host)

section Transaction

variable {s s' : ConversationStore} {policy : ConversationPolicy} {sha256 : String → String}
  {conversation : RuntimeConversation} {sender : ConversationMember}
  {input : SendConversationMessage} {mentions : List ℕ} {reply : Option ConversationMessage}
  {conversationId key print : String} {phase : Option String} {maxDeliveryBytes : Option ℕ}
  {host : Host}

/-- The loop over the members changes their mailboxes. -/
theorem wp_receive (message : ConversationMessage) (members : List ConversationMember) :
    wp (members.forM (receiveStatement policy conversation message reply))
      (fun _ s' => s' = { s with
        mailboxes := s.receive policy conversation message reply s.mailboxes members })
      (fun _ _ => False) s := by
  generalize htarget : s.receive policy conversation message reply s.mailboxes members = target
  -- What is still to be done with the mailboxes comes to the same.
  have hloop := wp_forM (E := fun _ _ => False)
    (f := receiveStatement policy conversation message reply)
    (I := fun rest (t : ConversationStore) => t = { s with mailboxes := t.mailboxes } ∧
      s.receive policy conversation message reply t.mailboxes rest = target)
    (l := members) (s := s) (by
      rintro member rest t ⟨hsame, hrest⟩
      cases member with
      | user id =>
        exact ⟨hsame, hrest⟩
      | agent id =>
        have hdismissed : t.isDismissed id = s.isDismissed id := by
          rw [hsame]
          rfl
        unfold receiveStatement
        rw [wp_bind, wp_get]
        dsimp only
        rw [wp_ite, wp_ite, hdismissed]
        unfold receive at hrest
        dsimp only at hrest
        split_ifs at hrest ⊢
        · exact ⟨hsame, hrest⟩
        · exact ⟨hsame, hrest⟩
        · rw [wp_modify]
          refine ⟨?_, hrest⟩
          rw [hsame]) ⟨rfl, htarget⟩
  apply wp_mono hloop
  · rintro _ t ⟨hsame, hrest⟩
    rw [← hrest]
    exact hsame
  · exact fun _ _ h => h

/-- The mailboxes depend on who is dismissed, and on nothing else in the store. -/
theorem receive_congr (s' : ConversationStore) (h : s.dismissed = s'.dismissed) (message : ConversationMessage)
    (rows : List MailboxRow) (members : List ConversationMember) :
    s.receive policy conversation message reply rows members =
      s'.receive policy conversation message reply rows members := by
  have hdismissed : ∀ id, s.isDismissed id = s'.isDismissed id := by
    intro id
    unfold isDismissed
    rw [h]
  induction members generalizing rows with
  | nil => rfl
  | cons member members ih =>
    cases member with
    | user id => exact ih rows
    | agent id =>
      unfold receive
      dsimp only
      rw [hdismissed, ih, ih]

/-- Counting a message comes to the budgets that the store says. -/
theorem commits_count {phaseId : String} {phases : List PhaseRow}
    (hphases : s.phases = withPhase phaseId phases) :
    Commits (countIfAgent policy phaseId sender)
      ((countMessage policy phaseId phases sender).map fun counted =>
        (⟨⟩, { s with phases := counted })) s := by
  cases sender with
  | user id =>
    unfold countMessage
    rw [← hphases]
    rfl
  | agent id =>
    unfold countIfAgent countStatement countMessage
    apply commits_get_bind
    apply commits_modify_bind
    rw [hphases]
    unfold Commits
    rw [wp_lift]
    constructor
    · intro u hu
      rw [hu]
      rfl
    · intro e he
      rw [he]
      rfl

/-- The statements for a message that was not sent before come to what the store says. -/
theorem commits_storeStatements :
    Commits
      (storeStatements policy conversation sender input mentions reply key print phase
        maxDeliveryBytes host)
      (s.store policy conversation sender input mentions reply key print phase maxDeliveryBytes host)
      s := by
  unfold storeStatements store
  apply commits_lift_bind
  intro phaseId _
  apply commits_modify_bind
  apply commits_bind (commits_count rfl)
  intro counted _
  apply commits_get_bind
  apply commits_lift_bind
  intro _ _
  apply commits_modify_bind
  apply commits_lift_bind
  intro _ _
  apply commits_modify_bind
  apply commits_modify_bind
  unfold Commits
  apply wp_bind_of (wp_receive _ conversation.members)
  · intro _ t ht
    rw [receive_congr s] at ht
    · rw [wp_pure, ht]
      rfl
    · rfl
  · exact fun _ _ h => h.elim

/-- The statements of a send commit what the method does. -/
theorem commits_sendStatements :
    Commits
      (sendStatements policy conversation sender input mentions reply key print phase
        maxDeliveryBytes host)
      (match s.outbox.find? fun row => row.id = key with
      | some existing => do
        require (existing.fingerprint = print) (.error "幂等键已用于不同消息。")
        match s.message? existing.messageId with
        | some message => pure (message, s)
        | none => .error .schema
      | none =>
        s.store policy conversation sender input mentions reply key print phase maxDeliveryBytes host)
      s := by
  unfold sendStatements
  apply commits_get_bind
  cases s.outbox.find? fun row => row.id = key with
  | some existing =>
    apply commits_lift_bind
    intro _ _
    cases s.message? existing.messageId with
    | some message => rfl
    | none => rfl
  | none => exact commits_storeStatements

/-- `send` checks, and then looks into the outbox. -/
theorem send_eq :
    s.send policy sha256 conversationId sender input phase maxDeliveryBytes host = (do
      let (conversation, reply) ← s.checkSend conversationId sender input
      match s.outbox.find? fun row => row.id = outboxKey sha256 conversation sender input with
      | some existing => do
        require (existing.fingerprint =
            fingerprint conversationId input (input.mentions.dedup.mergeSort (· ≤ ·)))
          (.error "幂等键已用于不同消息。")
        match s.message? existing.messageId with
        | some message => pure (message, s)
        | none => .error .schema
      | none =>
        s.store policy conversation sender input (input.mentions.dedup.mergeSort (· ≤ ·)) reply
          (outboxKey sha256 conversation sender input)
          (fingerprint conversationId input (input.mentions.dedup.mergeSort (· ≤ ·))) phase
          maxDeliveryBytes host) := by
  unfold send checkSend
  simp only [bind_assoc, pure_bind]
  rfl

variable (policy sha256 conversationId sender input phase maxDeliveryBytes host) in
/-- Run on the database, `send` comes to what the store says, and a `send` that throws leaves nothing
behind. -/
theorem wp_sendMessage :
    wp (sendMessage policy sha256 conversationId sender input phase maxDeliveryBytes host)
      (fun message s' => s.send policy sha256 conversationId sender input phase maxDeliveryBytes host =
        .ok (message, s'))
      (fun e s' => s.send policy sha256 conversationId sender input phase maxDeliveryBytes host =
        .error e ∧ s' = s) s := by
  unfold sendMessage
  rw [wp_bind, wp_get, wp_bind, wp_lift, send_eq]
  constructor
  · rintro ⟨conversation, reply⟩ hcheck
    rw [hcheck]
    exact wp_transaction commits_sendStatements
  · intro e hcheck
    rw [hcheck]
    exact ⟨rfl, rfl⟩

/-- A message that is sent in a transaction is sent by the method. -/
theorem send_of_sendMessage {message : ConversationMessage}
    (h : sendMessage policy sha256 conversationId sender input phase maxDeliveryBytes host s =
      .ok message s') :
    s.send policy sha256 conversationId sender input phase maxDeliveryBytes host =
      .ok (message, s') := by
  have hok := wp_ok
    (wp_sendMessage policy sha256 sender input conversationId phase maxDeliveryBytes host) h
  exact hok

end Transaction

end ConversationStore

end OsAgent.Conversations
