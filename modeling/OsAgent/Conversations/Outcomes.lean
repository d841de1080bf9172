import OsAgent.Conversations.Mailboxes
import OsAgent.Library.Keyed

/-!
# What a method does to the conversation store

Every method that returns has one of the outcomes of `Outcome`, or has stored a message (`Sent`). A message is looked at twice: `send` makes
the mailboxes due of the agents that it wakes, and `acknowledge` asks whether it wakes the agent whose
batch is done. The two say the same in different words (`pendingFor_eq`).
-/

namespace OsAgent.Conversations

open OsAgent.Library

variable {s s' : ConversationStore} {policy : ConversationPolicy}
  {conversation : RuntimeConversation} {message : ConversationMessage}

/-! ## Members -/

/-- The key of a member says who it is. -/
theorem memberKey_injective {a b : ConversationMember} (h : memberKey a = memberKey b) : a = b := by
  have hlists := congrArg String.toList h
  cases a with
  | user id =>
    cases b with
    | user id' =>
      have hid : id.toList = id'.toList := by simpa [memberKey] using hlists
      rw [String.toList_inj.mp hid]
    | agent id' => simp [memberKey] at hlists
  | agent id =>
    cases b with
    | user id' => simp [memberKey] at hlists
    | agent id' =>
      have hid : toString id = toString id' := by
        apply String.toList_inj.mp
        simpa [memberKey] using hlists
      rw [toString_inj hid]

/-- Members have the same key exactly if they are the same. -/
theorem memberKey_eq_iff {a b : ConversationMember} : memberKey a = memberKey b ↔ a = b :=
  ⟨memberKey_injective, fun h => h ▸ rfl⟩

/-! ## Which messages wake an agent -/

/-- A message wakes an agent that has not sent it, if the conversation is direct, or all of it is for
every member, or the message is to the agent. -/
def wakes (conversation : RuntimeConversation) (message : ConversationMessage)
    (reply : Option ConversationMessage) (agentId : ℕ) : Bool :=
  message.sender ≠ .agent agentId &&
    (conversation.kind = .direct || conversation.participation = .all ||
      ConversationStore.addresses message.mentions reply agentId)

/-- A mailbox that a message has made due. -/
def MailboxRow.received (row : MailboxRow) (policy : ConversationPolicy)
    (conversation : RuntimeConversation) (message : ConversationMessage)
    (reply : Option ConversationMessage) : MailboxRow :=
  row.receive policy (ConversationStore.addresses message.mentions reply row.agentId)
    (ConversationStore.quietFor policy conversation
      (ConversationStore.addresses message.mentions reply row.agentId)) message.createdAt

namespace ConversationStore

/-- The message that a message replies to. -/
def replyOf (s : ConversationStore) (message : ConversationMessage) : Option ConversationMessage :=
  (truthy message.replyTo).bind s.message?

/-- What `acknowledge` asks of a message. -/
theorem pendingFor_eq (agentId : ℕ) : s.pendingFor conversation agentId message =
    wakes conversation message (s.replyOf message) agentId := by
  have hkey : ∀ member, memberKey member = "agent:" ++ toString agentId ↔ member = .agent agentId :=
    fun member => memberKey_eq_iff (b := .agent agentId)
  unfold pendingFor wakes addresses replyOf
  simp only [hkey]
  by_cases hsender : message.sender = .agent agentId
  · rw [if_pos hsender]
    simp [hsender]
  · rw [if_neg hsender]
    simp [hsender, Bool.or_assoc]

/-- Whether a message makes the mailbox of one of these members due. -/
def wakesRow (s : ConversationStore) (conversation : RuntimeConversation)
    (message : ConversationMessage) (reply : Option ConversationMessage)
    (members : List ConversationMember) (row : MailboxRow) : Bool :=
  row.conversationId = conversation.id && decide (.agent row.agentId ∈ members) &&
    !s.isDismissed row.agentId && wakes conversation message reply row.agentId

/-- What `send` does to the mailboxes. -/
theorem receive_eq (policy : ConversationPolicy) (conversation : RuntimeConversation)
    (message : ConversationMessage) (reply : Option ConversationMessage) (rows : List MailboxRow)
    {members : List ConversationMember} (hmembers : members.Nodup) :
    s.receive policy conversation message reply rows members = rows.map fun row =>
      if s.wakesRow conversation message reply members row = true then
        row.received policy conversation message reply
      else row := by
  induction members generalizing rows with
  | nil =>
    unfold receive wakesRow
    simp
  | cons member members ih =>
    obtain ⟨hmember, hrest⟩ := List.nodup_cons.mp hmembers
    cases member with
    | user id =>
      unfold receive
      rw [ih _ hrest]
      unfold wakesRow
      simp
    | agent id =>
      -- The agent is woken if the loop does not pass over it.
      have hwakes : wakes conversation message reply id = true ↔
          ¬ memberKey (.agent id) = memberKey message.sender ∧
            ¬ (conversation.kind = .group ∧ conversation.participation = .mentioned ∧
              addresses message.mentions reply id = false) := by
        unfold wakes
        rw [memberKey_eq_iff, eq_comm (a := ConversationMember.agent id)]
        cases conversation.kind <;> cases conversation.participation <;>
          cases addresses message.mentions reply id <;> simp
      have hstep : s.receive policy conversation message reply rows (.agent id :: members) =
          s.receive policy conversation message reply
            (if s.isDismissed id = false ∧ wakes conversation message reply id = true then
              updateMailbox id conversation.id
                (fun row => row.receive policy (addresses message.mentions reply id)
                  (quietFor policy conversation (addresses message.mentions reply id))
                  message.createdAt) rows
            else rows) members := by
        simp only [hwakes]
        conv_lhs => unfold receive
        dsimp only
        split_ifs <;> simp_all
      rw [hstep, ih _ hrest]
      have hother : ∀ row : MailboxRow, row.agentId ≠ id →
          s.wakesRow conversation message reply (.agent id :: members) row =
            s.wakesRow conversation message reply members row := by
        intro row hne
        unfold wakesRow
        simp [hne]
      have hold : ∀ row : MailboxRow, row.agentId = id →
          ¬ s.wakesRow conversation message reply members row = true := by
        rintro row rfl
        unfold wakesRow
        simp [hmember]
      have hnew : ∀ row : MailboxRow, row.agentId = id →
          (s.wakesRow conversation message reply (.agent id :: members) row = true ↔
            row.conversationId = conversation.id ∧
              s.isDismissed id = false ∧ wakes conversation message reply id = true) := by
        rintro row rfl
        unfold wakesRow
        simp [and_assoc]
      split_ifs with hwoken
      · unfold updateMailbox
        rw [List.map_map]
        apply List.map_congr_left
        intro row _
        rw [Function.comp_apply]
        by_cases hrow : row.agentId = id ∧ row.conversationId = conversation.id
        · rw [if_pos hrow, if_neg (hold (row.receive _ _ _ _) hrow.1),
            if_pos ((hnew row hrow.1).mpr ⟨hrow.2, hwoken⟩)]
          obtain ⟨rfl, -⟩ := hrow
          rfl
        · rw [if_neg hrow]
          rcases eq_or_ne row.agentId id with hagent | hagent
          · rw [if_neg (hold row hagent), if_neg]
            exact fun hall => hrow ⟨hagent, ((hnew row hagent).mp hall).1⟩
          · rw [hother row hagent]
      · apply List.map_congr_left
        intro row _
        rcases eq_or_ne row.agentId id with hagent | hagent
        · rw [if_neg (hold row hagent), if_neg]
          exact fun hall => hwoken ((hnew row hagent).mp hall).2
        · rw [hother row hagent]

end ConversationStore

/-! ## Outcomes -/

/-- A message that has been sent: what is known of it, and the store afterwards. -/
structure Sent (policy : ConversationPolicy) (sender : ConversationMember) (phase : Option String)
    (maxDeliveryBytes : Option ℕ) (host : Host) (s s' : ConversationStore)
    (message : ConversationMessage) : Prop where
  author : message.sender = sender
  active : s.isDismissedAgent sender = false
  id : message.id = host.id
  fresh : message.id ∉ s.messages.map ConversationMessage.id
  sequence : message.sequence = s.lastSequence + 1
  phaseId : ConversationStore.phaseOf phase host sender = .ok message.phaseId
  reply : ∀ replyTo, truthy message.replyTo = some replyTo → (s.message? replyTo).isSome = true
  fits : ∀ limit ∈ maxDeliveryBytes, byteLength (stringify message.written) + 1200 ≤ limit
  stored : ∃ row ∈ s.conversations, ∃ outbox phases,
    row.conversation.id = message.conversationId ∧ isMember row.conversation sender = true ∧
      ConversationStore.countMessage policy message.phaseId s.phases sender = .ok phases ∧
      s' = { s with
        messages := s.messages ++ [message]
        lastSequence := s.lastSequence + 1
        outbox
        mailboxes := s.receive policy row.conversation message (s.replyOf message) s.mailboxes
          row.conversation.members
        phases }

/-- The batch of a mailbox. -/
def MailboxRow.batch (row : MailboxRow) (id : String) (selected : List ConversationMessage)
    (last : ConversationMessage) : ConversationBatch where
  id
  agentId := row.agentId
  conversationId := row.conversationId
  upper := last.sequence
  phaseId := last.phaseId
  messages := selected
  status := .queued

namespace ConversationStore

/-- What a method that returns may do to the store, if it does not store a message. -/
inductive Outcome (s : ConversationStore) : ConversationStore → Prop
  | same : Outcome s s
  | created (row : ConversationRow)
      (hfresh : row.conversation.id ∉ s.conversations.map fun row => row.conversation.id)
      (hmembers : row.conversation.members.Nodup) :
      Outcome s
        { s with
          conversations := s.conversations ++ [row]
          mailboxes := s.mailboxes ++ newMailboxes row.conversation }
  /-- The first messages after the cursor are in a batch. -/
  | batched {row : MailboxRow} {selected rest : List ConversationMessage}
      {last : ConversationMessage} (id : String) (hrow : row ∈ s.mailboxes)
      (hactive : s.isDismissed row.agentId = false) (hnone : s.active row.agentId = none)
      (hselected : s.messagesAfter row.conversationId row.processed = selected ++ rest)
      (hlast : selected.getLast? = some last)
      (hfresh : id ∉ s.batches.map ConversationBatch.id) :
      Outcome s
        { s with
          batches := s.batches ++ [row.batch id selected last]
          mailboxes :=
            updateMailbox row.agentId row.conversationId MailboxRow.cleared s.mailboxes }
  | delivered {batch : ConversationBatch} (hbatch : batch ∈ s.batches)
      (hstatus : batch.status = .queued) :
      Outcome s (s.saveBatch { batch with status := .delivered })
  /-- A batch is done, and no message after it wakes the agent. -/
  | acknowledged {batch : ConversationBatch} {row : ConversationRow} (hbatch : batch ∈ s.batches)
      (hstatus : batch.status ≠ .done) (hrow : row ∈ s.conversations)
      (hconversation : row.conversation.id = batch.conversationId)
      (hnone : ∀ m ∈ s.messages, m.conversationId = batch.conversationId →
        batch.upper < m.sequence → s.pendingFor row.conversation batch.agentId m = false) :
      Outcome s
        { s.saveBatch { batch with status := .done } with
          mailboxes := updateMailbox batch.agentId batch.conversationId
            (fun row => row.advance batch.upper) s.mailboxes }
  /-- A batch is done, and its mailbox is due again. -/
  | restored {batch : ConversationBatch} {message : ConversationMessage}
      (now : Timestamp) (hbatch : batch ∈ s.batches) (hstatus : batch.status ≠ .done)
      (hmessage : message ∈ s.messages)
      (hconversation : message.conversationId = batch.conversationId)
      (hbeyond : batch.upper < message.sequence) :
      Outcome s
        { s.saveBatch { batch with status := .done } with
          mailboxes := updateMailbox batch.agentId batch.conversationId
            (fun row => (row.advance batch.upper).restore message.createdAt now) s.mailboxes }
  | dismissed (agentId : ℕ) : Outcome s (s.dismiss agentId)

/-- A conversation that is found is stored under its identifier. -/
theorem mem_of_get {id : String} (h : s.get id = .ok conversation) :
    ∃ row ∈ s.conversations, row.conversation = conversation ∧ conversation.id = id := by
  unfold get at h
  split at h
  · cases h
  · next row hrow =>
    cases h
    have hid := List.find?_some hrow
    rw [decide_eq_true_eq] at hid
    exact ⟨row, List.mem_of_find?_eq_some hrow, rfl, hid⟩

/-- A batch that is filled has the first messages. -/
theorem exists_select (maxBytes bytes count : ℕ) (incoming : List ConversationMessage) :
    ∃ rest, incoming = select maxBytes bytes count incoming ++ rest := by
  induction incoming generalizing bytes count with
  | nil => exact ⟨[], rfl⟩
  | cons message incoming ih =>
    unfold select
    dsimp only
    split_ifs with hfull
    · exact ⟨_, rfl⟩
    · obtain ⟨rest, hrest⟩ := ih (bytes + (message.size + 400)) (count + 1)
      refine ⟨rest, ?_⟩
      rw [List.cons_append, ← hrest]

/-- What comes of creating a conversation. -/
theorem outcome_create {input : CreateConversation} {host : Host}
    (h : s.create input host = .ok (conversation, s')) : Outcome s s' := by
  unfold create at h
  rw [check_bind_eq_ok, check_bind_eq_ok, require_eq_ok] at h
  obtain ⟨-, ⟨hkeys, -⟩, h⟩ := h
  dsimp only at h
  split at h
  · obtain ⟨existing, -, h⟩ := bind_eq_ok.mp h
    rw [pure_eq_ok] at h
    rw [← (Prod.mk.inj h).2]
    exact Outcome.same
  · rw [check_bind_eq_ok, require_eq_ok, pure_eq_ok] at h
    rw [← (Prod.mk.inj h.2).2]
    exact Outcome.created _ h.1 (List.Nodup.of_map memberKey hkeys)

/-- What `seal` returns: the batch that is on its way, or a new one, if a mailbox is due. -/
theorem sealBatch_cases {agentId maxBytes : ℕ} {host : Host} {result : Option ConversationBatch}
    (h : s.sealBatch agentId maxBytes host = .ok (result, s')) :
    (s' = s ∧ (result = none ∨ result = s.active agentId)) ∨
      ∃ row ∈ s.mailboxes, ∃ last, row.agentId = agentId ∧ s.isDismissed agentId = false ∧
        s.active agentId = none ∧
        (select maxBytes 800 0 (s.messagesAfter row.conversationId row.processed)).getLast? =
          some last ∧
        "chat:" ++ host.id ∉ s.batches.map ConversationBatch.id ∧
        result = some (row.batch ("chat:" ++ host.id)
          (select maxBytes 800 0 (s.messagesAfter row.conversationId row.processed)) last) ∧
        s' = { s with
          batches := s.batches ++ [row.batch ("chat:" ++ host.id)
            (select maxBytes 800 0 (s.messagesAfter row.conversationId row.processed)) last]
          mailboxes :=
            updateMailbox row.agentId row.conversationId MailboxRow.cleared s.mailboxes } := by
  unfold sealBatch at h
  -- A dismissed agent gets no batch.
  split_ifs at h with hdismissed
  · cases h
    exact Or.inl ⟨rfl, Or.inl rfl⟩
  · split at h
    · -- The batch that is on its way is returned.
      next batch hactive =>
      cases h
      exact Or.inl ⟨rfl, Or.inr hactive.symm⟩
    · next hnone =>
      dsimp only at h
      split at h
      · cases h
        exact Or.inl ⟨rfl, Or.inl rfl⟩
      · -- A due mailbox of the agent is sealed.
        next row hrow =>
        have hsorted := List.mem_mergeSort.mp (List.mem_of_head? hrow)
        obtain ⟨hmem, hdue⟩ := List.mem_filter.mp hsorted
        obtain ⟨hagent, -⟩ := Bool.and_eq_true_iff.mp hdue
        obtain rfl := of_decide_eq_true hagent
        obtain ⟨⟨sealed, s''⟩, hrow, h⟩ := bind_eq_ok.mp h
        rw [pure_eq_ok] at h
        obtain ⟨rfl, rfl⟩ := Prod.mk.inj h
        unfold sealRow at hrow
        dsimp only at hrow
        split at hrow
        · cases hrow
        · next last hlast =>
          rw [check_bind_eq_ok, require_eq_ok, pure_eq_ok] at hrow
          obtain ⟨hfresh, hrow⟩ := hrow
          obtain ⟨rfl, rfl⟩ := Prod.mk.inj hrow
          rw [Bool.not_eq_true] at hdismissed
          exact Or.inr ⟨row, hmem, last, rfl, hdismissed, hnone, hlast, hfresh, rfl, rfl⟩

/-- What comes of sealing a batch. -/
theorem outcome_sealBatch {agentId maxBytes : ℕ} {host : Host} {result : Option ConversationBatch}
    (h : s.sealBatch agentId maxBytes host = .ok (result, s')) : Outcome s s' := by
  rcases sealBatch_cases h with
    ⟨rfl, -⟩ | ⟨row, hmem, last, rfl, hdismissed, hnone, hlast, hfresh, -, rfl⟩
  · exact Outcome.same
  · obtain ⟨rest, hselected⟩ :=
      exists_select maxBytes 800 0 (s.messagesAfter row.conversationId row.processed)
    exact Outcome.batched _ hmem hdismissed hnone hselected hlast hfresh

/-- A batch that is found is stored under its identifier. -/
theorem mem_of_batch? {id : String} {batch : ConversationBatch} (h : s.batch? id = some batch) :
    batch ∈ s.batches ∧ batch.id = id := by
  unfold batch? at h
  have hid := List.find?_some h
  rw [decide_eq_true_eq] at hid
  exact ⟨List.mem_of_find?_eq_some h, hid⟩

/-- What comes of delivering a batch. -/
theorem outcome_delivered (id : String) : Outcome s (s.delivered id) := by
  unfold delivered
  split
  · exact Outcome.same
  · next batch hbatch =>
    split_ifs with hstatus
    · exact Outcome.delivered (mem_of_batch? hbatch).1 hstatus
    · exact Outcome.same

/-- The messages after a position are those of the conversation behind it. -/
theorem mem_messagesAfter {id : String} {after : ℕ} : message ∈ s.messagesAfter id after ↔
    message ∈ s.messages ∧ message.conversationId = id ∧ after < message.sequence := by
  unfold messagesAfter
  simp

/-- Two changes of a mailbox are one. -/
theorem updateMailbox_updateMailbox (agentId : ℕ) (conversationId : String)
    {change change' : MailboxRow → MailboxRow}
    (hagent : ∀ row, (change row).agentId = row.agentId)
    (hconversation : ∀ row, (change row).conversationId = row.conversationId)
    (rows : List MailboxRow) :
    updateMailbox agentId conversationId change'
        (updateMailbox agentId conversationId change rows) =
      updateMailbox agentId conversationId (fun row => change' (change row)) rows := by
  unfold updateMailbox
  rw [List.map_map]
  apply List.map_congr_left
  intro row _
  rw [Function.comp_apply]
  split_ifs with hrow hchanged
  · rfl
  · rw [hagent, hconversation] at hchanged
    exact absurd hrow hchanged
  · rfl

/-- What comes of acknowledging a batch. -/
theorem outcome_acknowledge {id : String} {now : Timestamp} (h : s.acknowledge id now = .ok s') :
    Outcome s s' := by
  unfold acknowledge at h
  -- A batch that is not there changes nothing, and neither does one that is done.
  split at h
  · cases h
    exact Outcome.same
  · next batch hbatch =>
    have hmem := (mem_of_batch? hbatch).1
    split_ifs at h with hstatus
    · cases h
      exact Outcome.same
    · dsimp only at h
      obtain ⟨conversation, hget, h⟩ := bind_eq_ok.mp h
      obtain ⟨row, hrow, rfl, hconversation⟩ := mem_of_get hget
      split at h
      · -- Nothing is left for the agent: its mailbox is quiet.
        next hpending =>
        rw [pure_eq_ok] at h
        rw [← h]
        apply Outcome.acknowledged hmem hstatus hrow hconversation
        intro m hm hid hbeyond
        have hnone := List.filter_eq_nil_iff.mp hpending m (mem_messagesAfter.mpr ⟨hm, hid, hbeyond⟩)
        rw [Bool.not_eq_true] at hnone
        exact hnone
      · -- Something has come in since: the mailbox is due again.
        next first rest hpending =>
        rw [pure_eq_ok] at h
        rw [← h]
        have hfirst : first ∈ first :: rest := List.mem_cons_self
        rw [← hpending] at hfirst
        obtain ⟨hm, hid, hbeyond⟩ := mem_messagesAfter.mp (List.mem_filter.mp hfirst).1
        rw [updateMailbox_updateMailbox]
        · exact Outcome.restored now hmem hstatus hm hid hbeyond
        · exact fun _ => rfl
        · exact fun _ => rfl

/-- A message that is sent was sent before, or is stored. -/
theorem send_cases {sha256 : String → String} {conversationId : String} {sender : ConversationMember}
    {input : SendConversationMessage} {phase : Option String} {maxDeliveryBytes : Option ℕ}
    {host : Host}
    (h : s.send policy sha256 conversationId sender input phase maxDeliveryBytes host =
      .ok (message, s')) :
    (s' = s ∧ message ∈ s.messages) ∨
      Sent policy sender phase maxDeliveryBytes host s s' message := by
  unfold send at h
  obtain ⟨conversation, hget, h⟩ := bind_eq_ok.mp h
  obtain ⟨row, hrow, rfl, rfl⟩ := mem_of_get hget
  simp only [check_bind_eq_ok, require_eq_ok] at h
  obtain ⟨hactive, -, hmember, -, -, hreply, h⟩ := h
  -- Under a key of the outbox nothing is stored.
  split at h
  · next existing hexisting =>
    left
    rw [check_bind_eq_ok] at h
    obtain ⟨-, h⟩ := h
    split at h
    · next found hfound =>
      rw [pure_eq_ok] at h
      cases h
      exact ⟨rfl, List.mem_of_find?_eq_some hfound⟩
    · cases h
  · -- Otherwise the message is stored behind all others.
    right
    unfold store at h
    obtain ⟨phaseId, hphase, h⟩ := bind_eq_ok.mp h
    obtain ⟨phases, hphases, h⟩ := bind_eq_ok.mp h
    rw [check_bind_eq_ok, check_bind_eq_ok, require_eq_ok, require_eq_ok, pure_eq_ok] at h
    obtain ⟨hfresh, hfits, h⟩ := h
    cases h
    exact {
      author := rfl
      active := hactive
      id := rfl
      fresh := hfresh
      sequence := rfl
      phaseId := hphase
      reply := by
        intro replyTo hreplyTo
        have hsome := hreply (by
          show (truthy input.replyTo).isSome = true
          rw [show truthy input.replyTo = some replyTo from hreplyTo]
          rfl)
        rw [show truthy input.replyTo = some replyTo from hreplyTo] at hsome
        rw [Option.bind_some] at hsome
        cases hfound : s.message? replyTo with
        | none =>
          rw [hfound] at hsome
          cases hsome
        | some reply => rfl
      fits := hfits
      stored := ⟨row, hrow, _, phases, rfl, hmember, hphases, rfl⟩ }

end ConversationStore

end OsAgent.Conversations
