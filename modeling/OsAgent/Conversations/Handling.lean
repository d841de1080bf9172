import OsAgent.Conversations.MessagingRuns

/-!
# What becomes of a message that a model asks to send

An action ends with the message in the store, with a fault that is the agent's own, or with an error that
stops the runtime. The last happens for two reasons only: the names of two agents are too long for the
title of their conversation, or the key of the round has been used for another message. `handled_iff`
says so of every reachable state, and that a message is stored once however often its round is replayed.
-/

namespace OsAgent.Conversations

open OsAgent.Library
open OsAgent.Context (ContextDecision ContextEntry)

/-- The error is one of the faults of an agent. -/
def StoreError.IsFault (e : StoreError) : Prop := ∃ kind, classifyFault e = .fault kind

/-- A fault is a fault. -/
theorem isFault_fault (kind : FaultKind) (message : String) (retryable : Bool) :
    (StoreError.fault kind message retryable).IsFault := ⟨kind, rfl⟩

namespace ConversationStore

variable {s s' : ConversationStore} {policy : ConversationPolicy} {sha256 : String → String}

/-! ## What `send` checks -/

/-- What `send` checks of a message to a conversation. -/
def checkAdmission (s : ConversationStore) (conversation : RuntimeConversation)
    (sender : ConversationMember) (input : SendConversationMessage) :
    Except StoreError (Option ConversationMessage) := do
  require (s.isDismissedAgent sender = false)
    (.fault .permission "Agent 已解雇。" false)
  require (conversation.kind = .direct →
      ∀ member ∈ conversation.members, s.isDismissedAgent member = false)
    (.fault .permission "Agent 已解雇，私聊仅保留历史。" false)
  require (isMember conversation sender = true) (.fault .permission "发送者不是会话成员。" false)
  require (isBlank input.content = false ∧ byteLength input.content.toList ≤ 12000 ∧
      isBlank input.idempotencyKey = false ∧ lengthOf input.idempotencyKey ≤ 300)
    (.fault .protocol "消息内容或幂等键无效；正文最多 12000 字节。" true)
  require (∀ id ∈ input.mentions.dedup.mergeSort (· ≤ ·),
      s.isDismissed id = false ∧ isMember conversation (.agent id) = true)
    (.fault .permission "只能点名本会话的 Agent。" false)
  let reply := (truthy input.replyTo).bind s.message?
  require ((truthy input.replyTo).isSome = true →
      reply.map ConversationMessage.conversationId = some conversation.id)
    (.fault .permission "回复引用不属于当前会话。" false)
  pure reply

/-- What is checked of a message in a conversation that is found. -/
theorem checkSend_eq {conversation : RuntimeConversation}
    (hget : s.get conversation.id = .ok conversation) (sender : ConversationMember)
    (input : SendConversationMessage) : s.checkSend conversation.id sender input = (do
      let reply ← s.checkAdmission conversation sender input
      pure (conversation, reply)) := by
  unfold checkSend checkAdmission
  rw [hget]
  simp only [bind_assoc, pure_bind]
  rfl

/-- Whoever is refused has made a fault. -/
theorem isFault_of_checkAdmission {conversation : RuntimeConversation} {sender : ConversationMember}
    {input : SendConversationMessage} {e : StoreError}
    (h : s.checkAdmission conversation sender input = .error e) : e.IsFault := by
  unfold checkAdmission at h
  simp only [bind_eq_error, require_eq_error, require_eq_ok, pure_ne_error, exists_unit, and_false,
    or_false] at h
  rcases h with ⟨-, rfl⟩ | ⟨-, ⟨-, rfl⟩ | ⟨-, ⟨-, rfl⟩ | ⟨-, ⟨-, rfl⟩ | ⟨-, ⟨-, rfl⟩ | ⟨-, ⟨-, rfl⟩⟩⟩⟩⟩⟩ <;>
    exact ⟨_, rfl⟩

/-- The key of the message is in the outbox for another one. -/
def Contradicts (s : ConversationStore) (sha256 : String → String) (conversation : RuntimeConversation)
    (sender : ConversationMember) (input : SendConversationMessage) : Prop :=
  (∃ reply, s.checkAdmission conversation sender input = .ok reply) ∧
    ∃ existing, (s.outbox.find? fun row => row.id = outboxKey sha256 conversation sender input) =
        some existing ∧
      existing.fingerprint ≠
        fingerprint conversation.id input (input.mentions.dedup.mergeSort (· ≤ ·))

/-- Storing a message fails for a fault of the agent, if the identity is new and there is a phase. -/
theorem isFault_of_store {conversation : RuntimeConversation} {sender : ConversationMember}
    {input : SendConversationMessage} {mentions : List ℕ} {reply : Option ConversationMessage}
    {key print phase : String} {limit : Option ℕ} {host : Host} {e : StoreError} (hphase : phase ≠ "")
    (hfresh : host.id ∉ s.messages.map ConversationMessage.id)
    (h : s.store policy conversation sender input mentions reply key print (some phase) limit host =
      .error e) : e.IsFault := by
  -- The phase is named, so it is found.
  have hphaseOf : ∃ phaseId, phaseOf (some phase) host sender = .ok phaseId := by
    cases sender with
    | user id => exact ⟨_, rfl⟩
    | agent id =>
      refine ⟨phase, ?_⟩
      unfold phaseOf truthy
      rw [Option.filter_some]
      simp [hphase]
  obtain ⟨phaseId, hphaseId⟩ := hphaseOf
  unfold store at h
  rw [hphaseId] at h
  rcases bind_eq_error.mp h with hnone | ⟨_, -, h⟩
  · cases hnone
  -- The three ways to fail: the count of the phase, the identity, the size.
  rcases bind_eq_error.mp h with hcount | ⟨phases, -, h⟩
  · cases sender with
    | user id => cases hcount
    | agent id =>
      unfold countMessage at hcount
      rcases bind_eq_error.mp hcount with hrequire | ⟨_, -, hpure⟩
      · rw [← (require_eq_error.mp hrequire).2]
        exact isFault_fault _ _ _
      · cases hpure
  · rcases bind_eq_error.mp h with hrequire | ⟨_, -, h⟩
    · exact absurd hfresh (require_eq_error.mp hrequire).1
    · rcases bind_eq_error.mp h with hrequire | ⟨_, -, hpure⟩
      · rw [← (require_eq_error.mp hrequire).2]
        exact isFault_fault _ _ _
      · cases hpure

/-- A message is sent only if its key is not that of another one. -/
theorem not_contradicts_of_send {conversation : RuntimeConversation} {sender : ConversationMember}
    {input : SendConversationMessage} {phase : Option String} {limit : Option ℕ} {host : Host}
    {message : ConversationMessage} (hget : s.get conversation.id = .ok conversation)
    (h : s.send policy sha256 conversation.id sender input phase limit host = .ok (message, s')) :
    ¬ s.Contradicts sha256 conversation sender input := by
  rintro ⟨-, existing, hexisting, hother⟩
  rw [send_eq, checkSend_eq hget] at h
  obtain ⟨⟨conversation', reply⟩, hcheck, h⟩ := bind_eq_ok.mp h
  obtain ⟨_, -, hsame⟩ := bind_eq_ok.mp hcheck
  rw [pure_eq_ok] at hsame
  cases hsame
  dsimp only at h
  rw [hexisting] at h
  dsimp only at h
  rw [check_bind_eq_ok, require_eq_ok] at h
  exact hother h.1

/-- Sending changes no batch. -/
theorem batches_of_send {conversationId : String} {sender : ConversationMember}
    {input : SendConversationMessage} {phase : Option String} {limit : Option ℕ} {host : Host}
    {message : ConversationMessage}
    (h : s.send policy sha256 conversationId sender input phase limit host = .ok (message, s')) :
    s'.batches = s.batches := by
  rcases send_cases h with ⟨rfl, -⟩ | hsent
  · rfl
  · obtain ⟨_, _, _, _, _, _, _, rfl⟩ := hsent.stored
    rfl

/-- Sending fails for a fault of the agent, unless the key is that of another message. -/
theorem isFault_of_send_iff {conversation : RuntimeConversation} {sender : ConversationMember}
    {input : SendConversationMessage} {phase : String} {limit : Option ℕ} {host : Host}
    {e : StoreError} (hget : s.get conversation.id = .ok conversation)
    (houtbox : ∀ row ∈ s.outbox, ∃ m ∈ s.messages, m.id = row.messageId) (hphase : phase ≠ "")
    (hfresh : host.id ∉ s.messages.map ConversationMessage.id)
    (h : s.send policy sha256 conversation.id sender input (some phase) limit host = .error e) :
    e.IsFault ↔ ¬ s.Contradicts sha256 conversation sender input := by
  rw [send_eq, checkSend_eq hget] at h
  rcases bind_eq_error.mp h with hcheck | ⟨⟨conversation', reply⟩, hcheck, h⟩
  · -- The message is refused before the outbox is looked at.
    rcases bind_eq_error.mp hcheck with hrefused | ⟨_, -, hpure⟩
    · constructor
      · rintro - ⟨⟨reply, hadmitted⟩, -⟩
        rw [hrefused] at hadmitted
        cases hadmitted
      · exact fun _ => isFault_of_checkAdmission hrefused
    · cases hpure
  · obtain ⟨reply', hadmitted, hsame⟩ := bind_eq_ok.mp hcheck
    rw [pure_eq_ok] at hsame
    -- The message is admitted: what happens is decided by the outbox.
    cases hsame
    dsimp only at h
    split at h
    · next existing hexisting =>
      rcases bind_eq_error.mp h with hrequire | ⟨_, -, hmessage⟩
      · -- The key is that of another message.
        obtain ⟨hother, rfl⟩ := require_eq_error.mp hrequire
        constructor
        · rintro ⟨kind, hkind⟩
          cases hkind
        · exact fun hnot => absurd ⟨⟨_, hadmitted⟩, existing, hexisting, hother⟩ hnot
      · -- What is in the outbox is in the store.
        obtain ⟨m, hm, hid⟩ := houtbox existing (List.mem_of_find?_eq_some hexisting)
        split at hmessage
        · cases hmessage
        · next hnone => exact absurd (decide_eq_true hid) (List.find?_eq_none.mp hnone m hm)
    · -- The key is new: the message is stored, unless it does not fit.
      next hnone =>
      constructor
      · rintro - ⟨-, existing, hexisting, -⟩
        rw [hnone] at hexisting
        cases hexisting
      · exact fun _ => isFault_of_store hphase hfresh h

/-- Whether a message contradicts an earlier one depends on what was sent and who was dismissed. -/
theorem contradicts_congr (sha256 : String → String) (hdismissed : s'.dismissed = s.dismissed)
    (hmessages : s'.messages = s.messages) (houtbox : s'.outbox = s.outbox) (conversation : RuntimeConversation)
    (sender : ConversationMember) (input : SendConversationMessage) :
    s'.Contradicts sha256 conversation sender input ↔ s.Contradicts sha256 conversation sender input := by
  unfold Contradicts checkAdmission isDismissedAgent isDismissed message?
  rw [hdismissed, hmessages, houtbox]

/-! ## Creating -/

/-- The conversation that `create` gives. -/
def conversationFor (s : ConversationStore) (input : CreateConversation) (host : Host) :
    RuntimeConversation :=
  let key := directKey (newConversation input host)
  ((s.conversations.find? fun row => key.isSome && row.directKey = key).map
    ConversationRow.conversation).getD (newConversation input host)

/-- The conversation is in the store under the key. -/
def HasDirect (s : ConversationStore) (key : Option String) (conversation : RuntimeConversation) : Prop :=
  (s.conversations.find? fun row => key.isSome && row.directKey = key).map
    ConversationRow.conversation = some conversation

/-- A direct conversation is there later too. -/
theorem Grows.hasDirect {key : Option String} {conversation : RuntimeConversation} (h : Grows s s')
    (hdirect : s.HasDirect key conversation) : s'.HasDirect key conversation := by
  obtain ⟨row, hrow, hsame⟩ := Option.map_eq_some_iff.mp hdirect
  exact Option.map_eq_some_iff.mpr ⟨row, h.conversations.find?_eq_some hrow, hsame⟩

/-- The direct conversation that is there is the one for an input with its key. -/
theorem HasDirect.conversationFor_eq {input : CreateConversation} {host : Host}
    {conversation : RuntimeConversation}
    (h : s.HasDirect (directKey (newConversation input host)) conversation) :
    s.conversationFor input host = conversation := by
  unfold conversationFor
  dsimp only
  rw [h]
  rfl

/-- What `create` gives, and what it leaves. -/
theorem conversationFor_of_create (hplaces : s.PlacesValid) {input : CreateConversation} {host : Host}
    {conversation : RuntimeConversation} (hkind : input.kind = .direct)
    (h : s.create input host = .ok (conversation, s')) :
    s.conversationFor input host = conversation ∧
      s'.HasDirect (directKey (newConversation input host)) conversation := by
  have hsome : (directKey (newConversation input host)).isSome = true := by
    unfold directKey newConversation
    rw [if_pos hkind]
    rfl
  cases hfind : s.conversations.find? fun row => (directKey (newConversation input host)).isSome &&
      row.directKey = directKey (newConversation input host) with
  -- There is a conversation of this key already, and it is the one returned.
  | some row =>
    have hdirect : s.HasDirect (directKey (newConversation input host)) row.conversation := by
      unfold HasDirect
      rw [hfind]
      rfl
    have hcreated : conversation = row.conversation ∧ s' = s := by
      unfold create at h
      rw [check_bind_eq_ok, check_bind_eq_ok] at h
      obtain ⟨-, -, h⟩ := h
      unfold newConversation at hfind
      dsimp only at h
      rw [hfind] at h
      dsimp only at h
      rw [hplaces.get_eq (List.mem_of_find?_eq_some hfind) rfl] at h
      cases h
      exact ⟨rfl, rfl⟩
    obtain ⟨rfl, rfl⟩ := hcreated
    exact ⟨hdirect.conversationFor_eq, hdirect⟩
  -- There is none: the new one is added.
  | none =>
    rcases create_cases hplaces h with ⟨-, row, hrow, -, hkey, -⟩ | ⟨rfl, -, rfl⟩
    · have hnot := List.find?_eq_none.mp hfind row hrow
      rw [hkey, hsome] at hnot
      simp at hnot
    · constructor
      · unfold conversationFor
        dsimp only
        rw [hfind]
        rfl
      · unfold HasDirect
        dsimp only
        rw [List.find?_append, hfind, hsome]
        simp

/-- A conversation of two agents is created, if its title is not too long. -/
theorem exists_create (hplaces : s.PlacesValid) {input : CreateConversation} {host : Host}
    (hchecked : validateConversation (newConversation input host) = .ok ())
    (hmembers : (input.members.map memberKey).Nodup) (hlength : input.members.length = 2)
    (hfresh : host.id ∉ s.conversations.map fun row => row.conversation.id) :
    ∃ result, s.create input host = .ok result := by
  have hrequire : ∀ (message : StoreError), require
      (((newConversation input host).members.map memberKey).Nodup ∧
        ((newConversation input host).kind = .direct → (newConversation input host).members.length = 2))
      message = .ok () := fun message => require_eq_ok.mpr ⟨hmembers, fun _ => hlength⟩
  unfold create
  unfold newConversation at hchecked hrequire
  dsimp only at hchecked hrequire ⊢
  rw [hchecked, hrequire]
  dsimp only [bind, Except.bind]
  split
  · next row hrow =>
    rw [hplaces.get_eq (List.mem_of_find?_eq_some hrow) rfl]
    exact ⟨_, rfl⟩
  · have hnew : require (host.id ∉ s.conversations.map fun row => row.conversation.id)
        (StoreError.constraint "chat_conversations.id") = .ok () := require_eq_ok.mpr hfresh
    rw [hnew]
    exact ⟨_, rfl⟩

end ConversationStore

/-! ## Destinations -/

namespace Runtime

variable {policy : ConversationPolicy} {sha256 : String → String} {r r' r'' : Runtime}

/-- The agent that a destination names, if it may be messaged. -/
def peer? (r : Runtime) (live : RuntimeAgent) (destination : String) : Option RuntimeAgent :=
  ((peerAlias destination).bind fun name =>
    r.agents.find? fun agent => agent.agentName = name).filter fun recipient =>
      canMessage live recipient

/-- The names of the two agents make too long a title. -/
def Overlong (r : Runtime) (live : RuntimeAgent) (destination : String) : Prop :=
  ∃ recipient, r.peer? live destination = some recipient ∧
    100 < lengthOf (peerConversation live recipient).title

/-- The conversation that a message is for. -/
def target? (r : Runtime) (live : RuntimeAgent) (destination : String) (host : Host) :
    Option RuntimeConversation :=
  if (peerAlias destination).isSome = true then
    (r.peer? live destination).map fun recipient =>
      r.conversations.conversationFor (peerConversation live recipient) host
  else
    (r.conversations.get destination).toOption.filter fun conversation =>
      (r.checkAccess live conversation).isOk

/-- A peer is the agent of that name, if the sender may write to it. -/
theorem peer?_eq_some {live recipient : RuntimeAgent} {destination : String} :
    r.peer? live destination = some recipient ↔ ∃ name, peerAlias destination = some name ∧
      (r.agents.find? fun agent => agent.agentName = name) = some recipient ∧
        canMessage live recipient = true := by
  unfold peer?
  rw [Option.filter_eq_some_iff, Option.bind_eq_some_iff]
  constructor
  · rintro ⟨⟨name, hname, hfind⟩, hcan⟩
    exact ⟨name, hname, hfind, hcan⟩
  · rintro ⟨name, hname, hfind, hcan⟩
    exact ⟨⟨name, hname, hfind⟩, hcan⟩

/-- Whoever can not be reached has been refused for a fault of the agent. -/
theorem isFault_of_checkAccess (h : r.Sound policy sha256) {live : RuntimeAgent}
    {conversation : RuntimeConversation} (hholds : r.Holds conversation) {e : StoreError}
    (herror : r.checkAccess live conversation = .error e) : e.IsFault := by
  -- Looking for a cancelled member does not fail: every agent of the conversation is known.
  have hcancelled : ∀ members : List ConversationMember,
      (∀ id, .agent id ∈ members → r.Knows id) → ∃ b, r.anyCancelled members = .ok b := by
    intro members
    induction members with
    | nil => exact fun _ => ⟨false, rfl⟩
    | cons member members ih =>
      intro hknows
      have hrest := ih fun id hid => hknows id (List.mem_cons_of_mem _ hid)
      cases member with
      | user id => exact hrest
      | agent id =>
        obtain ⟨agent, hagent, rfl⟩ := hknows id List.mem_cons_self
        unfold anyCancelled
        rw [h.live_eq hagent]
        by_cases hstatus : agent.status = .cancelled
        · refine ⟨true, ?_⟩
          show (if agent.status = .cancelled then pure true else r.anyCancelled members) = _
          rw [if_pos hstatus]
          rfl
        · obtain ⟨b, hb⟩ := hrest
          refine ⟨b, ?_⟩
          show (if agent.status = .cancelled then pure true else r.anyCancelled members) = _
          rw [if_neg hstatus, hb]
  unfold checkAccess at herror
  dsimp only at herror
  rcases bind_eq_error.mp herror with hrequire | ⟨_, -, herror⟩
  · rw [← (require_eq_error.mp hrequire).2]
    exact isFault_fault _ _ _
  · rcases bind_eq_error.mp herror with hnone | ⟨_, -, hrequire⟩
    · obtain ⟨b, hb⟩ := hcancelled conversation.members (hholds.knows h)
      rw [hb] at hnone
      cases hnone
    · rw [← (require_eq_error.mp hrequire).2]
      exact isFault_fault _ _ _

/-- A conversation of two agents has the form of its schema, unless its title is too long. -/
theorem Sound.validate_peer (h : r.Sound policy sha256) {live recipient : RuntimeAgent}
    (hlive : live ∈ r.agents) (hrecipient : recipient ∈ r.agents) (host : Host) :
    ConversationStore.validateConversation
        (ConversationStore.newConversation (peerConversation live recipient) host) =
      if lengthOf (peerConversation live recipient).title ≤ 100 then .ok () else .error .schema := by
  have howner : ∀ e : StoreError, require (live.ownerId ≠ "" ∧ live.workspaceId ≠ "") e = .ok () :=
    fun e => require_eq_ok.mpr (h.owners live hlive)
  have hpositive : ∀ agent ∈ r.agents, ∀ e : StoreError,
      require (isPositiveInteger agent.agentId = true) e = .ok () :=
    fun agent hagent e => require_eq_ok.mpr (h.numbers agent hagent).1
  unfold ConversationStore.validateConversation ConversationStore.newConversation peerConversation
    RuntimeAgent.member
  dsimp only
  rw [howner]
  split_ifs with htitle
  · have hshort : ∀ e : StoreError, require
        (lengthOf (live.displayName ++ " · " ++ recipient.displayName) ≤ 100) e = .ok () :=
      fun e => require_eq_ok.mpr htitle
    rw [hshort]
    show (do
      require (isPositiveInteger live.agentId = true) StoreError.schema
      require (isPositiveInteger recipient.agentId = true) StoreError.schema
      pure ()) = Except.ok ()
    rw [hpositive live hlive, hpositive recipient hrecipient]
    rfl
  · unfold require
    rw [if_neg htitle]
    rfl

/-- What finding the destination leaves, and why it fails. -/
structure Found (r r' : Runtime) (live : RuntimeAgent) (destination : String) (host : Host)
    (conversation : RuntimeConversation) : Prop where
  short : ¬ r.Overlong live destination
  target : r.target? live destination host = some conversation
  direct : ∀ recipient, r.peer? live destination = some recipient → r'.conversations.HasDirect
    (ConversationStore.directKey (ConversationStore.newConversation (peerConversation live recipient)
      host)) conversation
  messages : r'.conversations.messages = r.conversations.messages
  outbox : r'.conversations.outbox = r.conversations.outbox
  dismissed : r'.conversations.dismissed = r.conversations.dismissed
  batches : r'.conversations.batches = r.conversations.batches

/-- Why finding the destination fails. -/
structure Refused (r : Runtime) (live : RuntimeAgent) (destination : String) (host : Host)
    (e : StoreError) : Prop where
  isFault_iff : e.IsFault ↔ ¬ r.Overlong live destination
  target : e.IsFault → r.target? live destination host = none

/-- Creating the conversation with a peer fails if the title is too long, and then only. -/
theorem wp_createPeer (h : r.Sound policy sha256) {live recipient : RuntimeAgent}
    (hlive : live ∈ r.agents) {destination name : String} (hname : peerAlias destination = some name)
    (hpeer : r.peer? live destination = some recipient) (host : Host) :
    wp (onStore fun s => s.create (peerConversation live recipient) host)
      (fun conversation r' => Found r r' live destination host conversation)
      (fun e r' => r' = r ∧
        (host.id ∉ (r.conversations.conversations.map fun row => row.conversation.id) →
          Refused r live destination host e)) r := by
  obtain ⟨_, -, hfind, hcan⟩ := peer?_eq_some.mp hpeer
  have hrecipient := List.mem_of_find?_eq_some hfind
  have hplaces := h.valid.places
  have hvalidate := h.validate_peer hlive hrecipient host
  -- The title of a conversation with a peer is the two names and what is between them.
  have hoverlong : r.Overlong live destination ↔
      100 < lengthOf (peerConversation live recipient).title := by
    constructor
    · rintro ⟨recipient', hpeer', hlong⟩
      rw [hpeer, Option.some.injEq] at hpeer'
      rwa [hpeer']
    · exact fun hlong => ⟨recipient, hpeer, hlong⟩
  rw [wp_onStore]
  constructor
  · intro conversation s hcreate
    have hvalid : ConversationStore.validateConversation
        (ConversationStore.newConversation (peerConversation live recipient) host) = .ok () := by
      unfold ConversationStore.create at hcreate
      rw [check_bind_eq_ok] at hcreate
      exact hcreate.1
    obtain ⟨hconversation, hdirect⟩ := ConversationStore.conversationFor_of_create hplaces rfl hcreate
    -- To create a conversation leaves the messages and the batches.
    have hsame : s.messages = r.conversations.messages ∧ s.outbox = r.conversations.outbox ∧
        s.dismissed = r.conversations.dismissed ∧ s.batches = r.conversations.batches := by
      rcases ConversationStore.create_cases hplaces hcreate with ⟨hs, -⟩ | ⟨-, -, hs⟩ <;>
        rw [hs] <;> exact ⟨rfl, rfl, rfl, rfl⟩
    refine ⟨?_, ?_, ?_, hsame.1, hsame.2.1, hsame.2.2.1, hsame.2.2.2⟩
    · rw [hoverlong]
      intro hlong
      rw [hvalidate, if_neg (by omega)] at hvalid
      cases hvalid
    · unfold target?
      rw [hname, hpeer, Option.map_some, hconversation]
      rfl
    · intro recipient' hpeer'
      rw [hpeer, Option.some.injEq] at hpeer'
      rw [← hpeer']
      exact hdirect
  · intro e hcreate
    refine ⟨rfl, fun hfresh => ?_⟩
    -- Only the title can be refused; the members are two different ones.
    by_cases hlong : 100 < lengthOf (peerConversation live recipient).title
    · have hschema : e = .schema := by
        rw [if_neg (by omega)] at hvalidate
        unfold ConversationStore.newConversation at hvalidate
        unfold ConversationStore.create at hcreate
        dsimp only at hcreate hvalidate
        rw [hvalidate] at hcreate
        exact (Except.error.inj hcreate).symm
      have hnot : ¬ e.IsFault := by
        rintro ⟨kind, hkind⟩
        rw [hschema] at hkind
        cases hkind
      exact ⟨iff_of_false hnot fun hshort => hshort (hoverlong.mpr hlong),
        fun hfault => absurd hfault hnot⟩
    · -- Otherwise it is created.
      rw [if_pos (by omega)] at hvalidate
      have hdistinct : ((peerConversation live recipient).members.map memberKey).Nodup := by
        unfold canMessage at hcan
        simp only [Bool.and_eq_true, decide_eq_true_eq] at hcan
        show [memberKey live.member, memberKey recipient.member].Nodup
        rw [List.nodup_cons, List.mem_singleton]
        refine ⟨?_, List.nodup_singleton _⟩
        intro hkey
        have hmember := memberKey_injective hkey
        exact hcan.1.1.1.1 (ConversationMember.agent.inj hmember)
      obtain ⟨result, hok⟩ := ConversationStore.exists_create hplaces hvalidate hdistinct rfl hfresh
      rw [hok] at hcreate
      cases hcreate

/-- Finding the destination fails for a fault of the agent, unless the title is too long. -/
theorem wp_messageDestination (h : r.Sound policy sha256) {live : RuntimeAgent}
    (hlive : live ∈ r.agents) (destination : String) (host : Host) :
    wp (messageDestination live destination host)
      (fun conversation r' => Found r r' live destination host conversation)
      (fun e r' => r' = r ∧
        (host.id ∉ (r.conversations.conversations.map fun row => row.conversation.id) →
          Refused r live destination host e)) r := by
  -- Without a peer there is no title.
  have hshort : r.peer? live destination = none → ¬ r.Overlong live destination := by
    rintro hnone ⟨recipient, hpeer, -⟩
    rw [hnone] at hpeer
    cases hpeer
  unfold messageDestination
  rw [wp_bind, wp_get]
  cases hname : peerAlias destination with
  | some name =>
    have hnone : r.peer? live destination = none → r.target? live destination host = none := by
      intro hnone
      unfold target?
      rw [hname, hnone]
      rfl
    dsimp only
    cases hfind : r.agents.find? fun agent => agent.agentName = name with
    | none =>
      have hpeer : r.peer? live destination = none := by
        unfold peer?
        rw [hname, Option.bind_some, hfind]
        rfl
      exact ⟨rfl, fun _ =>
        ⟨iff_of_true (isFault_fault _ _ _) (hshort hpeer), fun _ => hnone hpeer⟩⟩
    | some recipient =>
      dsimp only
      rw [wp_ite]
      split_ifs with hcan
      · have hpeer : r.peer? live destination = some recipient :=
          peer?_eq_some.mpr ⟨name, hname, hfind, hcan⟩
        exact wp_createPeer h hlive hname hpeer host
      · have hpeer : r.peer? live destination = none := by
          unfold peer?
          rw [hname, Option.bind_some, hfind, Option.filter_some, if_neg hcan]
        exact ⟨rfl, fun _ =>
        ⟨iff_of_true (isFault_fault _ _ _) (hshort hpeer), fun _ => hnone hpeer⟩⟩
  | none =>
    have hpeer : r.peer? live destination = none := by
      unfold peer?
      rw [hname]
      rfl
    have htarget : r.target? live destination host =
        (r.conversations.get destination).toOption.filter fun conversation =>
          (r.checkAccess live conversation).isOk := by
      unfold target?
      rw [hname]
      rfl
    dsimp only
    cases hget : r.conversations.get destination with
    | error e =>
      refine ⟨rfl, fun _ => ⟨iff_of_true (isFault_fault _ _ _) (hshort hpeer), fun _ => ?_⟩⟩
      rw [htarget, hget]
      rfl
    | ok conversation =>
      dsimp only
      rw [wp_bind, wp_lift]
      obtain ⟨row, hrow, hsame, -⟩ := ConversationStore.mem_of_get hget
      constructor
      · intro _ haccess
        rw [wp_pure]
        refine ⟨hshort hpeer, ?_, ?_, rfl, rfl, rfl, rfl⟩
        · rw [htarget, hget]
          show (if (r.checkAccess live conversation).isOk = true then some conversation else none) = _
          rw [haccess]
          rfl
        · intro recipient hsome
          rw [hpeer] at hsome
          cases hsome
      · intro e haccess
        refine ⟨rfl, fun _ => ⟨iff_of_true (isFault_of_checkAccess h ⟨row, hrow, hsame⟩ haccess)
          (hshort hpeer), fun _ => ?_⟩⟩
        rw [htarget, hget]
        show (if (r.checkAccess live conversation).isOk = true then some conversation else none) = _
        rw [haccess]
        rfl

/-! ## Sending -/

/-- An agent has a phase. -/
theorem Sound.agentPhase_ne_empty (h : r.Sound policy sha256) (agentId : ℕ) :
    r.conversations.agentPhase agentId ≠ "" := by
  unfold ConversationStore.agentPhase
  cases hactive : r.conversations.active agentId with
  | some batch =>
    -- A batch has the phase of a message.
    have hbatch := List.mem_of_find?_eq_some hactive
    obtain ⟨m, hm, hphase⟩ := (ConversationStore.phased_of_reachable h.store).batches batch hbatch
    have hne := h.phases m hm
    rwa [hphase] at hne
  | none =>
    show legacyPhase agentId ≠ ""
    intro hempty
    have hlist := congrArg String.toList hempty
    unfold legacyPhase at hlist
    rw [String.toList_append] at hlist
    cases hlist

/-- The outbox has the message under its key. -/
def Remembers (sha256 : String → String) (r : Runtime) (live : RuntimeAgent)
    (input : SendConversationMessage) (conversation : RuntimeConversation)
    (message : ConversationMessage) : Prop :=
  r.conversations.Remembers (ConversationStore.outboxKey sha256 conversation live.member input)
    (ConversationStore.fingerprint conversation.id input
      (input.mentions.dedup.mergeSort (· ≤ ·))) message

/-- A message was in the store already, or has been put there. -/
def Stores (r r' : Runtime) (live : RuntimeAgent) (input : SendConversationMessage)
    (conversation : RuntimeConversation) (message : ConversationMessage) : Prop :=
  (r'.conversations.messages = r.conversations.messages ∧ message ∈ r.conversations.messages) ∨
    (r'.conversations.messages = r.conversations.messages ++ [message] ∧
      message ∉ r.conversations.messages ∧ message.sender = live.member ∧
      message.conversationId = conversation.id ∧ message.content = input.content)

/-- The message is sent unless the agent has made a fault, or the key is that of another message. -/
theorem wp_deliverMessage (h : r.Sound policy sha256) {conversation : RuntimeConversation}
    (hholds : r.Holds conversation) (live : RuntimeAgent) (action : MessageAction)
    (round : MessageRound) :
    wp (deliverMessage policy sha256 live action round conversation)
      (fun message r' => ¬ r.conversations.Contradicts sha256 conversation live.member
          (action.input round.idempotencyKey) ∧
        Remembers sha256 r' live (action.input round.idempotencyKey) conversation message ∧
        Stores r r' live (action.input round.idempotencyKey) conversation message ∧
        r'.conversations.batches = r.conversations.batches)
      (fun e r' => r' = r ∧
        (round.messageHost.id ∉ r.conversations.messages.map ConversationMessage.id →
          (e.IsFault ↔ ¬ r.conversations.Contradicts sha256 conversation live.member
            (action.input round.idempotencyKey)))) r := by
  have hget := h.get_eq hholds
  obtain ⟨limit, hlimit, -⟩ := h.deliveryLimit (hholds.knows h)
  unfold deliverMessage
  rw [wp_bind, wp_get, wp_bind, wp_lift, hlimit]
  refine ⟨?_, fun e heq => by cases heq⟩
  intro limit' _
  rw [wp_onStore]
  constructor
  · -- The message was not in contradiction, since it was sent.
    intro message s hsend
    obtain ⟨-, conversation', hget', hremembers⟩ := ConversationStore.remembers_of_send hsend
    rw [hget, Except.ok.injEq] at hget'
    rw [← hget'] at hremembers
    refine ⟨ConversationStore.not_contradicts_of_send hget hsend, hremembers, ?_, ?_⟩
    · rcases ConversationStore.send_result hsend with
        ⟨hs, hmessage⟩ | ⟨hnew, hmessages, hsender, hconversation, hcontent, -⟩
      · exact .inl ⟨congrArg ConversationStore.messages hs, hmessage⟩
      · exact .inr ⟨hmessages, hnew, hsender, hconversation, hcontent⟩
    · exact ConversationStore.batches_of_send hsend
  · intro e hsend
    exact ⟨rfl, fun hfresh => ConversationStore.isFault_of_send_iff hget h.outbox
      (h.agentPhase_ne_empty _) hfresh hsend⟩

/-! ## Handling -/

/-- The identities that the host gives a round are new. -/
structure FreshRound (r : Runtime) (round : MessageRound) : Prop where
  conversation : round.conversationHost.id ∉
    r.conversations.conversations.map fun row => row.conversation.id
  message : round.messageHost.id ∉ r.conversations.messages.map ConversationMessage.id
  mail : round.mail.Fresh r

/-- The key of the round is that of another message. -/
def Contradicted (sha256 : String → String) (r : Runtime) (live : RuntimeAgent)
    (action : MessageAction) (round : MessageRound) : Prop :=
  ∃ conversation, r.target? live action.destination round.conversationHost = some conversation ∧
    r.conversations.Contradicts sha256 conversation live.member (action.input round.idempotencyKey)

/-- The runtime can answer an action: it is refused because the turn can not end, or neither is the title
too long nor the key that of another message. -/
def Answerable (sha256 : String → String) (r : Runtime) (live : RuntimeAgent) (action : MessageAction)
    (round : MessageRound) : Prop :=
  action.checkFinish round = .ok () →
    ¬ r.Overlong live action.destination ∧ ¬ r.Contradicted sha256 live action round

/-- Where the message of an action is, when it has been sent. -/
structure Sends (sha256 : String → String) (r r' : Runtime) (live : RuntimeAgent)
    (action : MessageAction) (round : MessageRound) (conversation : RuntimeConversation)
    (message : ConversationMessage) : Prop where
  target : r.target? live action.destination round.conversationHost = some conversation
  remembers : Remembers sha256 r' live (action.input round.idempotencyKey) conversation message
  stores : Stores r r' live (action.input round.idempotencyKey) conversation message

/-- To finish fails with a fault. -/
theorem isFault_of_checkFinish {action : MessageAction} {round : MessageRound} {e : StoreError}
    (h : action.checkFinish round = .error e) : e.IsFault := by
  unfold MessageAction.checkFinish at h
  split_ifs at h
  · unfold assertCanFinish at h
    simp only [bind_eq_error, require_eq_error, require_eq_ok, exists_unit] at h
    rcases h with ⟨-, rfl⟩ | ⟨-, ⟨-, rfl⟩ | ⟨-, -, rfl⟩⟩ <;> exact ⟨_, rfl⟩
  · cases h

/-- Handling an action sends the message, or fails for a fault of the agent, if the action can be
answered. Otherwise it fails for none. -/
theorem wp_performMessage (h : r.Sound policy sha256) {live : RuntimeAgent} (hlive : live ∈ r.agents)
    (action : MessageAction) {round : MessageRound} (hfresh : r.FreshRound round) :
    wp (performMessage policy sha256 live action round)
      (fun result r' => r.Answerable sha256 live action round ∧ Keeps policy sha256 r r' ∧
        ∃ conversation message, Sends sha256 r r' live action round conversation message ∧
          (∀ recipient, r.peer? live action.destination = some recipient →
            r'.conversations.HasDirect (ConversationStore.directKey (ConversationStore.newConversation
              (peerConversation live recipient) round.conversationHost)) conversation) ∧
          result = (if action.finish then .finishTurn else .continue, [sentEntry message]))
      (fun e _ => e.IsFault ↔ r.Answerable sha256 live action round) r := by
  unfold performMessage
  rw [wp_bind, wp_lift]
  constructor
  · intro _ hfinish
    -- First the conversation is found or created, then the message is delivered, then the mail is refreshed.
    apply wp_bind_of (wp_and (keeps_messageDestination h hlive action.destination _)
      (wp_messageDestination h hlive action.destination _))
    · rintro conversation r₁ ⟨⟨hkeeps₁, hagents₁, hholds⟩, hfound⟩
      have hcontradicts := ConversationStore.contradicts_congr sha256 hfound.dismissed hfound.messages
        hfound.outbox conversation live.member (action.input round.idempotencyKey)
      -- Whether the message contradicts an earlier one does not depend on the conversation found.
      have hanswerable : r.Answerable sha256 live action round ↔
          ¬ r₁.conversations.Contradicts sha256 conversation live.member
            (action.input round.idempotencyKey) := by
        rw [hcontradicts]
        constructor
        · exact fun hanswer hcontra => (hanswer hfinish).2 ⟨conversation, hfound.target, hcontra⟩
        · rintro hnot -
          refine ⟨hfound.short, ?_⟩
          rintro ⟨conversation', htarget, hcontra⟩
          rw [hfound.target, Option.some.injEq] at htarget
          rw [← htarget] at hcontra
          exact hnot hcontra
      have hnew : round.messageHost.id ∉ r₁.conversations.messages.map ConversationMessage.id := by
        rw [hfound.messages]
        exact hfresh.message
      apply wp_bind_of (wp_and (keeps_deliverMessage hkeeps₁.1 hholds live action round)
        (wp_deliverMessage hkeeps₁.1 hholds live action round))
      · -- The message is delivered, so nothing was against it.
        rintro message r₂ ⟨⟨hkeeps₂, hagents₂⟩, hsingle, hremembers, hstores, hbatches⟩
        apply wp_bind_of (wp_refreshMail hkeeps₂.1 round.mail)
        · intro _ r₃ hmailed
          rw [wp_pure]
          refine ⟨hanswerable.mpr hsingle, hkeeps₁.trans (hkeeps₂.trans hmailed.keeps), conversation,
            message, ⟨hfound.target, ?_, ?_⟩, ?_, rfl⟩
          · exact hmailed.keeps.2.conversations.remembers hremembers
          · unfold Stores at hstores ⊢
            rw [hmailed.same.messages, ← hfound.messages]
            exact hstores
          · intro recipient hpeer
            exact (hkeeps₂.2.trans hmailed.keeps.2).conversations.hasDirect
              (hfound.direct recipient hpeer)
        · -- The mail can be refreshed.
          rintro e r₃ ⟨-, hused⟩
          exfalso
          apply hused
          constructor
          · rw [hbatches, hfound.batches]
            exact hfresh.mail.fresh
          · exact hfresh.mail.distinct
      · -- It is not delivered: the outbox holds another message under the key.
        rintro e r₂ ⟨-, -, hiff⟩
        rw [hiff hnew, hanswerable]
    · -- No conversation was found, so the destination was refused.
      rintro e r₁ ⟨-, -, hrefused⟩
      have hrefused := hrefused hfresh.conversation
      rw [hrefused.isFault_iff]
      constructor
      · rintro hshort -
        refine ⟨hshort, ?_⟩
        rintro ⟨conversation, htarget, -⟩
        rw [hrefused.target (hrefused.isFault_iff.mpr hshort)] at htarget
        cases htarget
      · exact fun hanswer => (hanswer hfinish).1
  · -- A message that ends the task unfinished is refused before anything is done.
    intro e hfinish
    refine iff_of_true (isFault_of_checkFinish hfinish) ?_
    intro hok
    rw [hfinish] at hok
    cases hok

/-! ## Replaying -/

/-- The name of an agent says which it is. -/
theorem agentId_of_agentName {agent agent' : RuntimeAgent} (h : agent.agentName = agent'.agentName) :
    agent.agentId = agent'.agentId := by
  unfold RuntimeAgent.agentName at h
  have hlist := congrArg String.toList h
  rw [String.toList_append, String.toList_append] at hlist
  exact toString_inj (String.toList_injective (List.append_cancel_left hlist))

/-- The agent of a number keeps its owner and its workspace. -/
theorem Extends.same (h : Extends r r') (hsound : r'.Sound policy sha256) {live live' : RuntimeAgent}
    (hlive : live ∈ r.agents) (hlive' : live' ∈ r'.agents) (hid : live'.agentId = live.agentId) :
    live'.ownerId = live.ownerId ∧ live'.workspaceId = live.workspaceId := by
  obtain ⟨agent, hagent, hagentId, howner, hworkspace⟩ := h.agents live hlive
  have hsame : live' = agent := hsound.eq_of_agentId hlive' hagent (hid.trans hagentId.symm)
  rw [hsame]
  exact ⟨howner, hworkspace⟩

/-- A destination that has been found leads to the same conversation later. -/
theorem target?_later (hsound : r''.Sound policy sha256)
    (hextends : Extends r r'') (hgrows : r'.conversations.Grows r''.conversations)
    {live live' : RuntimeAgent} (hlive : live ∈ r.agents) (hlive' : live' ∈ r''.agents)
    (hid : live'.agentId = live.agentId) {destination : String} {host host' : Host}
    {conversation conversation' : RuntimeConversation}
    (htarget : r.target? live destination host = some conversation)
    (hdirect : ∀ recipient, r.peer? live destination = some recipient → r'.conversations.HasDirect
      (ConversationStore.directKey (ConversationStore.newConversation (peerConversation live recipient)
        host)) conversation)
    (htarget' : r''.target? live' destination host' = some conversation') :
    conversation' = conversation := by
  unfold target? at htarget htarget'
  split_ifs at htarget htarget' with hpeer
  · obtain ⟨recipient, hrecipient, -⟩ := Option.map_eq_some_iff.mp htarget
    obtain ⟨recipient', hrecipient', hconversation'⟩ := Option.map_eq_some_iff.mp htarget'
    -- The name is that of one agent, which is the same later.
    have hsameId : recipient'.agentId = recipient.agentId := by
      obtain ⟨name, hname, hfind, -⟩ := peer?_eq_some.mp hrecipient
      obtain ⟨name', hname', hfind', -⟩ := peer?_eq_some.mp hrecipient'
      rw [hname, Option.some.injEq] at hname'
      have hnamed := List.find?_some hfind
      have hnamed' := List.find?_some hfind'
      rw [decide_eq_true_eq] at hnamed hnamed'
      exact agentId_of_agentName (hnamed'.trans (hname'.symm.trans hnamed.symm))
    obtain ⟨howner, hworkspace⟩ := hextends.same hsound hlive hlive' hid
    have hkey : ConversationStore.directKey (ConversationStore.newConversation
          (peerConversation live' recipient') host') =
        ConversationStore.directKey (ConversationStore.newConversation
          (peerConversation live recipient) host) := by
      unfold ConversationStore.directKey ConversationStore.newConversation peerConversation
        RuntimeAgent.member
      dsimp only
      rw [howner, hworkspace, hid, hsameId]
    have hlater := hgrows.hasDirect (hdirect recipient hrecipient)
    rw [← hkey] at hlater
    rw [← hconversation', hlater.conversationFor_eq]
  · obtain ⟨hget, -⟩ := Option.filter_eq_some_iff.mp htarget
    obtain ⟨hget', -⟩ := Option.filter_eq_some_iff.mp htarget'
    have hlater := hextends.conversations.get (toOption_eq_some.mp hget)
    rw [toOption_eq_some.mp hget', Except.ok.injEq] at hlater
    exact hlater

/-- A message that is in the outbox is not sent again. -/
theorem wp_deliverMessage_again (h : r.Sound policy sha256) {conversation : RuntimeConversation}
    (hholds : r.Holds conversation) {live : RuntimeAgent} {action : MessageAction}
    {round : MessageRound} {message : ConversationMessage}
    (hremembers : Remembers sha256 r live (action.input round.idempotencyKey) conversation message) :
    wp (deliverMessage policy sha256 live action round conversation)
      (fun message' r' => message' = message ∧ r' = r) (fun _ _ => True) r := by
  have hget := h.get_eq hholds
  unfold deliverMessage
  rw [wp_bind, wp_get, wp_bind, wp_lift]
  refine ⟨?_, fun _ _ => trivial⟩
  intro limit _
  rw [wp_onStore]
  refine ⟨?_, fun _ _ => trivial⟩
  intro message' s hsend
  obtain ⟨hmessage, hs⟩ := ConversationStore.send_of_remembers hget hremembers hsend
  rw [hs]
  exact ⟨hmessage, rfl⟩

/-- A round that is replayed later gives the same message, and stores none. -/
theorem wp_performMessage_again (hkeeps : Keeps policy sha256 r r')
    (hsound : r''.Sound policy sha256) (hlater : Extends r' r'') {live live' : RuntimeAgent}
    (hlive : live ∈ r.agents) (hlive' : live' ∈ r''.agents) (hid : live'.agentId = live.agentId)
    {action : MessageAction} {round round' : MessageRound}
    (hkey : round'.idempotencyKey = round.idempotencyKey) {conversation : RuntimeConversation}
    {message : ConversationMessage} (hsends : Sends sha256 r r' live action round conversation message)
    (hdirect : ∀ recipient, r.peer? live action.destination = some recipient →
      r'.conversations.HasDirect (ConversationStore.directKey (ConversationStore.newConversation
        (peerConversation live recipient) round.conversationHost)) conversation) :
    wp (performMessage policy sha256 live' action round')
      (fun result r''' =>
        result = (if action.finish then .finishTurn else .continue, [sentEntry message]) ∧
          r'''.conversations.messages = r''.conversations.messages)
      (fun _ _ => True) r'' := by
  unfold performMessage
  rw [wp_bind, wp_lift]
  refine ⟨?_, fun _ _ => trivial⟩
  intro _ _
  apply wp_bind_of (wp_and (keeps_messageDestination hsound hlive' action.destination _)
    (wp_messageDestination hsound hlive' action.destination _))
  · -- The conversation is found again, and the outbox remembers the message.
    rintro conversation' r₁ ⟨⟨hkeeps₁, -, hholds⟩, hfound⟩
    have hsame : conversation' = conversation :=
      target?_later hsound (hkeeps.2.trans hlater) hlater.conversations hlive hlive' hid
        hsends.target hdirect hfound.target
    subst hsame
    have hremembers : Remembers sha256 r₁ live' (action.input round'.idempotencyKey) conversation'
        message := by
      have hfirst := hsends.remembers
      unfold Remembers at hfirst ⊢
      unfold RuntimeAgent.member at hfirst ⊢
      rw [hkey, hid]
      exact (hlater.trans hkeeps₁.2).conversations.remembers hfirst
    apply wp_bind_of (wp_and (keeps_deliverMessage hkeeps₁.1 hholds live' action round')
      (wp_deliverMessage_again hkeeps₁.1 hholds hremembers))
    · rintro message' r₂ ⟨⟨hkeeps₂, -⟩, rfl, rfl⟩
      apply wp_bind_of (wp_refreshMail hkeeps₂.1 round'.mail)
      · intro _ r₃ hmailed
        rw [wp_pure, hmailed.same.messages, hfound.messages]
        exact ⟨rfl, rfl⟩
      · exact fun _ _ _ => trivial
    · exact fun _ _ _ => trivial
  · exact fun _ _ _ => trivial

/-! ## The result -/

/-- The answer to an action: the message is in the store, and however often the round is replayed there
is no other one. -/
structure Answered (policy : ConversationPolicy) (sha256 : String → String) (r r' : Runtime)
    (live : RuntimeAgent) (action : MessageAction) (round : MessageRound)
    (result : ContextDecision × List ContextEntry) : Prop where
  decision : result.1 = if action.finish then .finishTurn else .continue
  message : ∃ conversation message, Sends sha256 r r' live action round conversation message ∧
    result.2 = [sentEntry message]
  once : ∀ r'', (runtimeSystem policy sha256).Later r' r'' →
    ∀ live' ∈ r''.agents, live'.agentId = live.agentId →
      ∀ round' : MessageRound, round'.idempotencyKey = round.idempotencyKey →
        ∀ result' r''', performMessage policy sha256 live' action round' r'' = .ok result' r''' →
          result' = result ∧ r'''.conversations.messages = r''.conversations.messages

/-- What should become of an action: it is answered, or fails for a fault of the agent. -/
def Handled (policy : ConversationPolicy) (sha256 : String → String) (r : Runtime)
    (live : RuntimeAgent) (action : MessageAction) (round : MessageRound) : Prop :=
  match performMessage policy sha256 live action round r with
  | .ok result r' => Answered policy sha256 r r' live action round result
  | .error e _ => e.IsFault

/-- The state after an action is reached by a call. -/
theorem reachable_performMessage (hr : (runtimeSystem policy sha256).Reachable r)
    {live : RuntimeAgent} (hlive : live ∈ r.agents) {action : MessageAction} {round : MessageRound}
    {result : ContextDecision × List ContextEntry}
    (h : performMessage policy sha256 live action round r = .ok result r') :
    (runtimeSystem policy sha256).Reachable r' := by
  apply hr.step
  refine ⟨.performMessage live.agentId action round, trivial, ?_⟩
  have hends : Ends ((RuntimeCall.performMessage live.agentId action round).perform policy sha256)
      (r' = ·) r := by
    show Ends (do
      let r ← get
      let live ← liftM (r.live live.agentId)
      let _ ← performMessage policy sha256 live action round
      pure ()) _ _
    rw [Ends, wp_bind, wp_get, wp_bind, wp_lift, (sound_of_reachable hr).live_eq hlive]
    constructor
    · intro live' heq
      rw [Except.ok.injEq] at heq
      rw [← heq, wp_bind]
      exact (wp_of_eq h).mpr rfl
    · intro e heq
      cases heq
  exact wp_finalState hends

/-- In every reachable state an action is answered or fails for a fault of the agent, if and only if the
runtime can answer it. -/
theorem handled_iff (hr : (runtimeSystem policy sha256).Reachable r) {live : RuntimeAgent}
    (hlive : live ∈ r.agents) {action : MessageAction} {round : MessageRound}
    (hfresh : r.FreshRound round) :
    Handled policy sha256 r live action round ↔ r.Answerable sha256 live action round := by
  have hsound := sound_of_reachable hr
  have hspec := wp_performMessage hsound hlive action hfresh
  unfold Handled
  split
  · next result r' hrun =>
    obtain ⟨hanswerable, hkeeps, conversation, message, hsends, hdirect, hresult⟩ := wp_ok hspec hrun
    refine iff_of_true ?_ hanswerable
    refine ⟨congrArg Prod.fst hresult, ⟨conversation, message, hsends, congrArg Prod.snd hresult⟩, ?_⟩
    intro r'' hlater live' hlive' hid round' hkey result' r''' hrun'
    have hreach := reachable_performMessage hr hlive hrun
    have hagain := wp_performMessage_again hkeeps
      (sound_of_reachable (hreach.later hlater)) (extends_of_later hreach hlater) hlive hlive' hid hkey
      hsends hdirect
    have hsame := wp_ok hagain hrun'
    rw [hresult]
    exact hsame
  · next e r' hrun =>
    have hiff := wp_error hspec hrun
    exact hiff

/-! ## Two agents with long names -/

/-- A name that is accepted. -/
def longName : String := String.ofList (List.replicate 49 'a')

/-- The conversation of the user with an agent of that name. -/
def namedConversation (id : String) (agentId : ℕ) : RuntimeConversation where
  id
  ownerId := "u"
  workspaceId := "w"
  kind := .direct
  title := longName
  members := [.user "u", .agent agentId]
  participation := .all
  createdAt := 0

/-- The row of a direct conversation. -/
def namedRow (id : String) (agentId : ℕ) : ConversationRow :=
  ⟨namedConversation id agentId, ConversationStore.directKey (namedConversation id agentId)⟩

/-- An agent with the longest name. -/
def namedAgent (agentId : ℕ) : RuntimeAgent where
  agentId
  ownerId := "u"
  workspaceId := "w"
  name := some longName

/-- An agent of the user. -/
def oneAgent : Runtime where
  workspaces := ["w"]
  agents := [namedAgent 1]
  lastAgentId := 1
  conversations := {
    conversations := [namedRow "c1" 1]
    mailboxes := [{ agentId := 1, conversationId := "c1" }] }

/-- Two agents of the user. Each name is accepted, and the title of both is one unit too long. -/
def twoAgents : Runtime where
  workspaces := ["w"]
  agents := [namedAgent 1, namedAgent 2]
  lastAgentId := 2
  conversations := {
    conversations := [namedRow "c1" 1, namedRow "c2" 2]
    mailboxes := [{ agentId := 1, conversationId := "c1" }, { agentId := 2, conversationId := "c2" }] }

/-- A round of a new context. -/
def exampleRound : MessageRound where
  idempotencyKey := "k"
  context := {
    level1 := {
      id := "f"
      instructions := []
      currentTask := ⟨"t", "serve"⟩
      taskChain := ⟨0, [], .planning none⟩
      memory := ⟨none, [], [], none⟩
      budget := ⟨560, 500, 400, 5⟩ }
    level2 := none
    level3 := none }
  pendingOperations := 0
  conversationHost := { id := "c3", now := 1 }
  messageHost := { id := "m", now := 1 }
  mail := { needsRun := fun _ => none, host := fun id => { id := toString id, now := 1 } }

/-- The two conversations are different ones. -/
theorem directKey_namedConversation :
    ConversationStore.directKey (namedConversation "c1" 1) ≠
      ConversationStore.directKey (namedConversation "c2" 2) := by
  have hsort : ∀ other : String, ("user:u" ≤ other) = False →
      ["user:u", other].mergeSort (fun a b => decide (a ≤ b)) = [other, "user:u"] := by
    intro other hle
    simp [List.mergeSort, hle]
  show some (String.ofList (stringify (.array [.string "u", .string "w",
      .strings (["user:u", "agent:1"].mergeSort fun a b => decide (a ≤ b))]))) ≠
    some (String.ofList (stringify (.array [.string "u", .string "w",
      .strings (["user:u", "agent:2"].mergeSort fun a b => decide (a ≤ b))])))
  rw [hsort _ (by decide +kernel), hsort _ (by decide +kernel)]
  decide +kernel

/-- The second agent gets a conversation of its own with the user. -/
theorem create_second : oneAgent.conversations.create
    ⟨"u", "w", .direct, longName, [.user "u", .agent 2], .all⟩ { id := "c2", now := 0 } =
      .ok (namedConversation "c2" 2, twoAgents.conversations) := by
  have hnone : (oneAgent.conversations.conversations.find? fun row =>
      (ConversationStore.directKey (namedConversation "c2" 2)).isSome &&
        row.directKey = ConversationStore.directKey (namedConversation "c2" 2)) = none := by
    rw [List.find?_eq_none]
    intro row hrow
    rw [List.mem_singleton.mp hrow, Bool.and_eq_true, decide_eq_true_eq]
    exact fun hsame => directKey_namedConversation hsame.2
  have hchecked : ConversationStore.validateConversation (namedConversation "c2" 2) = .ok () := rfl
  unfold ConversationStore.create
  unfold namedConversation at hnone hchecked
  dsimp only
  rw [hchecked, hnone]
  rfl

/-- The runtime with the two agents is reachable. -/
theorem reachable_twoAgents : (runtimeSystem {} fun text => text).Reachable twoAgents := by
  have hregistered : (runtimeSystem {} fun text => text).Reachable { workspaces := ["w"] } := by
    have hstart : (runtimeSystem {} fun text => text).Reachable {} := .of_init rfl
    exact hstart.step ⟨.registerWorkspace "w", trivial, rfl⟩
  have hone : (runtimeSystem {} fun text => text).Reachable oneAgent :=
    hregistered.step ⟨.createAgent { ownerId := "u", workspaceId := "w", displayName := some longName }
      { id := "c1", now := 0 }, trivial, rfl⟩
  -- The conversation of the second agent is created when the agent is known.
  have hknown : Ends (do
      let _ ← directConversation 2 "u" { id := "c2", now := 0 }
      pure ()) (twoAgents = ·) { twoAgents with conversations := oneAgent.conversations } := by
    unfold directConversation
    rw [Ends, wp_bind, wp_bind, wp_get, wp_bind, wp_lift]
    have howned : Runtime.owned { twoAgents with conversations := oneAgent.conversations } 2 "u" =
        .ok (namedAgent 2) := rfl
    rw [howned]
    constructor
    · intro agent heq
      cases heq
      rw [wp_onStore]
      constructor
      · intro result s hcreate
        cases create_second.symm.trans hcreate
        rfl
      · intro e hcreate
        cases create_second.symm.trans hcreate
    · intro e heq
      cases heq
  exact hone.step ⟨.createAgent { ownerId := "u", workspaceId := "w", displayName := some longName }
    { id := "c2", now := 0 }, trivial, wp_finalState hknown⟩

/-- The round is a new one. -/
theorem fresh_exampleRound : twoAgents.FreshRound exampleRound := by
  constructor
  · decide +kernel
  · decide +kernel
  · constructor
    · intro agentId hmem
      cases hmem
    · exact fun a b hid => toString_inj hid

/-- The user's own conversation with the agent can be written to. -/
theorem handled_iff_twoAgents :
    Handled {} (fun text => text) twoAgents (namedAgent 1) (.sendMessage "c1" "hello" none none true)
      exampleRound := by
  apply (handled_iff reachable_twoAgents List.mem_cons_self fresh_exampleRound).mpr
  intro _
  constructor
  · rintro ⟨recipient, hpeer, -⟩
    have hnone : twoAgents.peer? (namedAgent 1) "c1" = none := by decide +kernel
    cases hnone.symm.trans hpeer
  · rintro ⟨conversation, -, -, existing, hexisting, -⟩
    cases hexisting

/-- A message to the other agent stops the runtime. -/
theorem not_handled_twoAgents :
    (runtimeSystem {} fun text => text).Reachable twoAgents ∧ namedAgent 1 ∈ twoAgents.agents ∧
      twoAgents.FreshRound exampleRound ∧
      ¬ Handled {} (fun text => text) twoAgents (namedAgent 1) (.message "agent-2" "hello")
        exampleRound := by
  refine ⟨reachable_twoAgents, List.mem_cons_self, fresh_exampleRound, ?_⟩
  have hschema : performMessage {} (fun text => text) (namedAgent 1) (.message "agent-2" "hello")
      exampleRound twoAgents = .error .schema twoAgents := rfl
  unfold Handled
  rw [hschema]
  rintro ⟨kind, hkind⟩
  cases hkind

end Runtime

end OsAgent.Conversations
