import OsAgent.Conversations.Messaging

/-!
# Runs of the runtime's conversations

`Runtime.Sound` holds between the calls of the runtime: the members of conversations are agents that the
runtime knows, and every message leaves its receivers the room that sealing it will take. Whether a call
returns or throws, it keeps this, and what is known of agents and stored of conversations stays.
-/

namespace OsAgent.Conversations

open OsAgent.Library

/-! ## What a call of the store changes -/

namespace ConversationStore

variable {s s' : ConversationStore} {policy : ConversationPolicy} {sha256 : String → String}

/-- Neither the conversations nor their messages are changed. -/
structure Same (s s' : ConversationStore) : Prop where
  conversations : s'.conversations = s.conversations
  messages : s'.messages = s.messages
  outbox : s'.outbox = s.outbox

/-- A store holds the same as itself. -/
theorem Same.refl (s : ConversationStore) : Same s s := ⟨rfl, rfl, rfl⟩

/-- To seal a batch changes no conversation and no message. -/
theorem same_sealBatch {agentId maxBytes : ℕ} {host : Host} {result : Option ConversationBatch}
    (h : s.sealBatch agentId maxBytes host = .ok (result, s')) : Same s s' := by
  rcases sealBatch_cases h with ⟨hs, -⟩ | ⟨_, -, _, -, -, -, -, -, -, rfl⟩
  · rw [hs]
    exact Same.refl s
  · exact ⟨rfl, rfl, rfl⟩

/-- To deliver a batch changes no conversation and no message. -/
theorem same_delivered (id : String) : Same s (s.delivered id) := by
  unfold delivered
  split
  · exact Same.refl s
  · split_ifs
    · exact ⟨rfl, rfl, rfl⟩
    · exact Same.refl s

/-- To acknowledge a batch changes no conversation and no message. -/
theorem same_acknowledge {id : String} {now : Timestamp} (h : s.acknowledge id now = .ok s') :
    Same s s' := by
  unfold acknowledge at h
  split at h
  · cases h
    exact Same.refl s
  · split_ifs at h
    · cases h
      exact Same.refl s
    · dsimp only at h
      obtain ⟨conversation, -, h⟩ := bind_eq_ok.mp h
      split at h
      · cases h
        exact ⟨rfl, rfl, rfl⟩
      · cases h
        exact ⟨rfl, rfl, rfl⟩

/-- A batch can be acknowledged. The batches stay the same ones. -/
theorem exists_acknowledge (hvalid : s.Valid) (id : String) (now : Timestamp) :
    ∃ s', s.acknowledge id now = .ok s' ∧
      s'.batches.map ConversationBatch.id = s.batches.map ConversationBatch.id := by
  -- A batch that is not there, or is done, changes nothing.
  cases hbatch : s.batch? id with
  | none =>
    refine ⟨s, ?_, rfl⟩
    unfold acknowledge
    rw [hbatch]
  | some batch =>
    by_cases hdone : batch.status = .done
    · refine ⟨s, ?_, rfl⟩
      unfold acknowledge
      rw [hbatch]
      dsimp only
      rw [if_pos hdone]
    · -- The conversation of the batch is there.
      have hmem := (mem_of_batch? hbatch).1
      obtain ⟨row, hrow, -, hconversation⟩ := hvalid.batches.mailbox batch hmem
      obtain ⟨place, hplace, hplaceId, -⟩ := hvalid.places.member row hrow
      have hget := hvalid.places.get_eq hplace (hplaceId.trans hconversation)
      obtain ⟨rows, hacknowledge⟩ := acknowledge_eq now hbatch hdone hget
      refine ⟨_, hacknowledge, ?_⟩
      unfold saveBatch
      dsimp only
      rw [List.map_map]
      apply List.map_congr_left
      intro b _
      dsimp only [Function.comp_apply]
      split_ifs with hid
      · exact hid.symm
      · rfl

/-- To dismiss an agent changes no conversation and no message. -/
theorem same_dismiss (agentId : ℕ) (s : ConversationStore) : Same s (s.dismiss agentId) := by
  unfold ConversationStore.dismiss closeBatch
  cases s.active agentId <;> exact ⟨rfl, rfl, rfl⟩

/-- A conversation as it is created. -/
def newConversation (input : CreateConversation) (host : Host) : RuntimeConversation where
  id := host.id
  ownerId := input.ownerId
  workspaceId := input.workspaceId
  kind := input.kind
  title := input.title
  members := input.members
  participation := input.participation
  createdAt := host.now

/-- A conversation that is created was there before, or is new. -/
theorem create_cases (hplaces : s.PlacesValid) {input : CreateConversation} {host : Host} {conversation : RuntimeConversation}
    (h : s.create input host = .ok (conversation, s')) :
    (s' = s ∧ ∃ row ∈ s.conversations, row.conversation = conversation ∧
      row.directKey = directKey (newConversation input host) ∧ row.directKey.isSome = true) ∨
    (conversation = newConversation input host ∧
      host.id ∉ s.conversations.map (fun row => row.conversation.id) ∧
      s' = { s with
        conversations := s.conversations ++
          [⟨newConversation input host, directKey (newConversation input host)⟩]
        mailboxes := s.mailboxes ++ newMailboxes (newConversation input host) }) := by
  unfold create at h
  rw [check_bind_eq_ok, check_bind_eq_ok] at h
  obtain ⟨-, -, h⟩ := h
  dsimp only at h
  split at h
  · next row hrow =>
    left
    have hkey := List.find?_some hrow
    rw [Bool.and_eq_true, decide_eq_true_eq] at hkey
    rw [hplaces.get_eq (List.mem_of_find?_eq_some hrow) rfl] at h
    cases h
    exact ⟨rfl, row, List.mem_of_find?_eq_some hrow, rfl, hkey.2,
      by rw [hkey.2]; exact hkey.1⟩
  · rw [check_bind_eq_ok, require_eq_ok, pure_eq_ok] at h
    obtain ⟨hfresh, h⟩ := h
    obtain ⟨rfl, rfl⟩ := Prod.mk.inj h
    exact .inr ⟨rfl, hfresh, rfl⟩

/-- A message that is sent was sent before, or is new. -/
theorem send_result {conversationId : String} {sender : ConversationMember}
    {input : SendConversationMessage} {phase : Option String} {maxDeliveryBytes : Option ℕ}
    {host : Host} {message : ConversationMessage}
    (h : s.send policy sha256 conversationId sender input phase maxDeliveryBytes host =
      .ok (message, s')) :
    (s' = s ∧ message ∈ s.messages) ∨
      (message ∉ s.messages ∧ s'.messages = s.messages ++ [message] ∧
        message.sender = sender ∧ message.conversationId = conversationId ∧
        message.content = input.content ∧
        (∀ limit ∈ maxDeliveryBytes, message.size + 1200 ≤ limit) ∧
        s'.conversations = s.conversations ∧ phaseOf phase host sender = .ok message.phaseId ∧
        ∃ key print, s'.outbox = s.outbox ++ [⟨key, print, message.id⟩]) := by
  rw [send_eq] at h
  obtain ⟨⟨conversation, reply⟩, hcheck, h⟩ := bind_eq_ok.mp h
  have hget := get_of_checkSend hcheck
  obtain ⟨row, -, rfl, hid⟩ := mem_of_get hget
  dsimp only at h
  split at h
  · -- The outbox has the key: the message returned is the stored one.
    left
    rw [check_bind_eq_ok] at h
    obtain ⟨-, h⟩ := h
    split at h
    · next found hfound =>
      rw [pure_eq_ok] at h
      obtain ⟨rfl, rfl⟩ := Prod.mk.inj h
      exact ⟨rfl, List.mem_of_find?_eq_some hfound⟩
    · cases h
  · -- The outbox does not have it: the message is stored, with a place in its phase.
    right
    unfold store at h
    obtain ⟨phaseId, hphase, h⟩ := bind_eq_ok.mp h
    obtain ⟨phases, -, h⟩ := bind_eq_ok.mp h
    rw [check_bind_eq_ok, check_bind_eq_ok, require_eq_ok, require_eq_ok, pure_eq_ok] at h
    obtain ⟨hfresh, hfits, h⟩ := h
    obtain ⟨rfl, rfl⟩ := Prod.mk.inj h
    refine ⟨fun hmem => hfresh (List.mem_map_of_mem hmem), rfl, rfl, hid, rfl, ?_, rfl, hphase, _, _,
      rfl⟩
    intro limit hlimit
    rw [← size_written]
    exact hfits limit hlimit

/-- A message has a phase. -/
theorem phaseOf_ne_empty {phase : Option String} {host : Host} {sender : ConversationMember}
    {phaseId : String} (h : phaseOf phase host sender = .ok phaseId)
    (huser : sender.agent? = none → host.phaseId ≠ "") : phaseId ≠ "" := by
  cases sender with
  | user id =>
    cases h
    exact huser rfl
  | agent id =>
    unfold phaseOf truthy at h
    dsimp only at h
    split at h
    · cases h
    · next found hfound =>
      cases h
      simpa using (Option.mem_filter_iff.mp hfound).2

end ConversationStore

/-! ## What the calls of the runtime keep -/

namespace Runtime

variable {policy : ConversationPolicy} {sha256 : String → String} {r r' r'' : Runtime}

/-- The runtime knows an agent of this number. -/
def Knows (r : Runtime) (id : ℕ) : Prop := ∃ agent ∈ r.agents, agent.agentId = id

/-- What holds of a runtime between two calls. -/
structure Sound (policy : ConversationPolicy) (sha256 : String → String) (r : Runtime) : Prop where
  store : (mailSystem policy sha256).Reachable r.conversations
  numbers : ∀ agent ∈ r.agents, isPositiveInteger agent.agentId = true ∧ agent.agentId ≤ r.lastAgentId
  distinct : (r.agents.map RuntimeAgent.agentId).Nodup
  owners : ∀ agent ∈ r.agents, agent.ownerId ≠ "" ∧ agent.workspaceId ≠ ""
  workspaces : ∀ id ∈ r.workspaces, id ≠ ""
  members : ∀ row ∈ r.conversations.conversations, ∀ id, .agent id ∈ row.conversation.members →
    r.Knows id
  outbox : ∀ row ∈ r.conversations.outbox, ∃ m ∈ r.conversations.messages, m.id = row.messageId
  phases : ∀ m ∈ r.conversations.messages, m.phaseId ≠ ""
  /-- A message leaves its receivers the room that sealing it takes. -/
  room : ∀ m ∈ r.conversations.messages, ∀ row ∈ r.conversations.conversations,
    row.conversation.id = m.conversationId → ∀ agent ∈ r.agents,
      agent.member ∈ row.conversation.members → agent.status ≠ .dismissed →
        m.size + 1200 ≤ agent.maxDeliveryBytes

/-- What is known of agents and stored of conversations stays. -/
structure Extends (r r' : Runtime) : Prop where
  conversations : r.conversations.Grows r'.conversations
  agents : ∀ agent ∈ r.agents, ∃ agent' ∈ r'.agents, agent'.agentId = agent.agentId ∧
    agent'.ownerId = agent.ownerId ∧ agent'.workspaceId = agent.workspaceId

/-- A runtime extends itself. -/
theorem Extends.refl (r : Runtime) : Extends r r :=
  ⟨ConversationStore.Grows.refl _, fun agent h => ⟨agent, h, rfl, rfl, rfl⟩⟩

/-- A runtime with the same agents and conversations extends it. -/
theorem Extends.of_same (hagents : r'.agents = r.agents)
    (hconversations : r'.conversations = r.conversations) : Extends r r' := by
  constructor
  · rw [hconversations]
    exact ConversationStore.Grows.refl _
  · intro agent hagent
    exact ⟨agent, by rwa [hagents], rfl, rfl, rfl⟩

/-- What is extended twice is extended. -/
theorem Extends.trans (h : Extends r r') (h' : Extends r' r'') : Extends r r'' := by
  refine ⟨h.conversations.trans h'.conversations, ?_⟩
  intro agent hagent
  obtain ⟨agent', hagent', hid, howner, hworkspace⟩ := h.agents agent hagent
  obtain ⟨agent'', hagent'', hid', howner', hworkspace'⟩ := h'.agents agent' hagent'
  exact ⟨agent'', hagent'', hid'.trans hid, howner'.trans howner, hworkspace'.trans hworkspace⟩

/-- The store of a sound runtime is valid. -/
theorem Sound.valid (h : r.Sound policy sha256) : r.conversations.Valid :=
  ConversationStore.valid_of_reachable (ConversationStore.reachable_storeSystem h.store)

/-- Agents with one number are the same. -/
theorem Sound.eq_of_agentId (h : r.Sound policy sha256) {agent agent' : RuntimeAgent}
    (hagent : agent ∈ r.agents) (hagent' : agent' ∈ r.agents)
    (hid : agent.agentId = agent'.agentId) : agent = agent' :=
  List.inj_on_of_nodup_map h.distinct hagent hagent' hid

/-- An agent that is known is found. -/
theorem Sound.live_eq (h : r.Sound policy sha256) {agent : RuntimeAgent} (hagent : agent ∈ r.agents) :
    r.live agent.agentId = .ok agent := by
  unfold live
  cases hfind : r.agents.find? fun a => a.agentId = agent.agentId with
  | none =>
    have hnot := List.find?_eq_none.mp hfind agent hagent
    exact absurd (decide_eq_true rfl) hnot
  | some found =>
    have hid := List.find?_some hfind
    rw [decide_eq_true_eq] at hid
    rw [h.eq_of_agentId (List.mem_of_find?_eq_some hfind) hagent hid]

/-- An agent that is found is one of the agents. -/
theorem mem_of_live {id : ℕ} {agent : RuntimeAgent} (h : r.live id = .ok agent) :
    agent ∈ r.agents ∧ agent.agentId = id := by
  unfold live at h
  split at h
  · cases h
  · next found hfound =>
    cases h
    have hid := List.find?_some hfound
    rw [decide_eq_true_eq] at hid
    exact ⟨List.mem_of_find?_eq_some hfound, hid⟩

/-- What the runtime sees to when it calls the store. -/
def Permits (r : Runtime) : StoreCall → Prop
  | .create input _ => ∀ id, .agent id ∈ input.members → r.Knows id
  | .send conversationId sender input phase limit host =>
    (StoreCall.send conversationId sender input phase limit host).OfRuntime r.conversations ∧
      (sender.agent? = none → host.phaseId ≠ "") ∧
      ∀ row ∈ r.conversations.conversations, row.conversation.id = conversationId →
        ∀ agent ∈ r.agents, agent.member ∈ row.conversation.members → agent.status ≠ .dismissed →
          ∃ l, limit = some l ∧ l ≤ agent.maxDeliveryBytes
  | _ => True

/-- What a call of the store changes. -/
inductive StoreChange (r : Runtime) : ConversationStore → Prop
  | same {s : ConversationStore} (h : ConversationStore.Same r.conversations s) : StoreChange r s
  | created {s : ConversationStore} (row : ConversationRow)
      (hconversations : s.conversations = r.conversations.conversations ++ [row])
      (hfresh : row.conversation.id ∉
        r.conversations.conversations.map fun row => row.conversation.id)
      (hmembers : ∀ id, .agent id ∈ row.conversation.members → r.Knows id)
      (hmessages : s.messages = r.conversations.messages)
      (houtbox : s.outbox = r.conversations.outbox) : StoreChange r s
  | sent {s : ConversationStore} (message : ConversationMessage) (out : OutboxRow)
      (hconversations : s.conversations = r.conversations.conversations)
      (hmessages : s.messages = r.conversations.messages ++ [message])
      (houtbox : s.outbox = r.conversations.outbox ++ [out]) (hid : out.messageId = message.id)
      (hphase : message.phaseId ≠ "")
      (hroom : ∀ row ∈ r.conversations.conversations, row.conversation.id = message.conversationId →
        ∀ agent ∈ r.agents, agent.member ∈ row.conversation.members → agent.status ≠ .dismissed →
          message.size + 1200 ≤ agent.maxDeliveryBytes) : StoreChange r s

/-- A call that the runtime makes changes the store in one of these ways. -/
theorem storeChange_after (hvalid : r.conversations.Valid) {call : StoreCall}
    (hpermits : r.Permits call) : StoreChange r (call.after policy sha256 r.conversations) := by
  cases hperform : call.perform policy sha256 r.conversations with
  -- A call that throws stores nothing.
  | error e =>
    unfold StoreCall.after
    rw [hperform]
    exact .same (ConversationStore.Same.refl _)
  | ok s =>
    have hafter : call.after policy sha256 r.conversations = s := by
      unfold StoreCall.after
      rw [hperform]
    rw [hafter]
    -- One case per call of the store.
    cases call with
    | create input host =>
      obtain ⟨⟨conversation, _⟩, hcreate, rfl⟩ := map_eq_ok.mp hperform
      rcases ConversationStore.create_cases hvalid.places hcreate with ⟨hs, -⟩ | ⟨-, hfresh, hs⟩
      · dsimp only
        rw [hs]
        exact .same (ConversationStore.Same.refl _)
      · dsimp only
        rw [hs]
        exact .created _ rfl hfresh hpermits rfl rfl
    | send conversationId sender input phase maxDeliveryBytes host =>
      obtain ⟨⟨message, _⟩, hsend, rfl⟩ := map_eq_ok.mp hperform
      rcases ConversationStore.send_result hsend with
        ⟨hs, -⟩ | ⟨-, hmessages, -, hconversation, -, hfits, hplaces, hphase, key, print, houtbox⟩
      · dsimp only
        rw [hs]
        exact .same (ConversationStore.Same.refl _)
      · refine .sent message _ hplaces hmessages houtbox rfl
          (ConversationStore.phaseOf_ne_empty hphase hpermits.2.1) ?_
        intro row hrow hid agent hagent hmember hstatus
        obtain ⟨l, hl, hle⟩ := hpermits.2.2 row hrow (hid.trans hconversation) agent hagent hmember
          hstatus
        exact (hfits l hl).trans hle
    | sealBatch agentId maxBytes host =>
      obtain ⟨⟨result, _⟩, hseal, rfl⟩ := map_eq_ok.mp hperform
      exact .same (ConversationStore.same_sealBatch hseal)
    | delivered id =>
      cases hperform
      exact .same (ConversationStore.same_delivered id)
    | acknowledge id now => exact .same (ConversationStore.same_acknowledge hperform)
    | dismiss agentId =>
      cases hperform
      exact .same (ConversationStore.same_dismiss agentId _)

/-- Such a change keeps what holds between two calls. -/
theorem Sound.change (h : r.Sound policy sha256) {s : ConversationStore} (hchange : StoreChange r s)
    (hstore : (mailSystem policy sha256).Reachable s) :
    ({ r with conversations := s } : Runtime).Sound policy sha256 := by
  have hvalid := h.valid
  -- One case per kind of change: nothing that counts, a new conversation, a new message.
  cases hchange with
  | same hsame =>
    exact {
      store := hstore
      numbers := h.numbers
      distinct := h.distinct
      owners := h.owners
      workspaces := h.workspaces
      members := by
        dsimp only
        rw [hsame.conversations]
        exact h.members
      outbox := by
        dsimp only
        rw [hsame.outbox, hsame.messages]
        exact h.outbox
      phases := by
        dsimp only
        rw [hsame.messages]
        exact h.phases
      room := by
        dsimp only
        rw [hsame.conversations, hsame.messages]
        exact h.room }
  | created row hconversations hfresh hmembers hmessages houtbox =>
    exact {
      store := hstore
      numbers := h.numbers
      distinct := h.distinct
      owners := h.owners
      workspaces := h.workspaces
      members := by
        dsimp only
        rw [hconversations]
        intro place hplace
        rcases List.mem_append.mp hplace with hold | hnew
        · exact h.members place hold
        · rw [List.mem_singleton.mp hnew]
          exact hmembers
      outbox := by
        dsimp only
        rw [houtbox, hmessages]
        exact h.outbox
      phases := by
        dsimp only
        rw [hmessages]
        exact h.phases
      room := by
        dsimp only
        rw [hconversations, hmessages]
        intro m hm place hplace hid
        rcases List.mem_append.mp hplace with hold | hnew
        · exact h.room m hm place hold hid
        · -- A new conversation has no messages yet.
          obtain ⟨known, hknown, hsame⟩ := hvalid.messages.conversations m hm
          rw [List.mem_singleton.mp hnew] at hid
          have hmem := List.mem_map_of_mem (f := fun row => row.conversation.id) hknown
          exact absurd (hid.trans hsame.symm ▸ hmem) hfresh }
  | sent message out hconversations hmessages houtbox hid hphase hroom =>
    exact {
      store := hstore
      numbers := h.numbers
      distinct := h.distinct
      owners := h.owners
      workspaces := h.workspaces
      members := by
        dsimp only
        rw [hconversations]
        exact h.members
      outbox := by
        dsimp only
        rw [houtbox, hmessages]
        intro row hrow
        rcases List.mem_append.mp hrow with hold | hnew
        · obtain ⟨m, hm, hmid⟩ := h.outbox row hold
          exact ⟨m, List.mem_append_left _ hm, hmid⟩
        · rw [List.mem_singleton.mp hnew]
          exact ⟨message, List.mem_append_right _ (List.mem_singleton_self _), hid.symm⟩
      phases := by
        dsimp only
        rw [hmessages]
        intro m hm
        rcases List.mem_append.mp hm with hold | hnew
        · exact h.phases m hold
        · rw [List.mem_singleton.mp hnew]
          exact hphase
      room := by
        dsimp only
        rw [hconversations, hmessages]
        intro m hm place hplace hplaceId
        rcases List.mem_append.mp hm with hold | hnew
        · exact h.room m hold place hplace hplaceId
        · rw [List.mem_singleton.mp hnew] at hplaceId ⊢
          exact hroom place hplace hplaceId }

/-- What a part of a call keeps. -/
def Keeps (policy : ConversationPolicy) (sha256 : String → String) (r r' : Runtime) : Prop :=
  r'.Sound policy sha256 ∧ Extends r r'

/-- A call of the store that the runtime makes keeps it. -/
theorem Sound.call (h : r.Sound policy sha256) {call : StoreCall} (hpermits : r.Permits call) :
    Keeps policy sha256 r { r with conversations := call.after policy sha256 r.conversations } := by
  constructor
  · apply h.change (storeChange_after h.valid hpermits)
    apply h.store.step
    refine ⟨call, ?_, rfl⟩
    cases call with
    | send => exact hpermits.1
    | _ => exact trivial
  · exact ⟨ConversationStore.grows_after call _, fun agent hagent => ⟨agent, hagent, rfl, rfl, rfl⟩⟩

/-- Changing what is known of an agent keeps its identity and its limit. A dismissed agent stays so. -/
theorem Sound.update (h : r.Sound policy sha256) (id : ℕ) {change : RuntimeAgent → RuntimeAgent}
    (hid : ∀ a, (change a).agentId = a.agentId) (howner : ∀ a, (change a).ownerId = a.ownerId)
    (hworkspace : ∀ a, (change a).workspaceId = a.workspaceId)
    (hlimit : ∀ a, (change a).maxDeliveryBytes = a.maxDeliveryBytes)
    (hstatus : ∀ a, a.status = .dismissed → (change a).status = .dismissed) :
    Keeps policy sha256 r (r.update id change) := by
  -- The agent is the one changed, or another one.
  let f : RuntimeAgent → RuntimeAgent := fun a => if a.agentId = id then change a else a
  have hsame : ∀ a, (f a).agentId = a.agentId ∧ (f a).ownerId = a.ownerId ∧
      (f a).workspaceId = a.workspaceId ∧ (f a).maxDeliveryBytes = a.maxDeliveryBytes ∧
      (a.status = .dismissed → (f a).status = .dismissed) := by
    intro a
    by_cases ha : a.agentId = id
    · have hf : f a = change a := if_pos ha
      rw [hf]
      exact ⟨hid a, howner a, hworkspace a, hlimit a, hstatus a⟩
    · have hf : f a = a := if_neg ha
      rw [hf]
      exact ⟨rfl, rfl, rfl, rfl, fun hd => hd⟩
  have hmem : ∀ a', a' ∈ (r.update id change).agents ↔ ∃ a ∈ r.agents, f a = a' := by
    intro a'
    exact List.mem_map
  -- Each condition is that of the agent before the change.
  constructor
  · exact {
      store := h.store
      numbers := by
        intro a' ha'
        obtain ⟨a, ha, rfl⟩ := (hmem a').mp ha'
        rw [(hsame a).1]
        exact h.numbers a ha
      distinct := by
        have hmap : (r.update id change).agents.map RuntimeAgent.agentId =
            r.agents.map RuntimeAgent.agentId := by
          unfold Runtime.update
          rw [List.map_map]
          exact List.map_congr_left fun a _ => (hsame a).1
        rw [hmap]
        exact h.distinct
      owners := by
        intro a' ha'
        obtain ⟨a, ha, rfl⟩ := (hmem a').mp ha'
        rw [(hsame a).2.1, (hsame a).2.2.1]
        exact h.owners a ha
      workspaces := h.workspaces
      members := by
        intro row hrow id' hid'
        obtain ⟨a, ha, hknown⟩ := h.members row hrow id' hid'
        exact ⟨f a, (hmem _).mpr ⟨a, ha, rfl⟩, (hsame a).1.trans hknown⟩
      outbox := h.outbox
      phases := h.phases
      room := by
        intro m hm row hrow hrowId a' ha' hmember hactive
        obtain ⟨a, ha, rfl⟩ := (hmem a').mp ha'
        obtain ⟨hida, -, -, hlimita, hstatusa⟩ := hsame a
        unfold RuntimeAgent.member at hmember
        rw [hida] at hmember
        rw [hlimita]
        exact h.room m hm row hrow hrowId a ha hmember fun hd => hactive (hstatusa hd) }
  · -- The others are there as before, and the agent with its identity.
    refine ⟨ConversationStore.Grows.refl _, ?_⟩
    intro a ha
    exact ⟨f a, (hmem _).mpr ⟨a, ha, rfl⟩, (hsame a).1, (hsame a).2.1, (hsame a).2.2.1⟩

/-! ## Limits and mail -/

/-- The agents of a conversation that are known have a limit, which is within that of each of them. -/
theorem Sound.deliveryLimit (h : r.Sound policy sha256) {conversation : RuntimeConversation}
    (hmembers : ∀ id, .agent id ∈ conversation.members → r.Knows id) :
    ∃ limit, r.deliveryLimit conversation = .ok limit ∧
      ∀ agent ∈ r.agents, agent.member ∈ conversation.members → agent.status ≠ .dismissed →
        ∃ l, limit = some l ∧ l ≤ agent.maxDeliveryBytes := by
  -- The limit of an agent that is known is its own.
  have hagent : ∀ agent ∈ r.agents, r.limitOf agent.member =
      .ok (if agent.status = .dismissed then none else some agent.maxDeliveryBytes) := by
    intro agent hagent
    show (do
      let a ← r.live agent.agentId
      pure (if a.status = AgentStatus.dismissed then none else some a.maxDeliveryBytes)) = _
    rw [h.live_eq hagent]
    rfl
  obtain ⟨limits, hlimits⟩ : ∃ limits, conversation.members.mapM r.limitOf = .ok limits := by
    apply exists_mapM_eq_ok
    intro member hmember
    cases member with
    | user id => exact ⟨none, rfl⟩
    | agent id =>
      obtain ⟨agent, hknown, rfl⟩ := hmembers id hmember
      exact ⟨_, hagent agent hknown⟩
  -- The limit of the conversation is the least of those.
  have hlimit : r.deliveryLimit conversation = .ok (limits.filterMap id).min? := by
    unfold Runtime.deliveryLimit
    rw [hlimits]
    rfl
  refine ⟨_, hlimit, ?_⟩
  intro agent hknown hmember hstatus
  obtain ⟨limit, hlimit, heq⟩ := exists_right_of_mem (mapM_eq_ok.mp hlimits) hmember
  rw [hagent agent hknown, if_neg hstatus, Except.ok.injEq] at heq
  have hmem : agent.maxDeliveryBytes ∈ limits.filterMap id := by
    rw [List.mem_filterMap]
    exact ⟨limit, hlimit, heq.symm⟩
  obtain ⟨l, hl⟩ := Option.isSome_iff_exists.mp
    (List.isSome_min?_of_mem hmem)
  exact ⟨l, hl, (List.min?_eq_some_iff.mp hl).2 _ hmem⟩

/-- A mailbox of an active agent can be sealed: there is a message that is due, and room for it. -/
theorem Sound.sealBatch (h : r.Sound policy sha256) {agent : RuntimeAgent} (hagent : agent ∈ r.agents)
    (hstatus : agent.status ≠ .dismissed) {host : Host}
    (hfresh : "chat:" ++ host.id ∉ r.conversations.batches.map ConversationBatch.id) :
    ∃ result, r.conversations.sealBatch agent.agentId agent.maxDeliveryBytes host = .ok result := by
  have hvalid := h.valid
  by_cases hdismissed : r.conversations.isDismissed agent.agentId = true
  · unfold ConversationStore.sealBatch
    rw [if_pos hdismissed]
    exact ⟨_, rfl⟩
  cases hactive : r.conversations.active agent.agentId with
  | some batch =>
    unfold ConversationStore.sealBatch
    rw [if_neg hdismissed, hactive]
    exact ⟨_, rfl⟩
  | none =>
    cases hnext : r.conversations.nextMailbox agent.agentId host.now with
    | none =>
      unfold ConversationStore.sealBatch
      unfold ConversationStore.nextMailbox at hnext
      rw [if_neg hdismissed, hactive]
      dsimp only
      rw [hnext]
      exact ⟨_, rfl⟩
    | some row =>
      -- The mailbox is that of the agent, and it is due.
      unfold ConversationStore.nextMailbox at hnext
      obtain ⟨hrow, hdue⟩ := List.mem_filter.mp (List.mem_mergeSort.mp (List.mem_of_head? hnext))
      rw [Bool.and_eq_true, decide_eq_true_eq] at hdue
      obtain ⟨hrowAgent, hrowDue⟩ := hdue
      have hsome : row.dueAt.isSome = true := by
        cases hat : row.dueAt with
        | none =>
          rw [hat] at hrowDue
          cases hrowDue
        | some at' => rfl
      obtain ⟨m, hm, hbeyond, -⟩ := hvalid.due hrow hsome
      have hwaiting : r.conversations.waiting agent.agentId host.now =
          r.conversations.messagesAfter row.conversationId row.processed := by
        unfold ConversationStore.waiting ConversationStore.nextMailbox
        rw [if_neg (by simp [hdismissed, hactive]), hnext]
      -- The first message that waits leaves room for itself.
      obtain ⟨place, hplace, hplaceId, hmember⟩ := hvalid.places.member row hrow
      have hmessage : m ∈ r.conversations.messagesAfter row.conversationId row.processed := by
        obtain ⟨hmem, hconversation⟩ := List.mem_filter.mp hm
        rw [decide_eq_true_eq] at hconversation
        exact ConversationStore.mem_messagesAfter.mpr ⟨hmem, hconversation, hbeyond⟩
      obtain ⟨first, rest, hlist⟩ := List.exists_cons_of_ne_nil (List.ne_nil_of_mem hmessage)
      have hfirst : first ∈ r.conversations.messagesAfter row.conversationId row.processed := by
        rw [hlist]
        exact List.mem_cons_self
      obtain ⟨hfirstMem, hfirstId, -⟩ := ConversationStore.mem_messagesAfter.mp hfirst
      rw [hrowAgent] at hmember
      have hroom := h.room first hfirstMem place hplace (hplaceId.trans hfirstId.symm) agent hagent
        hmember hstatus
      have hhead : (r.conversations.waiting agent.agentId host.now).head? = some first := by
        rw [hwaiting, hlist]
        rfl
      have htaken := ConversationStore.head?_select hhead hroom
      have hne : ConversationStore.select agent.maxDeliveryBytes 800 0
          (r.conversations.waiting agent.agentId host.now) ≠ [] := by
        intro hempty
        rw [hempty] at htaken
        cases htaken
      obtain ⟨batch, s, -, hseal⟩ := ConversationStore.exists_sealBatch hne hfresh
      exact ⟨_, hseal⟩

/-- Delivering mail changes neither the agents nor the conversations and their messages. -/
structure Mailed (policy : ConversationPolicy) (sha256 : String → String) (r r' : Runtime) : Prop where
  sound : r'.Sound policy sha256
  agents : r'.agents = r.agents
  same : r.conversations.Same r'.conversations

/-- Without mail a runtime is as it was. -/
theorem Mailed.refl (h : r.Sound policy sha256) : Mailed policy sha256 r r :=
  ⟨h, rfl, ConversationStore.Same.refl _⟩

/-- Mail after mail. -/
theorem Mailed.trans (h : Mailed policy sha256 r r') (h' : Mailed policy sha256 r' r'') :
    Mailed policy sha256 r r'' :=
  ⟨h'.sound, h'.agents.trans h.agents, h'.same.conversations.trans h.same.conversations,
    h'.same.messages.trans h.same.messages, h'.same.outbox.trans h.same.outbox⟩

/-- Mail keeps what a runtime has. -/
theorem Mailed.keeps (h : Mailed policy sha256 r r') : Keeps policy sha256 r r' := by
  refine ⟨h.sound, ⟨?_, ?_, ?_⟩, ?_⟩
  · exact prefix_of_eq h.same.conversations
  · exact prefix_of_eq h.same.messages
  · exact prefix_of_eq h.same.outbox
  · intro agent hagent
    exact ⟨agent, by rwa [h.agents], rfl, rfl, rfl⟩

/-- The identities of the batches. -/
def batchIds (r : Runtime) : List String := r.conversations.batches.map ConversationBatch.id

/-- A method of the store within a program. -/
theorem wp_onStore {α : Type} {method : ConversationStore → Except StoreError (α × ConversationStore)}
    {Q : α → Runtime → Prop} {E : StoreError → Runtime → Prop} :
    wp (onStore method) Q E r ↔
      (∀ result s, method r.conversations = .ok (result, s) → Q result { r with conversations := s }) ∧
        ∀ e, method r.conversations = .error e → E e r := by
  unfold onStore
  simp only [wp_bind, wp_get, wp_lift, wp_set, wp_pure, Prod.forall]

/-- Acknowledging a batch is mail. -/
theorem Sound.acknowledged (h : r.Sound policy sha256) {id : String} {now : Timestamp}
    {s : ConversationStore} (hacknowledge : r.conversations.acknowledge id now = .ok s) :
    Mailed policy sha256 r { r with conversations := s } := by
  have hsame := ConversationStore.same_acknowledge hacknowledge
  refine ⟨h.change (.same hsame) ?_, rfl, hsame⟩
  apply h.store.step
  refine ⟨.acknowledge id now, trivial, ?_⟩
  unfold StoreCall.after StoreCall.perform
  dsimp only
  rw [hacknowledge]

/-- Sealing a batch is mail. -/
theorem Sound.sealed (h : r.Sound policy sha256) {agentId maxBytes : ℕ} {host : Host}
    {result : Option ConversationBatch} {s : ConversationStore}
    (hseal : r.conversations.sealBatch agentId maxBytes host = .ok (result, s)) :
    Mailed policy sha256 r { r with conversations := s } := by
  have hsame := ConversationStore.same_sealBatch hseal
  refine ⟨h.change (.same hsame) ?_, rfl, hsame⟩
  apply h.store.step
  refine ⟨.sealBatch agentId maxBytes host, trivial, ?_⟩
  unfold StoreCall.after StoreCall.perform
  dsimp only
  rw [hseal]
  rfl

/-- A mailbox is sealed, unless the host gives the identity of a batch that there is already. -/
theorem wp_sealBatch (h : r.Sound policy sha256) {agent : RuntimeAgent} (hagent : agent ∈ r.agents)
    (hstatus : agent.status ≠ .dismissed) (host : Host) :
    wp (onStore fun s => s.sealBatch agent.agentId agent.maxDeliveryBytes host)
      (fun _ r' => Mailed policy sha256 r r' ∧
        ∀ id ∈ r'.batchIds, id ∈ r.batchIds ∨ id = "chat:" ++ host.id)
      (fun _ r' => r' = r ∧ "chat:" ++ host.id ∈ r.batchIds) r := by
  rw [wp_onStore]
  constructor
  · intro result s hseal
    refine ⟨h.sealed hseal, ?_⟩
    intro id hid
    unfold batchIds at hid ⊢
    dsimp only at hid
    rcases ConversationStore.sealBatch_cases hseal with ⟨hs, -⟩ | ⟨_, -, _, -, -, -, -, -, -, hs⟩
    · rw [hs] at hid
      exact .inl hid
    · rw [hs, List.map_append] at hid
      rcases List.mem_append.mp hid with hold | hnew
      · exact .inl hold
      · exact .inr (List.mem_singleton.mp hnew)
  · intro e herror
    refine ⟨rfl, ?_⟩
    by_contra hfresh
    obtain ⟨result, hok⟩ := h.sealBatch hagent hstatus hfresh
    rw [hok] at herror
    cases herror

/-- A mailbox is refreshed, unless the host gives the identity of a batch that there is already. -/
theorem wp_refreshAgent (h : r.Sound policy sha256) {agent : RuntimeAgent} (hagent : agent ∈ r.agents)
    (hstatus : agent.status ≠ .dismissed) (needsRun : Bool) (host : Host) :
    wp (refreshAgent agent needsRun host)
      (fun _ r' => Mailed policy sha256 r r' ∧
        ∀ id ∈ r'.batchIds, id ∈ r.batchIds ∨ id = "chat:" ++ host.id)
      (fun _ r' => Mailed policy sha256 r r' ∧ "chat:" ++ host.id ∈ r.batchIds) r := by
  unfold refreshAgent
  rw [wp_bind, wp_get]
  dsimp only
  -- Whether a batch has been acknowledged or not, the same batches are there afterwards.
  apply wp_bind_of (R := fun _ r' => Mailed policy sha256 r r' ∧ r'.batchIds = r.batchIds)
    (F := fun _ _ => False)
  · unfold acknowledgeFinished
    split
    · next batch hbatch =>
      rw [wp_onStore]
      obtain ⟨s, hs, hids⟩ := ConversationStore.exists_acknowledge h.valid batch.id host.now
      constructor
      · intro _ s' hs'
        rw [hs] at hs'
        cases hs'
        exact ⟨h.acknowledged hs, hids⟩
      · intro e he
        rw [hs] at he
        cases he
    · exact ⟨Mailed.refl h, rfl⟩
  · intro _ r' hmailed
    obtain ⟨hmailed, hids⟩ := hmailed
    rw [wp_ite]
    split_ifs
    · rw [wp_bind]
      have hagent' : agent ∈ r'.agents := by rwa [hmailed.agents]
      apply wp_mono (wp_sealBatch hmailed.sound hagent' hstatus host)
      · rintro _ r'' ⟨hsealed, hnew⟩
        rw [hids] at hnew
        exact ⟨hmailed.trans hsealed, hnew⟩
      · rintro _ _ ⟨rfl, hold⟩
        rw [hids] at hold
        exact ⟨hmailed, hold⟩
    · rw [wp_pure, hids]
      exact ⟨hmailed, fun id hid => .inl hid⟩
  · exact fun _ _ hfalse => hfalse.elim

/-- The identity of a batch tells the identity that the host gave. -/
theorem eq_of_chat {a b : String} (h : "chat:" ++ a = "chat:" ++ b) : a = b := by
  have hlist := congrArg String.toList h
  rw [String.toList_append, String.toList_append] at hlist
  exact String.toList_injective (List.append_cancel_left hlist)

/-- The mail is refreshed, unless the host gives an identity twice. -/
theorem wp_refreshMail (h : r.Sound policy sha256) (mail : Mail) :
    wp (refreshMail mail) (fun _ r' => Mailed policy sha256 r r')
      (fun _ r' => Mailed policy sha256 r r' ∧ ¬ mail.Fresh r) r := by
  unfold refreshMail
  rw [wp_bind, wp_get]
  refine wp_mono (wp_forM (E := fun _ r' => Mailed policy sha256 r r' ∧ ¬ mail.Fresh r)
    (I := fun rest r' => Mailed policy sha256 r r' ∧ rest ⊆ r.agents ∧
      (rest.map RuntimeAgent.agentId).Nodup ∧
      (mail.Fresh r → ∀ agent ∈ rest, "chat:" ++ (mail.host agent.agentId).id ∉ r'.batchIds))
    (l := r.agents) ?_ ?_) (fun _ _ hdone => hdone.1) (fun _ _ herror => herror)
  · rintro agent rest r' ⟨hmailed, hsub, hnodup, hfresh⟩
    have hagent : agent ∈ r.agents := hsub List.mem_cons_self
    rw [List.map_cons, List.nodup_cons] at hnodup
    have hpass : Mailed policy sha256 r r' ∧ rest ⊆ r.agents ∧
        (rest.map RuntimeAgent.agentId).Nodup ∧
        (mail.Fresh r → ∀ agent ∈ rest, "chat:" ++ (mail.host agent.agentId).id ∉ r'.batchIds) :=
      ⟨hmailed, fun a ha => hsub (List.mem_cons_of_mem _ ha), hnodup.2,
        fun hall a ha => hfresh hall a (List.mem_cons_of_mem _ ha)⟩
    cases mail.needsRun agent.agentId with
    | none => exact hpass
    | some needsRun =>
      dsimp only
      rw [wp_ite]
      split_ifs with hactive
      · have hstatus : agent.status ≠ .dismissed := by
          rw [hactive]
          decide
        apply wp_mono (wp_refreshAgent hmailed.sound (by rwa [hmailed.agents]) hstatus needsRun
          (mail.host agent.agentId))
        · rintro _ r'' ⟨hmore, hids⟩
          refine ⟨hmailed.trans hmore, hpass.2.1, hnodup.2, ?_⟩
          intro hall a ha hid
          -- A batch that is there now was there before, or has the identity of this agent's.
          rcases hids _ hid with hold | hnew
          · exact hpass.2.2.2 hall a ha hold
          · have hsame := hall.distinct _ _ (eq_of_chat hnew)
            exact hnodup.1 (List.mem_map.mpr ⟨a, ha, hsame⟩)
        · rintro _ r'' ⟨hmore, hold⟩
          exact ⟨hmailed.trans hmore, fun hall => hfresh hall agent List.mem_cons_self hold⟩
      · exact hpass
  · exact ⟨Mailed.refl h, List.Subset.refl _, h.distinct, fun hall agent _ => hall.fresh agent.agentId⟩

/-! ## What the calls of the runtime keep -/

/-- A known agent's conversation with a peer. -/
theorem permits_peer {live recipient : RuntimeAgent} (hlive : live ∈ r.agents)
    (hrecipient : recipient ∈ r.agents) (host : Host) :
    r.Permits (.create (peerConversation live recipient) host) := by
  intro id hid
  unfold peerConversation RuntimeAgent.member at hid
  dsimp only at hid
  rw [List.mem_cons, List.mem_singleton] at hid
  rcases hid with hid | hid
  · cases hid
    exact ⟨live, hlive, rfl⟩
  · cases hid
    exact ⟨recipient, hrecipient, rfl⟩

/-- The conversation is in the store. -/
def Holds (r : Runtime) (conversation : RuntimeConversation) : Prop :=
  ∃ row ∈ r.conversations.conversations, row.conversation = conversation

/-- A conversation that is held is found. -/
theorem Sound.get_eq (h : r.Sound policy sha256) {conversation : RuntimeConversation}
    (hholds : r.Holds conversation) : r.conversations.get conversation.id = .ok conversation := by
  obtain ⟨row, hrow, rfl⟩ := hholds
  exact h.valid.places.get_eq hrow rfl

/-- The agents of a conversation that is held are known. -/
theorem Holds.knows (h : r.Sound policy sha256) {conversation : RuntimeConversation}
    (hholds : r.Holds conversation) : ∀ id, .agent id ∈ conversation.members → r.Knows id := by
  obtain ⟨row, hrow, rfl⟩ := hholds
  exact h.members row hrow

/-- Creating a conversation of agents that are known keeps the runtime, and the conversation is in the
store. -/
theorem wp_create (h : r.Sound policy sha256) {input : CreateConversation} {host : Host}
    (hmembers : ∀ id, .agent id ∈ input.members → r.Knows id) :
    wp (onStore fun s => s.create input host)
      (fun conversation r' => Keeps policy sha256 r r' ∧ r'.agents = r.agents ∧ r'.Holds conversation)
      (fun _ r' => r' = r) r := by
  rw [wp_onStore]
  constructor
  · intro conversation s hcreate
    have hafter : StoreCall.after policy sha256 (.create input host) r.conversations = s := by
      unfold StoreCall.after StoreCall.perform
      dsimp only
      rw [hcreate]
      rfl
    have hpermits : r.Permits (.create input host) := hmembers
    have hkeeps := h.call hpermits
    rw [hafter] at hkeeps
    refine ⟨hkeeps, rfl, ?_⟩
    rcases ConversationStore.create_cases h.valid.places hcreate with
      ⟨rfl, row, hrow, hsame, -, -⟩ | ⟨rfl, -, rfl⟩
    · exact ⟨row, hrow, hsame⟩
    · exact ⟨_, List.mem_append_right _ (List.mem_singleton_self _), rfl⟩
  · exact fun _ _ => rfl

/-- Finding the destination keeps the runtime, and the conversation is in the store. -/
theorem keeps_messageDestination (h : r.Sound policy sha256) {live : RuntimeAgent}
    (hlive : live ∈ r.agents) (destination : String) (host : Host) :
    wp (messageDestination live destination host)
      (fun conversation r' => Keeps policy sha256 r r' ∧ r'.agents = r.agents ∧ r'.Holds conversation)
      (fun _ r' => r' = r) r := by
  unfold messageDestination
  rw [wp_bind, wp_get]
  split
  · split
    · next recipient hrecipient =>
      rw [wp_ite]
      split_ifs
      · exact wp_create h (permits_peer hlive (List.mem_of_find?_eq_some hrecipient) host)
      · rfl
    · rfl
  · split
    · rfl
    · next conversation hget =>
      rw [wp_bind, wp_lift]
      obtain ⟨row, hrow, hsame, -⟩ := ConversationStore.mem_of_get hget
      exact ⟨fun _ _ => ⟨⟨h, Extends.refl r⟩, rfl, row, hrow, hsame⟩, fun _ _ => rfl⟩

/-- Sending within the limit of a conversation keeps the runtime. -/
theorem keeps_send (h : r.Sound policy sha256) {conversation : RuntimeConversation}
    (hholds : r.Holds conversation) {sender : ConversationMember} {input : SendConversationMessage}
    {phase : Option String} {limit : Option ℕ} {host : Host}
    (hlimit : r.deliveryLimit conversation = .ok limit)
    (hidentified : sender.agent? = none → host.phaseId ≠ "")
    (hphase : (StoreCall.send conversation.id sender input phase limit host).OfRuntime
      r.conversations) :
    wp (onStore fun s => s.send policy sha256 conversation.id sender input phase limit host)
      (fun _ r' => Keeps policy sha256 r r' ∧ r'.agents = r.agents) (fun _ r' => r' = r) r := by
  rw [wp_onStore]
  constructor
  · intro message s hsend
    have hafter : StoreCall.after policy sha256
        (.send conversation.id sender input phase limit host) r.conversations = s := by
      unfold StoreCall.after StoreCall.perform
      dsimp only
      rw [hsend]
      rfl
    have hpermits : r.Permits (.send conversation.id sender input phase limit host) := by
      refine ⟨hphase, hidentified, ?_⟩
      intro row hrow hid
      -- The row is that of the conversation, whose limit was computed.
      obtain ⟨place, hplace, rfl⟩ := hholds
      rw [h.valid.places.eq_of_id hrow hplace hid]
      obtain ⟨limit', hlimit', hwithin⟩ := h.deliveryLimit (h.members place hplace)
      rw [hlimit, Except.ok.injEq] at hlimit'
      rw [hlimit']
      exact hwithin
    have hkeeps := h.call hpermits
    rw [hafter] at hkeeps
    exact ⟨hkeeps, rfl⟩
  · exact fun _ _ => rfl

/-- What is kept twice is kept. -/
theorem Keeps.trans (h : Keeps policy sha256 r r') (h' : Keeps policy sha256 r' r'') :
    Keeps policy sha256 r r'' :=
  ⟨h'.1, h.2.trans h'.2⟩

/-- To refresh the mail keeps what a runtime has. -/
theorem keeps_refreshMail (h : r.Sound policy sha256) (mail : Mail) :
    Ends (refreshMail mail) (Keeps policy sha256 r) r :=
  wp_mono (wp_refreshMail h mail) (fun _ _ hmailed => hmailed.keeps) fun _ _ herror => herror.1.keeps

/-- Sending the message keeps the runtime. -/
theorem keeps_deliverMessage (h : r.Sound policy sha256) {conversation : RuntimeConversation}
    (hholds : r.Holds conversation) (live : RuntimeAgent) (action : MessageAction)
    (round : MessageRound) :
    wp (deliverMessage policy sha256 live action round conversation)
      (fun _ r' => Keeps policy sha256 r r' ∧ r'.agents = r.agents) (fun _ r' => r' = r) r := by
  obtain ⟨limit, hlimit, -⟩ := h.deliveryLimit (hholds.knows h)
  unfold deliverMessage
  rw [wp_bind, wp_get, wp_bind, wp_lift, hlimit]
  constructor
  · intro limit' heq
    rw [Except.ok.injEq] at heq
    rw [← heq]
    exact keeps_send h hholds hlimit (fun hnone => by cases hnone) rfl
  · intro e heq
    cases heq

/-- Handling the action keeps the runtime. -/
theorem keeps_performMessage (h : r.Sound policy sha256) {live : RuntimeAgent}
    (hlive : live ∈ r.agents) (action : MessageAction) (round : MessageRound) :
    Ends (performMessage policy sha256 live action round) (Keeps policy sha256 r) r := by
  have hsame : Keeps policy sha256 r r := ⟨h, Extends.refl r⟩
  unfold performMessage
  rw [Ends, wp_bind, wp_lift]
  constructor
  · intro _ _
    apply wp_bind_of (keeps_messageDestination h hlive action.destination round.conversationHost)
    · rintro conversation r₁ ⟨hkeeps₁, -, hholds⟩
      apply wp_bind_of (keeps_deliverMessage hkeeps₁.1 hholds live action round)
      · rintro message r₂ ⟨hkeeps₂, -⟩
        apply wp_bind_of (keeps_refreshMail hkeeps₂.1 round.mail)
        · exact fun _ r₃ hkeeps₃ => hkeeps₁.trans (hkeeps₂.trans hkeeps₃)
        · exact fun _ r₃ hkeeps₃ => hkeeps₁.trans (hkeeps₂.trans hkeeps₃)
      · rintro _ _ rfl
        exact hkeeps₁
    · rintro _ _ rfl
      exact hsame
  · exact fun _ _ => hsame

/-- A new agent is a member of no conversation yet. -/
theorem keeps_addAgent (h : r.Sound policy sha256) {agent : RuntimeAgent}
    (hid : agent.agentId = r.lastAgentId + 1) (hpositive : isPositiveInteger agent.agentId = true)
    (howner : agent.ownerId ≠ "") (hworkspace : agent.workspaceId ≠ "") :
    Keeps policy sha256 r
      { r with lastAgentId := r.lastAgentId + 1, agents := r.agents ++ [agent] } := by
  -- An agent is an old one or the new one.
  have hnew : ∀ a ∈ r.agents ++ [agent], a ∈ r.agents ∨ a = agent := by
    intro a ha
    rcases List.mem_append.mp ha with hold | hlast
    · exact .inl hold
    · exact .inr (List.mem_singleton.mp hlast)
  constructor
  · exact {
      store := h.store
      numbers := by
        intro a ha
        dsimp only at ha ⊢
        rcases hnew a ha with hold | rfl
        · have hnumbers := h.numbers a hold
          exact ⟨hnumbers.1, by omega⟩
        · exact ⟨hpositive, by omega⟩
      distinct := by
        dsimp only
        rw [List.map_append, List.map_singleton]
        apply List.Nodup.append h.distinct (List.nodup_singleton _)
        intro id hold hlast
        obtain ⟨a, ha, rfl⟩ := List.mem_map.mp hold
        have hle := (h.numbers a ha).2
        rw [List.mem_singleton.mp hlast, hid] at hle
        omega
      owners := by
        intro a ha
        rcases hnew a ha with hold | rfl
        · exact h.owners a hold
        · exact ⟨howner, hworkspace⟩
      workspaces := h.workspaces
      members := by
        intro row hrow id hmember
        obtain ⟨a, ha, hknown⟩ := h.members row hrow id hmember
        exact ⟨a, List.mem_append_left _ ha, hknown⟩
      outbox := h.outbox
      phases := h.phases
      room := by
        intro m hm row hrow hrowId a ha hmember hstatus
        rcases hnew a ha with hold | rfl
        · exact h.room m hm row hrow hrowId a hold hmember hstatus
        · -- The new agent is a member nowhere: its number is larger than those known.
          obtain ⟨known, hknown, hsame⟩ := h.members row hrow a.agentId hmember
          have hle := (h.numbers known hknown).2
          rw [hsame, hid] at hle
          omega }
  · exact ⟨ConversationStore.Grows.refl _,
      fun a ha => ⟨a, List.mem_append_left _ ha, rfl, rfl, rfl⟩⟩

/-- An agent of an owner is one of the agents. -/
theorem mem_of_owned {id : ℕ} {owner : String} {agent : RuntimeAgent}
    (h : r.owned id owner = .ok agent) :
    agent ∈ r.agents ∧ agent.agentId = id ∧ agent.ownerId = owner := by
  unfold owned at h
  obtain ⟨found, hfound, h⟩ := bind_eq_ok.mp h
  rw [check_bind_eq_ok, require_eq_ok, pure_eq_ok] at h
  obtain ⟨howner, rfl⟩ := h
  obtain ⟨hmem, hid⟩ := mem_of_live hfound
  exact ⟨hmem, hid, howner⟩

/-- To find the direct conversation keeps what a runtime has. -/
theorem keeps_directConversation (h : r.Sound policy sha256) (id : ℕ) (owner : String)
    (host : Host) : Ends (directConversation id owner host) (Keeps policy sha256 r) r := by
  have hsame : Keeps policy sha256 r r := ⟨h, Extends.refl r⟩
  unfold directConversation
  rw [Ends, wp_bind, wp_get, wp_bind, wp_lift]
  constructor
  · intro agent hagent
    obtain ⟨hmem, -, -⟩ := mem_of_owned hagent
    apply wp_mono (wp_create h ?_)
    · exact fun _ _ hcreated => hcreated.1
    · rintro _ _ rfl
      exact hsame
    · intro number hmember
      dsimp only at hmember
      rw [List.mem_cons, List.mem_singleton] at hmember
      rcases hmember with huser | hmember
      · cases huser
      · cases hmember
        exact ⟨agent, hmem, rfl⟩
  · exact fun _ _ => hsame

/-- To create an agent keeps what a runtime has. -/
theorem keeps_createAgent (h : r.Sound policy sha256) (input : CreateRuntimeAgent) (host : Host) :
    Ends (createAgent input host) (Keeps policy sha256 r) r := by
  have hsame : Keeps policy sha256 r r := ⟨h, Extends.refl r⟩
  -- The number is reserved before anything is checked, so a refused agent takes one too.
  have hreserved : Keeps policy sha256 r { r with lastAgentId := r.lastAgentId + 1 } := by
    refine ⟨{ h with numbers := ?_ }, Extends.of_same rfl rfl⟩
    intro agent hagent
    obtain ⟨hpositive, hle⟩ := h.numbers agent hagent
    exact ⟨hpositive, Nat.le_succ_of_le hle⟩
  unfold createAgent
  rw [Ends, wp_bind, wp_get, wp_bind, wp_lift]
  constructor
  · intro name _
    rw [wp_bind, wp_lift]
    constructor
    · intro _ hchecked
      obtain ⟨hworkspace, howner⟩ := require_eq_ok.mp hchecked
      dsimp only
      rw [wp_bind, wp_set, wp_bind, wp_lift]
      constructor
      · -- The owner is named, and the workspace is there.
        intro _ hpositive
        rw [wp_bind, wp_modify, wp_bind]
        have hnonempty : input.ownerId ≠ "" := by
          intro hempty
          rw [hempty] at howner
          cases howner
        have hadded : Keeps policy sha256 r
            { r with
              lastAgentId := r.lastAgentId + 1
              agents := r.agents ++ [⟨r.lastAgentId + 1, input.ownerId, input.workspaceId, .active,
                name, input.maxDeliveryBytes⟩] } :=
          keeps_addAgent h rfl (require_eq_ok.mp hpositive) hnonempty (h.workspaces _ hworkspace)
        exact wp_mono (keeps_directConversation hadded.1 _ _ host)
          (fun _ _ hkeeps => hadded.trans hkeeps) (fun _ _ hkeeps => hadded.trans hkeeps)
      · exact fun _ _ => hreserved
    · exact fun _ _ => hsame
  · exact fun _ _ => hsame

/-- To name an agent keeps what a runtime has. -/
theorem keeps_setDisplayName (h : r.Sound policy sha256) (id : ℕ) (owner name : String) :
    Ends (setDisplayName id owner name) (Keeps policy sha256 r) r := by
  have hsame : Keeps policy sha256 r r := ⟨h, Extends.refl r⟩
  unfold setDisplayName
  rw [Ends, wp_bind, wp_get, wp_bind, wp_lift]
  constructor
  · intro _ _
    rw [wp_bind, wp_lift]
    constructor
    · intro parsed _
      rw [wp_set]
      exact h.update id (fun _ => rfl) (fun _ => rfl) (fun _ => rfl) (fun _ => rfl) fun _ hd => hd
    · exact fun _ _ => hsame
  · exact fun _ _ => hsame

/-- To create a conversation keeps what a runtime has. -/
theorem keeps_createConversation (h : r.Sound policy sha256) (input : CreateConversation)
    (host : Host) : Ends (createConversation input host) (Keeps policy sha256 r) r := by
  have hsame : Keeps policy sha256 r r := ⟨h, Extends.refl r⟩
  unfold createConversation
  rw [Ends, wp_bind, wp_get, wp_bind, wp_lift]
  constructor
  · intro _ _
    rw [wp_bind, wp_lift]
    constructor
    · intro _ hmembers
      rw [wp_bind]
      apply wp_mono (wp_create h ?_)
      · exact fun _ _ hcreated => hcreated.1
      · rintro _ _ rfl
        exact hsame
      · intro id hid
        have hchecked := forM_eq_ok.mp hmembers _ hid
        unfold checkMember at hchecked
        obtain ⟨agent, hagent, -⟩ := bind_eq_ok.mp hchecked
        obtain ⟨hmem, hsameId, -⟩ := mem_of_owned hagent
        exact ⟨agent, hmem, hsameId⟩
    · exact fun _ _ => hsame
  · exact fun _ _ => hsame

/-- To send a message of a user keeps what a runtime has. -/
theorem keeps_sendUserMessage (h : r.Sound policy sha256) (id owner : String)
    (input : SendConversationMessage) {host : Host} (hidentified : host.phaseId ≠ "") (mail : Mail) :
    Ends (sendUserMessage policy sha256 id owner input host mail) (Keeps policy sha256 r) r := by
  have hsame : Keeps policy sha256 r r := ⟨h, Extends.refl r⟩
  unfold sendUserMessage
  rw [Ends, wp_bind, wp_get, wp_bind, wp_lift]
  refine ⟨?_, fun _ _ => hsame⟩
  intro conversation hget
  obtain ⟨row, hrow, hconversation, hid⟩ := ConversationStore.mem_of_get hget
  have hholds : r.Holds conversation := ⟨row, hrow, hconversation⟩
  rw [wp_bind, wp_lift]
  refine ⟨fun _ _ => ?_, fun _ _ => hsame⟩
  rw [wp_bind, wp_lift]
  refine ⟨fun _ _ => ?_, fun _ _ => hsame⟩
  rw [wp_bind, wp_lift]
  refine ⟨fun _ _ => ?_, fun _ _ => hsame⟩
  rw [wp_bind, wp_lift]
  refine ⟨?_, fun _ _ => hsame⟩
  intro limit hlimit
  have hphase : (StoreCall.send conversation.id (.user owner) input none limit host).OfRuntime
      r.conversations := trivial
  rw [← hid]
  apply wp_bind_of (keeps_send h hholds hlimit (fun _ => hidentified) hphase)
  · rintro _ r₁ ⟨hkeeps, -⟩
    exact wp_mono (keeps_refreshMail hkeeps.1 mail) (fun _ _ hmailed => hkeeps.trans hmailed)
      (fun _ _ hmailed => hkeeps.trans hmailed)
  · rintro _ _ rfl
    exact hsame

/-- Every call of the runtime keeps it, whether it returns or throws. -/
theorem keeps_perform (h : r.Sound policy sha256) {call : RuntimeCall} (hcall : call.Identified) :
    Ends (call.perform policy sha256) (Keeps policy sha256 r) r := by
  have hsame : Keeps policy sha256 r r := ⟨h, Extends.refl r⟩
  -- One case per call of the runtime.
  cases call with
  | registerWorkspace id =>
    show Ends (registerWorkspace id) _ _
    unfold registerWorkspace
    rw [Ends, wp_bind, wp_lift]
    refine ⟨?_, fun _ _ => hsame⟩
    intro _ hnonempty
    rw [wp_modify]
    have hne : id ≠ "" := by
      rintro rfl
      cases require_eq_ok.mp hnonempty
    refine ⟨{ h with workspaces := ?_ }, Extends.of_same rfl rfl⟩
    intro id' hid'
    rcases List.mem_append.mp hid' with hold | hnew
    · exact h.workspaces id' hold
    · rwa [List.mem_singleton.mp hnew]
  | createAgent input host => exact keeps_createAgent h input host
  | setDisplayName id owner name => exact keeps_setDisplayName h id owner name
  | createConversation input host => exact keeps_createConversation h input host
  | directConversation id owner host =>
    show Ends (do
      let _ ← directConversation id owner host
      pure ()) _ _
    rw [Ends, wp_bind]
    exact keeps_directConversation h id owner host
  | sendMessage id owner input host mail => exact keeps_sendUserMessage h id owner input hcall mail
  | performMessage id action round =>
    show Ends (do
      let r ← get
      let live ← liftM (r.live id)
      let _ ← performMessage policy sha256 live action round
      pure ()) _ _
    rw [Ends, wp_bind, wp_get, wp_bind, wp_lift]
    refine ⟨?_, fun _ _ => hsame⟩
    intro live hlive
    rw [wp_bind]
    exact keeps_performMessage h (mem_of_live hlive).1 action round
  | stopAtDestination id action round =>
    show Ends (do
      let r ← get
      let live ← liftM (r.live id)
      let _ ← messageDestination live action.destination round.conversationHost
      pure ()) _ _
    rw [Ends, wp_bind, wp_get, wp_bind, wp_lift]
    refine ⟨?_, fun _ _ => hsame⟩
    intro live hlive
    rw [wp_bind]
    apply wp_mono (keeps_messageDestination h (mem_of_live hlive).1 _ _)
    · exact fun _ _ hfound => hfound.1
    · rintro _ _ rfl
      exact hsame
  | stopAtMessage id action round =>
    show Ends (do
      let r ← get
      let live ← liftM (r.live id)
      let conversation ← messageDestination live action.destination round.conversationHost
      let _ ← deliverMessage policy sha256 live action round conversation
      pure ()) _ _
    rw [Ends, wp_bind, wp_get, wp_bind, wp_lift]
    refine ⟨?_, fun _ _ => hsame⟩
    intro live hlive
    apply wp_bind_of (keeps_messageDestination h (mem_of_live hlive).1 _ _)
    · rintro conversation r₁ ⟨hkeeps, -, hholds⟩
      rw [wp_bind]
      apply wp_mono (keeps_deliverMessage hkeeps.1 hholds live action round)
      · exact fun _ _ hdelivered => hkeeps.trans hdelivered.1
      · rintro _ _ rfl
        exact hkeeps
    · rintro _ _ rfl
      exact hsame
  | refreshMail mail => exact keeps_refreshMail h mail
  | stopAtBatch batchId now =>
    show Ends (onStore fun s => (s.acknowledge batchId now).map fun s' => ((), s')) _ _
    rw [Ends, wp_onStore]
    refine ⟨?_, fun _ _ => hsame⟩
    intro _ s hmap
    obtain ⟨s', hacknowledge, hs⟩ := map_eq_ok.mp hmap
    cases hs
    exact (h.acknowledged hacknowledge).keeps
  | delivered batchId =>
    have hpermits : r.Permits (.delivered batchId) := trivial
    exact h.call hpermits
  | setStatus id status =>
    show Ends (setStatus id status) _ _
    unfold setStatus
    rw [Ends, wp_modify]
    apply h.update id
    all_goals
      intro agent
      split_ifs <;> simp_all
  | dismissAgent id owner =>
    show Ends (dismissAgent id owner) _ _
    unfold dismissAgent
    rw [Ends, wp_bind, wp_get, wp_bind, wp_lift]
    refine ⟨?_, fun _ _ => hsame⟩
    intro _ _
    rw [wp_set]
    have hupdated : Keeps policy sha256 r
        (r.update id fun agent => { agent with status := .dismissed }) :=
      h.update id (fun _ => rfl) (fun _ => rfl) (fun _ => rfl) (fun _ => rfl) fun _ _ => rfl
    have hpermits : (r.update id fun agent => { agent with status := .dismissed }).Permits
        (.dismiss id) := trivial
    exact hupdated.trans (hupdated.1.call hpermits)

/-- What holds between two calls holds in every run. -/
theorem sound_of_reachable (h : (runtimeSystem policy sha256).Reachable r) :
    r.Sound policy sha256 := by
  apply h.invariant
  · rintro r rfl
    exact ⟨TransitionSystem.Reachable.of_init rfl, by simp, List.nodup_nil, by simp, by simp,
      by simp, by simp, by simp, by simp⟩
  · rintro r _ _ hsound ⟨call, hcall, rfl⟩
    exact (wp_finalState (keeps_perform hsound hcall)).1

/-- What is stored stays. -/
theorem extends_of_later (hr : (runtimeSystem policy sha256).Reachable r)
    (h : (runtimeSystem policy sha256).Later r r') : Extends r r' := by
  apply h.invariant hr (P := Extends r)
  · exact Extends.refl r
  · rintro t _ ht hextends ⟨call, hcall, rfl⟩
    exact hextends.trans (wp_finalState (keeps_perform (sound_of_reachable ht) hcall)).2

end Runtime

end OsAgent.Conversations
