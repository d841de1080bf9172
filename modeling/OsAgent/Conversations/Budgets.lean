import OsAgent.Conversations.Runs
import OsAgent.Conversations.Transactions

/-!
# Budgets of automatic messages

A phase is what follows from a message of the user, and the messages that agents send in it are counted.
An agent sends in the phase of the batch that it works at. Without one it has a phase of its own, which is
the same for ever. So the agents cannot go on without the user: `ConversationStore.Budgeted` bounds what
they send by what the user has sent.
-/

namespace OsAgent.Conversations

open OsAgent.Library

/-! ## The runtime -/

/-- The phase of an agent that works at no batch. -/
def legacyPhase (agentId : ℕ) : String := "legacy:" ++ toString agentId

/-- The agent that has sent a message. -/
def ConversationMember.agent? : ConversationMember → Option ℕ
  | .user _ => none
  | .agent id => some id

namespace ConversationStore

/-- The phase that the runtime gives an agent, `batch?.phaseId ?? ...`. -/
def agentPhase (s : ConversationStore) (agentId : ℕ) : String :=
  ((s.active agentId).map ConversationBatch.phaseId).getD (legacyPhase agentId)

/-- The messages of users. -/
def userMessages (s : ConversationStore) : List ConversationMessage :=
  s.messages.filter fun m => m.sender.agent?.isNone

/-- The messages of agents. -/
def agentMessages (s : ConversationStore) : List ConversationMessage :=
  s.messages.filter fun m => m.sender.agent?.isSome

/-- The messages of agents in a phase. -/
def automatic (s : ConversationStore) (phaseId : String) : List ConversationMessage :=
  s.agentMessages.filter fun m => m.phaseId = phaseId

/-- The agents that have sent something. -/
def writers (s : ConversationStore) : List ℕ := (s.messages.filterMap fun m => m.sender.agent?).dedup

/-- The message of a user has started the phase, or it is an agent's own. -/
def Started (s : ConversationStore) (phaseId : String) : Prop :=
  (∃ m ∈ s.userMessages, m.phaseId = phaseId) ∨ ∃ agentId ∈ s.writers, legacyPhase agentId = phaseId

end ConversationStore

/-- The runtime gives an agent its phase. -/
def StoreCall.OfRuntime (s : ConversationStore) : StoreCall → Prop
  | .send _ (.agent id) _ phase _ _ => phase = some (s.agentPhase id)
  | _ => True

/-- The runs of the store under the runtime. -/
def mailSystem (policy : ConversationPolicy) (sha256 : String → String) :
    TransitionSystem ConversationStore where
  init s := s = {}
  step s s' := ∃ call : StoreCall, call.OfRuntime s ∧ s' = call.after policy sha256 s

/-- What the budgets are for. -/
structure ConversationStore.Budgeted (policy : ConversationPolicy) (sha256 : String → String)
    (s : ConversationStore) : Prop where
  perPhase : ∀ phaseId, (s.automatic phaseId).length ≤ policy.maxAutomaticMessages
  started : ∀ b ∈ s.batches, s.Started b.phaseId
  /-- A `send` that throws leaves the store as it was, at whatever statement it throws. -/
  failed : ∀ conversationId sender input phase maxDeliveryBytes host e s',
    sendMessage policy sha256 conversationId sender input phase maxDeliveryBytes host s =
      .error e s' → s' = s
  /-- A message that is sent again is the one that was sent, and the store stays as it is. -/
  repeated : ∀ conversationId sender input phase maxDeliveryBytes host message s',
    sendMessage policy sha256 conversationId sender input phase maxDeliveryBytes host s =
      .ok message s' →
    ∀ s'', (storeSystem policy sha256).Later s' s'' →
      ∀ phase' maxDeliveryBytes' host' message' s''',
        sendMessage policy sha256 conversationId sender input phase' maxDeliveryBytes' host' s'' =
          .ok message' s''' → message' = message ∧ s''' = s''
  bounded : s.agentMessages.length ≤
    policy.maxAutomaticMessages * (s.userMessages.length + s.writers.length)

namespace ConversationStore

variable {s s' : ConversationStore} {policy : ConversationPolicy} {sha256 : String → String}

/-! ## Counting -/

/-- The budgets count the messages of agents. -/
structure Counted (policy : ConversationPolicy) (s : ConversationStore) : Prop where
  phases : (s.phases.map PhaseRow.id).Nodup
  known : ∀ m ∈ s.messages, m.phaseId ∈ s.phases.map PhaseRow.id
  counted : ∀ row ∈ s.phases, (s.automatic row.id).length = row.sent
  within : ∀ row ∈ s.phases, row.sent ≤ policy.maxAutomaticMessages

/-- In an empty store nothing is counted. -/
theorem Counted.empty : Counted policy {} where
  phases := List.nodup_nil
  known := by
    intro m hm
    cases hm
  counted := by
    intro row hrow
    cases hrow
  within := by
    intro row hrow
    cases hrow

/-- A phase that is not known has no messages. -/
theorem Counted.automatic_eq_nil (h : s.Counted policy) {phaseId : String}
    (hnew : phaseId ∉ s.phases.map PhaseRow.id) : s.automatic phaseId = [] := by
  unfold automatic agentMessages
  rw [List.filter_eq_nil_iff]
  intro m hm hphase
  have hknown := h.known m (List.mem_filter.mp hm).1
  rw [of_decide_eq_true hphase] at hknown
  exact hnew hknown

/-- A phase has no more automatic messages than the policy allows. -/
theorem Counted.perPhase (h : s.Counted policy) (phaseId : String) :
    (s.automatic phaseId).length ≤ policy.maxAutomaticMessages := by
  by_cases hknown : phaseId ∈ s.phases.map PhaseRow.id
  · obtain ⟨row, hrow, rfl⟩ := List.mem_map.mp hknown
    rw [h.counted row hrow]
    exact h.within row hrow
  · rw [h.automatic_eq_nil hknown]
    exact Nat.zero_le _

/-- A row of the phases, when a phase is registered, was there or is new and empty. -/
theorem mem_withPhase {phaseId : String} {phases : List PhaseRow} {row : PhaseRow} :
    row ∈ withPhase phaseId phases ↔
      row ∈ phases ∨ (phaseId ∉ phases.map PhaseRow.id ∧ row = { id := phaseId }) := by
  unfold withPhase
  split_ifs with hknown
  · simp [hknown]
  · rw [List.mem_append, List.mem_singleton]
    simp [hknown]

/-- A phase is among the phases it was added to. -/
theorem mem_ids_withPhase (phaseId : String) (phases : List PhaseRow) :
    phaseId ∈ (withPhase phaseId phases).map PhaseRow.id := by
  unfold withPhase
  split_ifs with hknown
  · exact hknown
  · simp

/-- The phases stay distinct when one is added. -/
theorem nodup_withPhase {phases : List PhaseRow} (h : (phases.map PhaseRow.id).Nodup)
    (phaseId : String) : ((withPhase phaseId phases).map PhaseRow.id).Nodup := by
  unfold withPhase
  split_ifs with hknown
  · exact h
  · rw [List.map_append, List.nodup_append]
    refine ⟨h, List.nodup_singleton _, ?_⟩
    intro id hid id' hid'
    rw [List.map_singleton, List.mem_singleton] at hid'
    intro hsame
    rw [hsame, hid'] at hid
    exact hknown hid

/-- What `send` does to the budgets: the message counts in its phase if it is of an agent. -/
theorem countMessage_eq_ok {phaseId : String} {phases phases' : List PhaseRow}
    {sender : ConversationMember} (hnodup : (phases.map PhaseRow.id).Nodup)
    (h : countMessage policy phaseId phases sender = .ok phases') :
    (sender.agent?.isSome = true → ∀ row ∈ withPhase phaseId phases, row.id = phaseId →
        row.sent < policy.maxAutomaticMessages) ∧
      phases' = (withPhase phaseId phases).map fun row =>
        if row.id = phaseId then { row with sent := row.sent + sender.agent?.isSome.toNat }
        else row := by
  cases sender with
  | user id =>
    unfold countMessage at h
    rw [pure_eq_ok] at h
    refine ⟨fun hagent => Bool.noConfusion hagent, ?_⟩
    rw [← h]
    symm
    simp [ConversationMember.agent?]
  | agent id =>
    unfold countMessage at h
    rw [check_bind_eq_ok, require_eq_ok, pure_eq_ok] at h
    obtain ⟨⟨found, hfound, hid, hless⟩, h⟩ := h
    -- The phase has one row, so the row that is found is the one.
    have hall : ∀ row ∈ withPhase phaseId phases, row.id = phaseId →
        row.sent < policy.maxAutomaticMessages := by
      intro row hrow hsame
      have heq := List.inj_on_of_nodup_map (nodup_withPhase hnodup phaseId) hrow hfound
        (hsame.trans hid.symm)
      rw [heq]
      exact hless
    refine ⟨fun _ => hall, ?_⟩
    rw [← h]
    apply List.map_congr_left
    intro row hrow
    by_cases hsame : row.id = phaseId
    · rw [if_pos ⟨hsame, hall row hrow hsame⟩, if_pos hsame]
      rfl
    · rw [if_neg fun hboth => hsame hboth.1, if_neg hsame]

section Sending

variable {sender : ConversationMember} {phase : Option String} {maxDeliveryBytes : Option ℕ}
  {host : Host} {message : ConversationMessage}

/-- The messages of a phase, when one has been sent. -/
theorem automatic_of_sent (h : Sent policy sender phase maxDeliveryBytes host s s' message)
    (phaseId : String) : (s'.automatic phaseId).length = (s.automatic phaseId).length +
      if phaseId = message.phaseId then sender.agent?.isSome.toNat else 0 := by
  obtain ⟨_, _, _, _, _, _, _, rfl⟩ := h.stored
  unfold automatic agentMessages
  dsimp only
  rw [List.filter_append, List.filter_append, List.length_append, List.filter_cons, List.filter_nil,
    h.author]
  cases sender with
  | user id => simp [ConversationMember.agent?]
  | agent id =>
    by_cases hphase : message.phaseId = phaseId
    · simp [ConversationMember.agent?, hphase]
    · simp [ConversationMember.agent?, hphase, Ne.symm hphase]

/-- A message that was sent is counted. -/
theorem Counted.sent (h : s.Counted policy)
    (hsent : Sent policy sender phase maxDeliveryBytes host s s' message) : s'.Counted policy := by
  have hlength := automatic_of_sent hsent
  obtain ⟨_, _, _, phases, _, _, hcount, hstore⟩ := hsent.stored
  obtain ⟨hroom, hphases⟩ := countMessage_eq_ok h.phases hcount
  have hrows : s'.phases = phases := by rw [hstore]
  have hids : s'.phases.map PhaseRow.id =
      (withPhase message.phaseId s.phases).map PhaseRow.id := by
    rw [hrows, hphases, List.map_map]
    apply List.map_congr_left
    intro row _
    rw [Function.comp_apply]
    split_ifs <;> rfl
  -- What was counted in a phase that is registered, the new one included.
  have hbefore : ∀ row ∈ withPhase message.phaseId s.phases,
      (s.automatic row.id).length = row.sent ∧ row.sent ≤ policy.maxAutomaticMessages := by
    intro row hrow
    rcases mem_withPhase.mp hrow with hold | ⟨hnew, rfl⟩
    · exact ⟨h.counted row hold, h.within row hold⟩
    · rw [h.automatic_eq_nil hnew]
      exact ⟨rfl, Nat.zero_le _⟩
  have hafter : ∀ row' ∈ s'.phases,
      (s'.automatic row'.id).length = row'.sent ∧ row'.sent ≤ policy.maxAutomaticMessages := by
    intro row' hrow'
    rw [hrows, hphases] at hrow'
    obtain ⟨row, hrow, rfl⟩ := List.mem_map.mp hrow'
    obtain ⟨hcounted, hwithin⟩ := hbefore row hrow
    by_cases hsame : row.id = message.phaseId
    · rw [if_pos hsame]
      dsimp only
      rw [hlength, hcounted, if_pos hsame]
      refine ⟨rfl, ?_⟩
      cases hagent : sender.agent?.isSome with
      | false => exact hwithin
      | true =>
        have hless := hroom hagent row hrow hsame
        rw [Bool.toNat_true]
        omega
    · rw [if_neg hsame, hlength, if_neg hsame]
      exact ⟨hcounted, hwithin⟩
  exact {
    phases := by
      rw [hids]
      exact nodup_withPhase h.phases _
    known := by
      intro m hm
      rw [hids]
      rw [hstore] at hm
      rcases List.mem_append.mp hm with hold | hnew
      · obtain ⟨row, hrow, hid⟩ := List.mem_map.mp (h.known m hold)
        exact List.mem_map.mpr ⟨row, mem_withPhase.mpr (Or.inl hrow), hid⟩
      · rw [List.mem_singleton.mp hnew]
        exact mem_ids_withPhase _ _
    counted := fun row hrow => (hafter row hrow).1
    within := fun row hrow => (hafter row hrow).2 }

end Sending

/-- What a method leaves is counted. -/
theorem Counted.outcome (h : s.Counted policy) (houtcome : Outcome s s') : s'.Counted policy := by
  obtain ⟨hmessages, hphases⟩ := houtcome.same_messages
  have hautomatic : s'.automatic = s.automatic := by
    funext phaseId
    unfold automatic agentMessages
    rw [hmessages]
  constructor
  · rw [hphases]
    exact h.phases
  · rw [hphases, hmessages]
    exact h.known
  · rw [hphases, hautomatic]
    exact h.counted
  · rw [hphases]
    exact h.within

/-- The budgets count along every run, whatever phases the host gives. -/
theorem counted_of_reachable (h : (storeSystem policy sha256).Reachable s) : s.Counted policy := by
  apply h.invariant
  · rintro s rfl
    exact Counted.empty
  · rintro s s' _ hcounted ⟨call, rfl⟩
    rcases after_cases call s with houtcome | ⟨_, _, _, _, _, _, _, -, hsent⟩
    · exact hcounted.outcome houtcome
    · exact hcounted.sent hsent

/-! ## Where a phase comes from -/

/-- Every phase comes from a message. -/
structure Phased (s : ConversationStore) : Prop where
  messages : ∀ m ∈ s.messages, s.Started m.phaseId
  batches : ∀ b ∈ s.batches, ∃ m ∈ s.messages, m.phaseId = b.phaseId

/-- A writer is an agent that sent a message. -/
theorem mem_writers {agentId : ℕ} :
    agentId ∈ s.writers ↔ ∃ m ∈ s.messages, m.sender.agent? = some agentId := by
  unfold writers
  rw [List.mem_dedup, List.mem_filterMap]

/-- A phase that has started stays so. -/
theorem Started.mono {phaseId : String} (h : s.Started phaseId)
    (hmessages : s.messages <+: s'.messages) : s'.Started phaseId := by
  have hsub := hmessages.sublist.subset
  rcases h with ⟨m, hm, hphase⟩ | ⟨agentId, hagent, hphase⟩
  · obtain ⟨hmem, huser⟩ := List.mem_filter.mp hm
    exact Or.inl ⟨m, List.mem_filter.mpr ⟨hsub hmem, huser⟩, hphase⟩
  · obtain ⟨m, hm, hsender⟩ := mem_writers.mp hagent
    exact Or.inr ⟨agentId, mem_writers.mpr ⟨m, hsub hm, hsender⟩, hphase⟩

/-- The batches after a call have the phases of messages. -/
theorem Outcome.batch_phase (h : Outcome s s')
    (hbatches : ∀ b ∈ s.batches, ∃ m ∈ s.messages, m.phaseId = b.phaseId) :
    ∀ b ∈ s'.batches, ∃ m ∈ s.messages, m.phaseId = b.phaseId := by
  -- A batch that is saved again has its phase.
  have hsave : ∀ batch ∈ s.batches, ∀ status, ∀ b ∈ (s.saveBatch { batch with status }).batches,
      ∃ m ∈ s.messages, m.phaseId = b.phaseId := by
    intro batch hbatch status b hb
    obtain ⟨b', hb', rfl⟩ := List.mem_map.mp hb
    split_ifs
    · exact hbatches batch hbatch
    · exact hbatches b' hb'
  cases h with
  | same => exact hbatches
  | created => exact hbatches
  | @batched row selected rest last id hrow hactive hnone hselected hlast hfresh =>
    intro b hb
    rcases List.mem_append.mp hb with hold | hnew
    · exact hbatches b hold
    · rw [List.mem_singleton.mp hnew]
      have hmem : last ∈ s.messagesAfter row.conversationId row.processed := by
        rw [hselected]
        exact List.mem_append_left _ (List.mem_of_getLast? hlast)
      exact ⟨_, (mem_messagesAfter.mp hmem).1, rfl⟩
  | delivered hbatch => exact hsave _ hbatch _
  | acknowledged hbatch => exact hsave _ hbatch _
  | restored now hbatch => exact hsave _ hbatch _
  | dismissed agentId =>
    unfold ConversationStore.dismiss closeBatch
    cases hactive : s.active agentId with
    | none => exact hbatches
    | some batch => exact hsave _ (List.mem_of_find?_eq_some hactive) _

/-- The phase of a message that the runtime sends has started with it or before. -/
theorem Phased.started_of_sent (h : s.Phased) {conversationId : String} {sender : ConversationMember}
    {input : SendConversationMessage} {phase : Option String} {maxDeliveryBytes : Option ℕ}
    {host : Host} {message : ConversationMessage}
    (hcall : (StoreCall.send conversationId sender input phase maxDeliveryBytes host).OfRuntime s)
    (hsent : Sent policy sender phase maxDeliveryBytes host s s' message)
    (hmessages : s.messages <+: s'.messages) (hmessage : message ∈ s'.messages) :
    s'.Started message.phaseId := by
  have hauthor := hsent.author
  -- A user's message starts its phase; an agent's is in the phase of the batch it works on.
  cases sender with
  | user id =>
    left
    refine ⟨message, List.mem_filter.mpr ⟨hmessage, ?_⟩, rfl⟩
    rw [hauthor]
    rfl
  | agent id =>
    have hphase := hsent.phaseId
    rw [show phase = some (s.agentPhase id) from hcall] at hphase
    have hsame : message.phaseId = s.agentPhase id := by
      unfold phaseOf truthy at hphase
      rw [Option.filter_some] at hphase
      split_ifs at hphase
      exact (Except.ok.inj hphase).symm
    rw [hsame]
    unfold agentPhase
    cases hactive : s.active id with
    | none =>
      right
      refine ⟨id, mem_writers.mpr ⟨message, hmessage, ?_⟩, rfl⟩
      rw [hauthor]
      rfl
    | some batch =>
      obtain ⟨m, hm, hbatch⟩ := h.batches batch (List.mem_of_find?_eq_some hactive)
      have hstarted := (h.messages m hm).mono hmessages
      rw [hbatch] at hstarted
      exact hstarted

/-- In every run the phases are as they should be. -/
theorem phased_of_reachable (h : (mailSystem policy sha256).Reachable s) : s.Phased := by
  apply h.invariant
  · rintro s rfl
    constructor
    · intro m hm
      cases hm
    · intro b hb
      cases hb
  · rintro s s' _ hphased ⟨call, hcall, rfl⟩
    -- Messages are only added, so what has started stays started.
    have hmessages : s.messages <+: (call.after policy sha256 s).messages :=
      prefix_messages_after call s
    rcases (after_cases call s : Outcome s (call.after policy sha256 s) ∨ _) with
      houtcome | ⟨_, _, _, _, _, _, message, rfl, hsent⟩
    · have hsame := houtcome.same_messages.1
      constructor
      · intro m hm
        rw [hsame] at hm
        exact (hphased.messages m hm).mono hmessages
      · rw [hsame]
        exact houtcome.batch_phase hphased.batches
    · -- The new message is in a phase that has started with it or before.
      obtain ⟨_, _, _, _, _, _, _, hstore⟩ := hsent.stored
      have hmessage : message ∈ s.messages ++ [message] := List.mem_append_right _ (List.mem_singleton_self _)
      have hstarted := hphased.started_of_sent hcall hsent hmessages (by rw [hstore]; exact hmessage)
      constructor
      · intro m hm
        have hcases : m ∈ s.messages ++ [message] := by
          rw [hstore] at hm
          exact hm
        rcases List.mem_append.mp hcases with hold | hnew
        · exact (hphased.messages m hold).mono hmessages
        · rw [List.mem_singleton.mp hnew]
          exact hstarted
      · intro b hb
        rw [hstore] at hb
        obtain ⟨m, hm, hphase⟩ := hphased.batches b hb
        exact ⟨m, hmessages.sublist.subset hm, hphase⟩

/-- The runs of the runtime are runs of the store. -/
theorem reachable_storeSystem (h : (mailSystem policy sha256).Reachable s) :
    (storeSystem policy sha256).Reachable s := by
  apply TransitionSystem.Reachable.mono _ _ h
  · exact fun _ hs => hs
  · rintro s s' ⟨call, -, hafter⟩
    exact ⟨call, hafter⟩

/-! ## Messages that are sent again -/

/-- The message is in the outbox under the key. -/
def Remembers (s : ConversationStore) (key print : String) (message : ConversationMessage) : Prop :=
  ∃ existing, (s.outbox.find? fun row => row.id = key) = some existing ∧
    existing.fingerprint = print ∧ s.message? existing.messageId = some message

/-- What has been stored stays. -/
structure Grows (s s' : ConversationStore) : Prop where
  conversations : s.conversations <+: s'.conversations
  messages : s.messages <+: s'.messages
  outbox : s.outbox <+: s'.outbox

/-- A store is a later state of itself. -/
theorem Grows.refl (s : ConversationStore) : Grows s s :=
  ⟨List.prefix_refl _, List.prefix_refl _, List.prefix_refl _⟩

/-- What grows twice has grown. -/
theorem Grows.trans {s'' : ConversationStore} (h : Grows s s') (h' : Grows s' s'') : Grows s s'' :=
  ⟨h.conversations.trans h'.conversations, h.messages.trans h'.messages,
    h.outbox.trans h'.outbox⟩

/-- What was sent under a key is remembered later. -/
theorem Grows.remembers {key print : String} {message : ConversationMessage} (h : Grows s s')
    (hremembers : s.Remembers key print message) : s'.Remembers key print message := by
  obtain ⟨existing, hfound, hprint, hmessage⟩ := hremembers
  exact ⟨existing, h.outbox.find?_eq_some hfound, hprint, h.messages.find?_eq_some hmessage⟩

/-- A conversation is found later as it was. -/
theorem Grows.get {id : String} {conversation : RuntimeConversation} (h : Grows s s')
    (hget : s.get id = .ok conversation) : s'.get id = .ok conversation := by
  unfold ConversationStore.get at hget ⊢
  split at hget
  · cases hget
  · next row hrow =>
    rw [h.conversations.find?_eq_some hrow]
    exact hget

section Repeating

variable {conversationId key print : String} {conversation : RuntimeConversation}
  {sender : ConversationMember} {input : SendConversationMessage} {mentions : List ℕ}
  {reply : Option ConversationMessage} {phase : Option String} {maxDeliveryBytes : Option ℕ}
  {host : Host} {message : ConversationMessage}

/-- A message that may be sent is for a conversation that is found. -/
theorem get_of_checkSend
    (h : s.checkSend conversationId sender input = .ok (conversation, reply)) :
    s.get conversationId = .ok conversation := by
  unfold checkSend at h
  obtain ⟨found, hget, h⟩ := bind_eq_ok.mp h
  simp only [check_bind_eq_ok] at h
  obtain ⟨-, -, -, -, -, -, h⟩ := h
  rw [pure_eq_ok] at h
  rw [hget, (Prod.mk.inj h).1]

/-- A message that is stored is in the outbox. -/
theorem remembers_of_store
    (hnew : (s.outbox.find? fun row => row.id = key) = none)
    (h : s.store policy conversation sender input mentions reply key print phase maxDeliveryBytes
      host = .ok (message, s')) : Grows s s' ∧ s'.Remembers key print message := by
  unfold store at h
  obtain ⟨phaseId, -, h⟩ := bind_eq_ok.mp h
  obtain ⟨phases, -, h⟩ := bind_eq_ok.mp h
  rw [check_bind_eq_ok, check_bind_eq_ok, require_eq_ok, require_eq_ok, pure_eq_ok] at h
  obtain ⟨hfresh, -, h⟩ := h
  obtain ⟨rfl, rfl⟩ := Prod.mk.inj h
  constructor
  · exact ⟨List.prefix_refl _, List.prefix_append _ _, List.prefix_append _ _⟩
  · refine ⟨⟨key, print, host.id⟩, ?_, rfl, ?_⟩
    · rw [List.find?_append, hnew]
      simp
    · unfold message?
      dsimp only
      have hnone : (s.messages.find? fun m => m.id = host.id) = none := by
        rw [List.find?_eq_none]
        intro m hm hid
        exact hfresh (List.mem_map.mpr ⟨m, hm, of_decide_eq_true hid⟩)
      rw [List.find?_append, hnone]
      simp

/-- After a message has been sent it is in the outbox. -/
theorem remembers_of_send
    (h : s.send policy sha256 conversationId sender input phase maxDeliveryBytes host =
      .ok (message, s')) :
    Grows s s' ∧ ∃ conversation, s.get conversationId = .ok conversation ∧
      s'.Remembers (outboxKey sha256 conversation sender input)
        (fingerprint conversationId input (input.mentions.dedup.mergeSort (· ≤ ·))) message := by
  rw [send_eq] at h
  obtain ⟨⟨conversation, reply⟩, hcheck, h⟩ := bind_eq_ok.mp h
  have hget := get_of_checkSend hcheck
  dsimp only at h
  split at h
  · next existing hexisting =>
    rw [check_bind_eq_ok, require_eq_ok] at h
    obtain ⟨hprint, h⟩ := h
    split at h
    · next found hfound =>
      rw [pure_eq_ok] at h
      obtain ⟨rfl, rfl⟩ := Prod.mk.inj h
      exact ⟨Grows.refl s, conversation, hget, existing, hexisting, hprint, hfound⟩
    · cases h
  · next hnew =>
    obtain ⟨hgrows, hremembers⟩ := remembers_of_store hnew h
    exact ⟨hgrows, conversation, hget, hremembers⟩

/-- A message that is in the outbox is not sent again. -/
theorem send_of_remembers {message' : ConversationMessage}
    (hget : s.get conversationId = .ok conversation)
    (hremembers : s.Remembers (outboxKey sha256 conversation sender input)
      (fingerprint conversationId input (input.mentions.dedup.mergeSort (· ≤ ·))) message)
    (h : s.send policy sha256 conversationId sender input phase maxDeliveryBytes host =
      .ok (message', s')) : message' = message ∧ s' = s := by
  obtain ⟨existing, hfound, -, hmessage⟩ := hremembers
  rw [send_eq] at h
  obtain ⟨⟨conversation', reply⟩, hcheck, h⟩ := bind_eq_ok.mp h
  have hsame := get_of_checkSend hcheck
  rw [hget] at hsame
  cases hsame
  dsimp only at h
  rw [hfound] at h
  dsimp only at h
  rw [check_bind_eq_ok, hmessage] at h
  obtain ⟨-, h⟩ := h
  rw [pure_eq_ok] at h
  obtain ⟨rfl, rfl⟩ := Prod.mk.inj h
  exact ⟨rfl, rfl⟩

end Repeating

/-- Every method lets the store grow. -/
theorem Outcome.grows (h : Outcome s s') : Grows s s' := by
  cases h with
  | same => exact Grows.refl s
  | created =>
    exact ⟨List.prefix_append _ _, List.prefix_refl _, List.prefix_refl _⟩
  | batched => exact ⟨List.prefix_refl _, List.prefix_refl _, List.prefix_refl _⟩
  | delivered => exact ⟨List.prefix_refl _, List.prefix_refl _, List.prefix_refl _⟩
  | acknowledged => exact ⟨List.prefix_refl _, List.prefix_refl _, List.prefix_refl _⟩
  | restored => exact ⟨List.prefix_refl _, List.prefix_refl _, List.prefix_refl _⟩
  | dismissed agentId =>
    unfold ConversationStore.dismiss closeBatch
    cases s.active agentId <;>
      exact ⟨List.prefix_refl _, List.prefix_refl _, List.prefix_refl _⟩

/-- What has been stored stays along a run. -/
theorem grows_after (call : StoreCall) (s : ConversationStore) :
    Grows s (call.after policy sha256 s) := by
  rcases (after_cases call s : Outcome s (call.after policy sha256 s) ∨ _) with
    houtcome | ⟨conversationId, sender, input, phase, maxDeliveryBytes, host, _, rfl, -⟩
  · exact houtcome.grows
  · unfold StoreCall.after StoreCall.perform
    dsimp only
    cases hsend : s.send policy sha256 conversationId sender input phase maxDeliveryBytes host with
    | ok r => exact (remembers_of_send hsend).1
    | error e => exact Grows.refl s

/-- In a run the store grows. -/
theorem grows_of_later {s₀ : ConversationStore} (hr : (storeSystem policy sha256).Reachable s₀)
    (h : (storeSystem policy sha256).Later s₀ s) : Grows s₀ s := by
  apply h.invariant hr (P := Grows s₀)
  · exact Grows.refl s₀
  · rintro t t' _ hgrows ⟨call, rfl⟩
    exact hgrows.trans (grows_after call t)

/-! ## The bound -/

/-- If every phase has started and no more than the budget is sent in it, the agents send no more than
the budget for each message of the user and for each of them. -/
theorem length_agentMessages_le (hphased : s.Phased) (hcounted : s.Counted policy) :
    s.agentMessages.length ≤
      policy.maxAutomaticMessages * (s.userMessages.length + s.writers.length) := by
  have hlength : (s.userMessages.map ConversationMessage.phaseId ++
      s.writers.map legacyPhase).length = s.userMessages.length + s.writers.length := by
    rw [List.length_append, List.length_map, List.length_map]
  rw [← hlength]
  apply length_le_mul_of_keys ConversationMessage.phaseId
  · intro m hm
    rw [List.mem_append, List.mem_map, List.mem_map]
    exact hphased.messages m (List.mem_filter.mp hm).1
  · exact hcounted.perPhase

/-- In every run of the runtime, the budgets bound what the agents send. -/
theorem budgeted_of_reachable (h : (mailSystem policy sha256).Reachable s) :
    s.Budgeted policy sha256 := by
  have hstore := reachable_storeSystem h
  have hphased := phased_of_reachable h
  have hcounted := counted_of_reachable hstore
  exact {
    perPhase := hcounted.perPhase
    started := by
      intro b hb
      obtain ⟨m, hm, hphase⟩ := hphased.batches b hb
      have hstarted := hphased.messages m hm
      rw [hphase] at hstarted
      exact hstarted
    failed := by
      intro conversationId sender input phase maxDeliveryBytes host e s' hfailed
      have herror := wp_error (wp_sendMessage policy sha256 sender input conversationId phase
        maxDeliveryBytes host) hfailed
      exact herror.2
    repeated := by
      intro conversationId sender input phase maxDeliveryBytes host message s' hsent s'' hlater
        phase' maxDeliveryBytes' host' message' s''' hagain
      have hsend := send_of_sendMessage hsent
      obtain ⟨hstored, conversation, hget, hremembers⟩ := remembers_of_send hsend
      have hstep : (storeSystem policy sha256).Reachable s' := by
        apply hstore.step
        refine ⟨.send conversationId sender input phase maxDeliveryBytes host, ?_⟩
        unfold StoreCall.after StoreCall.perform
        dsimp only
        rw [hsend]
        rfl
      have hgrows := grows_of_later hstep hlater
      exact send_of_remembers ((hstored.trans hgrows).get hget) (hgrows.remembers hremembers)
        (send_of_sendMessage hagain)
    bounded := length_agentMessages_le hphased hcounted }

/-! ## A run -/

/-- A call of the runtime leads to a reachable store. -/
theorem reachable_after {call : StoreCall} (h : (mailSystem policy sha256).Reachable s)
    (hcall : call.OfRuntime s) :
    (mailSystem policy sha256).Reachable (call.after policy sha256 s) :=
  h.step ⟨call, hcall, rfl⟩

/-- A budget of one message. -/
def oneMessage : ConversationPolicy where
  maxAutomaticMessages := 1

/-- An agent answers the user, and the other one writes of its own. There is no budget left for another
answer. -/
def answeredRun : ConversationStore :=
  [StoreCall.create groupOfTwo { id := "c", now := 0 },
    .send "c" (.user "u") { content := "hello", idempotencyKey := "k1" } none none
      { id := "m1", phaseId := "p1", now := 1 },
    .sealBatch 1 20000 { id := "b1", now := 5000 },
    .send "c" (.agent 1) { content := "yes", idempotencyKey := "k2" } (some "p1") none
      { id := "m2", now := 5001 },
    .send "c" (.agent 2) { content := "look", idempotencyKey := "k3" } (some "legacy:2") none
      { id := "m3", now := 5002 },
    .send "c" (.agent 1) { content := "and", idempotencyKey := "k4" } (some "p1") none
      { id := "m4", now := 5003 }].foldl (fun s call => call.after oneMessage (fun text => text) s) {}

/-- The run with two answers is reachable. -/
theorem reachable_answeredRun : (mailSystem oneMessage fun text => text).Reachable answeredRun := by
  have hstart : (mailSystem oneMessage fun text => text).Reachable {} := .of_init rfl
  unfold answeredRun
  iterate 6 rw [List.foldl_cons]
  rw [List.foldl_nil]
  apply reachable_after
  · apply reachable_after
    · apply reachable_after
      · apply reachable_after
        · apply reachable_after
          · apply reachable_after
            · exact hstart
            · trivial
          · trivial
        · trivial
      · show some _ = some _
        decide +kernel
    · show some _ = some _
      decide +kernel
  · show some _ = some _
    decide +kernel

/-- One message of the user is answered once by each of two agents. -/
theorem budgeted_answeredRun :
    answeredRun.Budgeted oneMessage (fun text => text) ∧
      answeredRun.agentMessages.map ConversationMessage.id = ["m2", "m3"] ∧
      answeredRun.userMessages.length = 1 ∧ answeredRun.writers = [1, 2] :=
  ⟨budgeted_of_reachable reachable_answeredRun, by decide +kernel, by decide +kernel,
    by decide +kernel⟩

end ConversationStore

end OsAgent.Conversations
