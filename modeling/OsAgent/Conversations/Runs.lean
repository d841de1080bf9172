import OsAgent.Conversations.Validity
import OsAgent.Library.Transition

/-!
# Runs of the conversation store

A run is a sequence of calls. `ConversationStore.Dependable` says what the store is for: an agent gets the
messages of a conversation one after the other, and is not forgotten as long as there is a message that
is to wake it.
-/

namespace OsAgent.Conversations

open OsAgent.Library

/-- The methods that write. -/
inductive StoreCall where
  | create (input : CreateConversation) (host : Host)
  | send (conversationId : String) (sender : ConversationMember) (input : SendConversationMessage)
      (phase : Option String) (maxDeliveryBytes : Option ℕ) (host : Host)
  | sealBatch (agentId maxBytes : ℕ) (host : Host)
  | delivered (id : String)
  | acknowledge (id : String) (now : Timestamp)
  | dismiss (agentId : ℕ)

section Calls

variable (policy : ConversationPolicy) (sha256 : String → String)

/-- What a call does. -/
def StoreCall.perform (s : ConversationStore) : StoreCall → Except StoreError ConversationStore
  | .create input host => (s.create input host).map Prod.snd
  | .send conversationId sender input phase maxDeliveryBytes host =>
    (s.send policy sha256 conversationId sender input phase maxDeliveryBytes host).map Prod.snd
  | .sealBatch agentId maxBytes host => (s.sealBatch agentId maxBytes host).map Prod.snd
  | .delivered id => .ok (s.delivered id)
  | .acknowledge id now => s.acknowledge id now
  | .dismiss agentId => .ok (s.dismiss agentId)

/-- The store after a call: an error leaves it as it was. -/
def StoreCall.after (call : StoreCall) (s : ConversationStore) : ConversationStore :=
  match call.perform policy sha256 s with
  | .ok s' => s'
  | .error _ => s

/-- The runs of a new store. -/
def storeSystem : TransitionSystem ConversationStore where
  init s := s = {}
  step s s' := ∃ call : StoreCall, s' = call.after policy sha256 s

/-- What the store is for. -/
structure ConversationStore.Dependable (s : ConversationStore) : Prop where
  /-- The batches of an agent are segments of the messages, from the first one on. -/
  segments : ∀ row ∈ s.mailboxes,
    Delivered (s.messagesOf row.conversationId) (s.batchesOf row.agentId row.conversationId)
  /-- So they are the messages one after the other, up to where they end. -/
  inOrder : ∀ row ∈ s.mailboxes,
    (s.batchesOf row.agentId row.conversationId).flatMap ConversationBatch.messages =
      (s.messagesOf row.conversationId).filter fun m =>
        0 < m.sequence && m.sequence ≤ deliveredTo (s.batchesOf row.agentId row.conversationId)
  /-- A new batch starts at the cursor, where the batches before it end. -/
  batched : ∀ agentId maxBytes host batch s', s.active agentId = none →
    s.sealBatch agentId maxBytes host = .ok (some batch, s') →
    ∃ row ∈ s.mailboxes, row.agentId = agentId ∧ row.conversationId = batch.conversationId ∧
      row.processed = deliveredTo (s.batchesOf agentId batch.conversationId) ∧
      batch.messages ≠ [] ∧
      batch.messages = (s.messagesOf batch.conversationId).filter fun m =>
        row.processed < m.sequence && m.sequence ≤ batch.upper
  /-- An agent that a message is to wake has a mailbox that is due, or a batch on its way. -/
  woken : ∀ place ∈ s.conversations, ∀ agentId, .agent agentId ∈ place.conversation.members →
    s.isDismissed agentId = false →
    ∃ row ∈ s.mailboxes, row.agentId = agentId ∧ row.conversationId = place.conversation.id ∧
      ∀ m ∈ s.messagesOf place.conversation.id, row.processed < m.sequence →
        s.pendingFor place.conversation agentId m = true → row.dueAt.isSome = true ∨
          ∃ b, s.active agentId = some b ∧ b.conversationId = place.conversation.id
  /-- When a batch is done, the cursor is where it ends, and the mailbox is due if there is more. -/
  restored : ∀ id now batch, s.batch? id = some batch → batch.status ≠ .done →
    ∃ place ∈ s.conversations, place.conversation.id = batch.conversationId ∧
      ∃ s', s.acknowledge id now = .ok s' ∧ ∀ row ∈ s'.mailboxes, row.agentId = batch.agentId →
        row.conversationId = batch.conversationId → row.processed = batch.upper ∧
          ∀ m ∈ s'.messagesOf batch.conversationId, batch.upper < m.sequence →
            s'.pendingFor place.conversation batch.agentId m = true → row.dueAt.isSome = true
  /-- A mailbox is due only if there is a message after the cursor and the batch on its way. -/
  due : ∀ row ∈ s.mailboxes, row.dueAt.isSome = true → ∃ m ∈ s.messagesOf row.conversationId,
    row.processed < m.sequence ∧ ∀ b, s.active row.agentId = some b →
      b.conversationId = row.conversationId → b.upper < m.sequence
  priority : ∀ row ∈ s.mailboxes, 0 < row.priority → row.dueAt.isSome = true
  /-- A message makes due the mailboxes of the agents for which it counts ever after. -/
  agreed : ∀ conversationId sender input phase maxDeliveryBytes host message s',
    s.send policy sha256 conversationId sender input phase maxDeliveryBytes host =
      .ok (message, s') → message ∉ s.messages →
    ∃ place ∈ s.conversations, place.conversation.id = message.conversationId ∧
      ∀ s'', (storeSystem policy sha256).Later s' s'' →
        s'.mailboxes = s.mailboxes.map fun row =>
          if row.conversationId = message.conversationId ∧ s.isDismissed row.agentId = false ∧
              s''.pendingFor place.conversation row.agentId message = true then
            row.received policy place.conversation message (s.replyOf message)
          else row

end Calls

namespace ConversationStore

variable {s s' : ConversationStore} {policy : ConversationPolicy} {sha256 : String → String}

/-! ## The runs -/

/-- A call has an outcome, or it stores a message. -/
theorem after_cases (call : StoreCall) (s : ConversationStore) :
    Outcome s (call.after policy sha256 s) ∨
      ∃ conversationId sender input phase maxDeliveryBytes host message,
        call = .send conversationId sender input phase maxDeliveryBytes host ∧
          Sent policy sender phase maxDeliveryBytes host s (call.after policy sha256 s) message := by
  unfold StoreCall.after
  cases hperform : call.perform policy sha256 s with
  | error e => exact Or.inl Outcome.same
  | ok s' =>
    dsimp only
    cases call with
    | create input host =>
      obtain ⟨r, hcreate, hlast⟩ := map_eq_ok.mp hperform
      rw [← hlast]
      exact Or.inl (outcome_create hcreate)
    | send conversationId sender input phase maxDeliveryBytes host =>
      obtain ⟨r, hsend, hlast⟩ := map_eq_ok.mp hperform
      rw [← hlast]
      -- A send that is repeated gives back the stored message and changes nothing.
      rcases send_cases hsend with ⟨hsame, -⟩ | hsent
      · rw [hsame]
        exact Or.inl Outcome.same
      · exact Or.inr ⟨_, _, _, _, _, _, r.1, rfl, hsent⟩
    | sealBatch agentId maxBytes host =>
      obtain ⟨r, hseal, hlast⟩ := map_eq_ok.mp hperform
      rw [← hlast]
      exact Or.inl (outcome_sealBatch hseal)
    | delivered id =>
      cases hperform
      exact Or.inl (outcome_delivered id)
    | acknowledge id now => exact Or.inl (outcome_acknowledge hperform)
    | dismiss agentId =>
      cases hperform
      exact Or.inl (Outcome.dismissed agentId)

/-- Every call keeps the store valid. -/
theorem Valid.after (h : s.Valid) (call : StoreCall) : (call.after policy sha256 s).Valid := by
  rcases after_cases call s with houtcome | ⟨_, _, _, _, _, _, _, -, hsent⟩
  · exact h.outcome houtcome
  · exact h.sent hsent

/-- The store is valid along every run. -/
theorem valid_of_reachable (h : (storeSystem policy sha256).Reachable s) : s.Valid := by
  apply h.invariant
  · rintro s rfl
    exact Valid.empty
  · rintro s s' _ hvalid ⟨call, rfl⟩
    exact hvalid.after call

/-- Only a message that is stored changes the messages and the budgets. -/
theorem Outcome.same_messages (h : Outcome s s') :
    s'.messages = s.messages ∧ s'.phases = s.phases := by
  cases h with
  | same => exact ⟨rfl, rfl⟩
  | created => exact ⟨rfl, rfl⟩
  | batched => exact ⟨rfl, rfl⟩
  | delivered => exact ⟨rfl, rfl⟩
  | acknowledged => exact ⟨rfl, rfl⟩
  | restored => exact ⟨rfl, rfl⟩
  | dismissed agentId =>
    unfold ConversationStore.dismiss closeBatch
    cases s.active agentId <;> exact ⟨rfl, rfl⟩

/-- Messages stay in the store. -/
theorem prefix_messages_after (call : StoreCall) (s : ConversationStore) :
    s.messages <+: (call.after policy sha256 s).messages := by
  rcases after_cases call s with houtcome | ⟨_, _, _, _, _, _, _, -, hsent⟩
  · exact prefix_of_eq houtcome.same_messages.1
  · obtain ⟨_, _, _, _, _, _, _, hstore⟩ := hsent.stored
    rw [hstore]
    exact List.prefix_append _ _

/-- In a run messages are only added. -/
theorem prefix_messages_of_later (hr : (storeSystem policy sha256).Reachable s)
    (h : (storeSystem policy sha256).Later s s') : s.messages <+: s'.messages := by
  apply h.invariant hr (P := fun s' => s.messages <+: s'.messages)
  · exact List.prefix_refl _
  · rintro t t' _ hgrown ⟨call, rfl⟩
    exact hgrown.trans (prefix_messages_after call t)

/-! ## What the store is for -/

section Dependable

variable (h : s.Valid)

include h

/-- The batches of a mailbox have its messages once, in order. -/
theorem Valid.inOrder {row : MailboxRow} (hrow : row ∈ s.mailboxes) :
    (s.batchesOf row.agentId row.conversationId).flatMap ConversationBatch.messages =
      (s.messagesOf row.conversationId).filter fun m =>
        0 < m.sequence && m.sequence ≤ deliveredTo (s.batchesOf row.agentId row.conversationId) := by
  obtain ⟨place, -, -, -, hvalid⟩ := h.row hrow
  exact flatMap_eq_filter (h.messages.ordered_messagesOf _) hvalid.delivered

/-- A new batch starts at the cursor. -/
theorem Valid.start_of_sealBatch {agentId maxBytes : ℕ} {host : Host} {batch : ConversationBatch}
    (hnone : s.active agentId = none)
    (hseal : s.sealBatch agentId maxBytes host = .ok (some batch, s')) :
    ∃ row ∈ s.mailboxes, row.agentId = agentId ∧ row.conversationId = batch.conversationId ∧
      row.processed = deliveredTo (s.batchesOf agentId batch.conversationId) ∧
      batch.messages ≠ [] ∧
      batch.messages = (s.messagesOf batch.conversationId).filter fun m =>
        row.processed < m.sequence && m.sequence ≤ batch.upper := by
  rcases sealBatch_cases hseal with
    ⟨-, hresult⟩ | ⟨row, hrow, last, rfl, hworking, -, hlast, -, hresult, -⟩
  · -- No row was eligible: the call gave no batch.
    rw [hnone] at hresult
    rcases hresult with hresult | hresult <;> cases hresult
  · obtain rfl := Option.some.inj hresult
    obtain ⟨place, -, -, -, hvalid⟩ := h.row hrow
    obtain ⟨rest, hselected⟩ :=
      exists_select maxBytes 800 0 (s.messagesAfter row.conversationId row.processed)
    -- The batches before are done, so the cursor is where the deliveries ended.
    have hdone : ∀ b ∈ s.batchesOf row.agentId row.conversationId, b.status = .done := by
      intro b hb
      obtain ⟨hb, hsame⟩ := List.mem_filter.mp hb
      rw [Bool.and_eq_true, decide_eq_true_eq] at hsame
      exact done_of_active hnone b hb hsame.1
    have hafter : (s.messagesOf row.conversationId).filter (fun m => row.processed < m.sequence) =
        s.messagesAfter row.conversationId row.processed := by
      unfold messagesOf messagesAfter
      rw [List.filter_filter]
      exact List.filter_congr fun m _ => Bool.and_comm _ _
    rw [hworking] at hvalid
    refine ⟨row, hrow, rfl, rfl, hvalid.cursor.eq_deliveredTo hdone, ?_, ?_⟩
    · -- A batch of nothing has no last message.
      intro hempty
      have hnothing : select maxBytes 800 0 (s.messagesAfter row.conversationId row.processed) = [] :=
        hempty
      rw [hnothing] at hlast
      cases hlast
    · exact filter_selected (h.messages.ordered_messagesOf _) (hafter.trans hselected) hlast

/-- An agent that is to be woken is not forgotten. -/
theorem Valid.woken {place : ConversationRow} (hplace : place ∈ s.conversations) {agentId : ℕ}
    (hmember : .agent agentId ∈ place.conversation.members)
    (hworking : s.isDismissed agentId = false) :
    ∃ row ∈ s.mailboxes, row.agentId = agentId ∧ row.conversationId = place.conversation.id ∧
      ∀ m ∈ s.messagesOf place.conversation.id, row.processed < m.sequence →
        s.pendingFor place.conversation agentId m = true → row.dueAt.isSome = true ∨
          ∃ b, s.active agentId = some b ∧ b.conversationId = place.conversation.id := by
  obtain ⟨row, hrow, rfl, hid⟩ := h.places.mailbox place hplace agentId hmember
  have hvalid := h.rows row hrow place hplace hid.symm
  refine ⟨row, hrow, rfl, hid, ?_⟩
  intro m hm hbeyond hpending
  rw [← hid] at hm
  rcases hvalid.woken hworking m hm hbeyond hpending with hdue | ⟨b, hb, hstatus⟩
  · exact Or.inl hdue
  · obtain ⟨hmem, hsame⟩ := List.mem_filter.mp hb
    rw [Bool.and_eq_true, decide_eq_true_eq, decide_eq_true_eq] at hsame
    right
    refine ⟨b, ?_, hsame.2.trans hid⟩
    rw [← hsame.1]
    exact h.batches.active_eq hmem hstatus

/-- A mailbox that is due has something to deliver. -/
theorem Valid.due {row : MailboxRow} (hrow : row ∈ s.mailboxes) (hdue : row.dueAt.isSome = true) :
    ∃ m ∈ s.messagesOf row.conversationId, row.processed < m.sequence ∧
      ∀ b, s.active row.agentId = some b → b.conversationId = row.conversationId →
        b.upper < m.sequence := by
  obtain ⟨place, -, -, -, hvalid⟩ := h.row hrow
  obtain ⟨-, m, hm, hbeyond⟩ := hvalid.due hdue
  have hprocessed := hvalid.processed_le
  refine ⟨m, hm, by omega, ?_⟩
  intro b hactive hconversation
  obtain ⟨hmem, hagent, hstatus⟩ := mem_of_active hactive
  have hin : b ∈ s.batchesOf row.agentId row.conversationId := by
    apply List.mem_filter.mpr
    rw [Bool.and_eq_true, decide_eq_true_eq, decide_eq_true_eq]
    exact ⟨hmem, hagent, hconversation⟩
  obtain ⟨earlier, hearlier⟩ := hvalid.cursor.exists_concat hin hstatus
  rw [hearlier] at hbeyond
  unfold deliveredTo at hbeyond
  rwa [endOf_concat] at hbeyond

omit h in
/-- When a batch is done, its status and some mailboxes have changed. -/
theorem acknowledge_eq {id : String} {batch : ConversationBatch} (now : Timestamp)
    (hbatch : s.batch? id = some batch) (hstatus : batch.status ≠ .done)
    {conversation : RuntimeConversation} (hget : s.get batch.conversationId = .ok conversation) :
    ∃ rows, s.acknowledge id now =
      .ok { s.saveBatch { batch with status := .done } with mailboxes := rows } := by
  unfold acknowledge
  rw [hbatch]
  dsimp only
  rw [if_neg hstatus]
  have hsame : ∀ rows, ({ s.saveBatch { batch with status := .done } with
      mailboxes := rows } : ConversationStore).get batch.conversationId = .ok conversation :=
    fun _ => hget
  rw [hsame]
  dsimp only [bind, Except.bind]
  split
  · exact ⟨_, rfl⟩
  · exact ⟨_, rfl⟩

/-- When a batch is done, its mailbox is due again if there is more for the agent. -/
theorem Valid.restored {id : String} {batch : ConversationBatch} (now : Timestamp)
    (hbatch : s.batch? id = some batch) (hstatus : batch.status ≠ .done) :
    ∃ place ∈ s.conversations, place.conversation.id = batch.conversationId ∧
      ∃ s', s.acknowledge id now = .ok s' ∧ ∀ row ∈ s'.mailboxes, row.agentId = batch.agentId →
        row.conversationId = batch.conversationId → row.processed = batch.upper ∧
          ∀ m ∈ s'.messagesOf batch.conversationId, batch.upper < m.sequence →
            s'.pendingFor place.conversation batch.agentId m = true → row.dueAt.isSome = true := by
  have hmem := (mem_of_batch? hbatch).1
  obtain ⟨row, hrow, hagent, hconversation⟩ := h.batches.mailbox batch hmem
  obtain ⟨place, hplace, hid, -, hvalid⟩ := h.row hrow
  rw [hagent, hconversation] at hvalid
  rw [hconversation] at hid
  obtain ⟨rows, hacknowledge⟩ := acknowledge_eq now hbatch hstatus (h.places.get_eq hplace hid)
  refine ⟨place, hplace, hid, _, hacknowledge, ?_⟩
  intro row' hrow' hagent' hconversation'
  have hnext := h.outcome (outcome_acknowledge hacknowledge)
  have hvalid' := hnext.rows row' hrow' place hplace (hid.trans hconversation'.symm)
  rw [hagent', hconversation'] at hvalid'
  -- The batches are the old ones, the last of which is done.
  have hin : batch ∈ s.batchesOf batch.agentId batch.conversationId :=
    List.mem_filter.mpr ⟨hmem, by simp⟩
  obtain ⟨earlier, hearlier⟩ := hvalid.cursor.exists_concat hin hstatus
  have hbatches := batchesOf_saveBatch_of_concat h.batches hmem .done hearlier
  rw [hearlier] at hvalid
  have hdone : ∀ b ∈ earlier ++ [{ batch with status := .done }], b.status = .done := by
    intro b hb
    rcases List.mem_append.mp hb with hb | hb
    · exact (hvalid.cursor.of_active hstatus).1 b hb
    · rw [List.mem_singleton.mp hb]
  have hworking : s.isDismissed batch.agentId = false := by
    rw [← Bool.not_eq_true]
    exact fun hgone => hstatus (h.batches.dismissed batch hmem hgone)
  have hrow'' : row'.Valid (s.messagesOf batch.conversationId)
      (earlier ++ [{ batch with status := .done }]) false
      (s.pendingFor place.conversation batch.agentId) := by
    rw [← hbatches, ← hworking]
    exact hvalid'
  constructor
  · have hend := hrow''.cursor.eq_deliveredTo hdone
    unfold deliveredTo at hend
    rwa [endOf_concat] at hend
  · intro m hm hbeyond hpending
    have hprocessed : row'.processed < m.sequence := by
      have hle := hrow''.processed_le
      unfold deliveredTo at hle
      rw [endOf_concat] at hle
      exact Nat.lt_of_le_of_lt hle hbeyond
    rcases hrow''.woken rfl m hm hprocessed hpending with hdue | ⟨b, hb, hunfinished⟩
    · exact hdue
    · exact absurd (hdone b hb) hunfinished

/-- A message makes due the mailboxes of the agents for which it counts. -/
theorem Valid.agreed {conversationId : String} {sender : ConversationMember}
    {input : SendConversationMessage} {phase : Option String} {maxDeliveryBytes : Option ℕ}
    {host : Host} {message : ConversationMessage}
    (hsend : s.send policy sha256 conversationId sender input phase maxDeliveryBytes host =
      .ok (message, s')) (hnew : message ∉ s.messages) :
    ∃ place ∈ s.conversations, place.conversation.id = message.conversationId ∧
      ∀ s'' : ConversationStore, s'.messages <+: s''.messages →
        s'.mailboxes = s.mailboxes.map fun row =>
          if row.conversationId = message.conversationId ∧ s.isDismissed row.agentId = false ∧
              s''.pendingFor place.conversation row.agentId message = true then
            row.received policy place.conversation message (s.replyOf message)
          else row := by
  -- A message that was stored before is not new.
  rcases send_cases hsend with ⟨-, hold⟩ | hsent
  · exact absurd hold hnew
  obtain ⟨place, hplace, outbox, phases, hid, hmember, -, hstore⟩ := hsent.stored
  refine ⟨place, hplace, hid, ?_⟩
  -- Later messages change neither the reply nor whom the message is for.
  intro s'' hgrown
  have hmailboxes := (congrArg ConversationStore.mailboxes hstore).trans
    (receive_eq policy place.conversation message (s.replyOf message) s.mailboxes
      (h.places.members place hplace))
  have hbefore : s.messages <+: s''.messages := by
    apply List.IsPrefix.trans _ hgrown
    rw [hstore]
    exact List.prefix_append _ _
  rw [hmailboxes]
  apply List.map_congr_left
  intro row hrow
  have hwakes : (s.wakesRow place.conversation message (s.replyOf message)
      place.conversation.members row = true) ↔
        row.conversationId = message.conversationId ∧ s.isDismissed row.agentId = false ∧
          s''.pendingFor place.conversation row.agentId message = true := by
    rw [pendingFor_eq, replyOf_of_prefix hbefore hsent.reply]
    unfold wakesRow
    obtain ⟨known, hknown, hid', hagent⟩ := h.places.member row hrow
    rw [hid]
    constructor
    · intro hall
      simp only [Bool.and_eq_true, decide_eq_true_eq, Bool.not_eq_true'] at hall
      exact ⟨hall.1.1.1, hall.1.2, hall.2⟩
    · -- A mailbox that wakes is of the message's conversation, and of an agent that works.
      rintro ⟨hconversation, hworking, hwake⟩
      have hsame : known = place :=
        h.places.eq_of_id hknown hplace (hid'.trans (hconversation.trans hid.symm))
      rw [hsame] at hagent
      simp [hconversation, hworking, hwake, hagent]
  simp only [hwakes]

end Dependable

/-- In every run, the store is what it is for. -/
theorem dependable_of_reachable (h : (storeSystem policy sha256).Reachable s) :
    s.Dependable policy sha256 := by
  have hvalid := valid_of_reachable h
  exact {
    segments := by
      intro row hrow
      obtain ⟨place, -, -, -, hrow⟩ := hvalid.row hrow
      exact hrow.delivered
    inOrder := fun row hrow => hvalid.inOrder hrow
    batched := fun agentId maxBytes host batch s' hnone hseal =>
      hvalid.start_of_sealBatch hnone hseal
    woken := fun place hplace agentId hmember hworking => hvalid.woken hplace hmember hworking
    restored := fun id now batch hbatch hstatus => hvalid.restored now hbatch hstatus
    due := fun row hrow hdue => hvalid.due hrow hdue
    priority := by
      intro row hrow
      obtain ⟨place, -, -, -, hrow⟩ := hvalid.row hrow
      exact hrow.priority
    agreed := by
      -- What a later state says of the mailbox is said of every longer list of messages.
      intro conversationId sender input phase maxDeliveryBytes host message s' hsend hnew
      obtain ⟨place, hplace, hid, hmailboxes⟩ := hvalid.agreed hsend hnew
      refine ⟨place, hplace, hid, ?_⟩
      intro s'' hlater
      apply hmailboxes
      apply prefix_messages_of_later _ hlater
      apply h.step
      refine ⟨.send conversationId sender input phase maxDeliveryBytes host, ?_⟩
      unfold StoreCall.after StoreCall.perform
      dsimp only
      rw [hsend]
      rfl }

/-! ## A run -/

/-- A group of the user and two agents. -/
def groupOfTwo : CreateConversation where
  ownerId := "u"
  workspaceId := "w"
  kind := .group
  members := [.user "u", .agent 1, .agent 2]

/-- The user writes to a group of two agents. The first of them gets a batch, and a message that names it
comes while it is at work. -/
def groupRun : ConversationStore :=
  [StoreCall.create groupOfTwo { id := "c", now := 0 },
    .send "c" (.user "u") { content := "hello", idempotencyKey := "k1" } none none
      { id := "m1", phaseId := "p1", now := 1 },
    .sealBatch 1 20000 { id := "b1", now := 5000 }, .delivered "chat:b1",
    .send "c" (.agent 2) { content := "look", idempotencyKey := "k2", mentions := [1] }
      (some "legacy:2") none { id := "m2", now := 5001 },
    .acknowledge "chat:b1" 5002].foldl (fun s call => call.after {} (fun text => text) s) {}

/-- The run in a group is reachable. -/
theorem reachable_groupRun : (storeSystem {} fun text => text).Reachable groupRun := by
  have hstart : (storeSystem {} fun text => text).Reachable {} := .of_init rfl
  unfold groupRun
  iterate 6 rw [List.foldl_cons]
  rw [List.foldl_nil]
  iterate 6 refine TransitionSystem.Reachable.step ?_ ⟨_, rfl⟩
  exact hstart

/-- The first agent has worked at one message, and is due for the one that names it. The other agent has
its own message and the first one before it. -/
theorem dependable_groupRun :
    groupRun.Dependable {} (fun text => text) ∧
      groupRun.mailboxes.map MailboxRow.processed = [1, 0] ∧
      groupRun.mailboxes.map MailboxRow.dueAt = [some 5501, some 1201] ∧
      groupRun.messages.map ConversationMessage.sequence = [1, 2] :=
  ⟨dependable_of_reachable reachable_groupRun, by decide +kernel, by decide +kernel,
    by decide +kernel⟩

end ConversationStore

end OsAgent.Conversations
