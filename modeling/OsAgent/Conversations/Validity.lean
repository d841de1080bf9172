import OsAgent.Conversations.Outcomes

/-!
# The validity of the conversation store

What holds of a store between two calls: of the messages, of the places (conversations, and a mailbox for
every agent in them), of the batches, and of every mailbox with its messages and batches. Every outcome
keeps it (`Valid.outcome`). Most outcomes change mailboxes only in place, so that `Valid.of_map` leaves the
mailboxes to be looked at one by one.
-/

namespace OsAgent.Conversations

open OsAgent.Library

namespace ConversationStore

variable {s s' : ConversationStore} {policy : ConversationPolicy}

/-- The messages of a conversation. -/
def messagesOf (s : ConversationStore) (conversationId : String) : List ConversationMessage :=
  s.messages.filter fun m => m.conversationId = conversationId

/-- The batches of an agent in a conversation. -/
def batchesOf (s : ConversationStore) (agentId : ℕ) (conversationId : String) :
    List ConversationBatch :=
  s.batches.filter fun b => b.agentId = agentId && b.conversationId = conversationId

/-! ## Validity -/

/-- What holds of the messages. -/
structure MessagesValid (s : ConversationStore) : Prop where
  ordered : s.messages.Pairwise fun m m' => m.sequence < m'.sequence
  positive : ∀ m ∈ s.messages, 0 < m.sequence
  last : ∀ m ∈ s.messages, m.sequence ≤ s.lastSequence
  replies : ∀ m ∈ s.messages, ∀ replyTo, truthy m.replyTo = some replyTo →
    (s.message? replyTo).isSome = true
  conversations : ∀ m ∈ s.messages, ∃ row ∈ s.conversations, row.conversation.id = m.conversationId

/-- What holds of the conversations and the mailboxes. -/
structure PlacesValid (s : ConversationStore) : Prop where
  ids : (s.conversations.map fun row => row.conversation.id).Nodup
  members : ∀ row ∈ s.conversations, row.conversation.members.Nodup
  /-- A mailbox is that of a member. -/
  member : ∀ row ∈ s.mailboxes, ∃ place ∈ s.conversations,
    place.conversation.id = row.conversationId ∧ .agent row.agentId ∈ place.conversation.members
  /-- Every agent that is a member has a mailbox. -/
  mailbox : ∀ place ∈ s.conversations, ∀ agentId, .agent agentId ∈ place.conversation.members →
    ∃ row ∈ s.mailboxes, row.agentId = agentId ∧ row.conversationId = place.conversation.id

/-- What holds of the batches. -/
structure BatchesValid (s : ConversationStore) : Prop where
  ids : (s.batches.map ConversationBatch.id).Nodup
  /-- At most one batch of an agent is on its way. -/
  single : ∀ b ∈ s.batches, ∀ b' ∈ s.batches, b.agentId = b'.agentId → b.status ≠ .done →
    b'.status ≠ .done → b = b'
  dismissed : ∀ b ∈ s.batches, s.isDismissed b.agentId = true → b.status = .done
  mailbox : ∀ b ∈ s.batches, ∃ row ∈ s.mailboxes,
    row.agentId = b.agentId ∧ row.conversationId = b.conversationId

/-- What holds of a store between two calls. -/
structure Valid (s : ConversationStore) : Prop where
  messages : s.MessagesValid
  places : s.PlacesValid
  batches : s.BatchesValid
  rows : ∀ row ∈ s.mailboxes, ∀ place ∈ s.conversations,
    place.conversation.id = row.conversationId →
      row.Valid (s.messagesOf row.conversationId) (s.batchesOf row.agentId row.conversationId)
        (s.isDismissed row.agentId) (s.pendingFor place.conversation row.agentId)

/-- A new store. -/
theorem Valid.empty : Valid {} where
  messages := ⟨List.Pairwise.nil, by simp, by simp, by simp, by simp⟩
  places := ⟨List.nodup_nil, by simp, by simp, by simp⟩
  batches := ⟨List.nodup_nil, by simp, by simp, by simp⟩
  rows := by simp

/-- A message is found as long as the store has it. -/
theorem message?_append {id : String} (message : ConversationMessage)
    (h : (s.message? id).isSome = true) :
    { s with messages := s.messages ++ [message] }.message? id = s.message? id := by
  obtain ⟨found, hfound⟩ := Option.isSome_iff_exists.mp h
  unfold message? at *
  rw [List.find?_append, hfound]
  rfl

/-- Only the messages, their last sequence, and the conversations matter to the messages. -/
theorem MessagesValid.keep (h : s.MessagesValid) (hmessages : s'.messages = s.messages)
    (hlast : s'.lastSequence = s.lastSequence) (hconversations : s'.conversations = s.conversations) :
    s'.MessagesValid := by
  obtain ⟨hordered, hpositive, hle, hreplies, hplaces⟩ := h
  constructor
  · rwa [hmessages]
  · rwa [hmessages]
  · rwa [hmessages, hlast]
  · unfold message? at *
    rwa [hmessages]
  · rwa [hmessages, hconversations]

/-- The messages of a conversation are in order. -/
theorem MessagesValid.ordered_messagesOf (h : s.MessagesValid) (conversationId : String) :
    (s.messagesOf conversationId).Pairwise fun m m' => m.sequence < m'.sequence :=
  h.ordered.sublist List.filter_sublist

/-- A mailbox of a valid store, with the conversation that it belongs to. -/
theorem Valid.row (h : s.Valid) {row : MailboxRow} (hrow : row ∈ s.mailboxes) :
    ∃ place ∈ s.conversations, place.conversation.id = row.conversationId ∧
      .agent row.agentId ∈ place.conversation.members ∧
      row.Valid (s.messagesOf row.conversationId) (s.batchesOf row.agentId row.conversationId)
        (s.isDismissed row.agentId) (s.pendingFor place.conversation row.agentId) := by
  obtain ⟨place, hplace, hid, hmember⟩ := h.places.member row hrow
  exact ⟨place, hplace, hid, hmember, h.rows row hrow place hplace hid⟩

/-- There is one conversation of an id. -/
theorem PlacesValid.eq_of_id (h : s.PlacesValid) {place known : ConversationRow}
    (hplace : place ∈ s.conversations) (hknown : known ∈ s.conversations)
    (hid : place.conversation.id = known.conversation.id) : place = known :=
  List.inj_on_of_nodup_map h.ids hplace hknown hid

/-- A conversation is found by its id. -/
theorem PlacesValid.get_eq (h : s.PlacesValid) {place : ConversationRow}
    (hplace : place ∈ s.conversations) {id : String} (hid : place.conversation.id = id) :
    s.get id = .ok place.conversation := by
  unfold get
  cases hfind : s.conversations.find? fun row => row.conversation.id = id with
  | none =>
    have hnot := List.find?_eq_none.mp hfind place hplace
    exact absurd (decide_eq_true hid) hnot
  | some known =>
    have hknown := List.find?_some hfind
    rw [decide_eq_true_eq] at hknown
    rw [h.eq_of_id (List.mem_of_find?_eq_some hfind) hplace (hknown.trans hid.symm)]

/-- Mailboxes that are changed in place stay where they are. -/
theorem PlacesValid.of_map (h : s.PlacesValid) {f : MailboxRow → MailboxRow}
    (hagent : ∀ row, (f row).agentId = row.agentId)
    (hconversation : ∀ row, (f row).conversationId = row.conversationId)
    (hconversations : s'.conversations = s.conversations)
    (hmailboxes : s'.mailboxes = s.mailboxes.map f) : s'.PlacesValid where
  ids := by
    rw [hconversations]
    exact h.ids
  members := by
    rw [hconversations]
    exact h.members
  member := by
    rw [hconversations, hmailboxes]
    intro row' hrow'
    obtain ⟨row, hrow, rfl⟩ := List.mem_map.mp hrow'
    rw [hagent, hconversation]
    exact h.member row hrow
  mailbox := by
    rw [hconversations, hmailboxes]
    intro place hplace agentId hmember
    obtain ⟨row, hrow, hsame⟩ := h.mailbox place hplace agentId hmember
    refine ⟨f row, List.mem_map_of_mem hrow, ?_⟩
    rwa [hagent, hconversation]

/-- The places of batches stay, too. -/
theorem mailbox_of_map {f : MailboxRow → MailboxRow} {batches : List ConversationBatch}
    (hagent : ∀ row, (f row).agentId = row.agentId)
    (hconversation : ∀ row, (f row).conversationId = row.conversationId)
    (hmailboxes : s'.mailboxes = s.mailboxes.map f)
    (h : ∀ b ∈ batches, ∃ row ∈ s.mailboxes,
      row.agentId = b.agentId ∧ row.conversationId = b.conversationId) :
    ∀ b ∈ batches, ∃ row ∈ s'.mailboxes,
      row.agentId = b.agentId ∧ row.conversationId = b.conversationId := by
  intro b hb
  obtain ⟨row, hrow, hsame⟩ := h b hb
  rw [hmailboxes]
  refine ⟨f row, List.mem_map_of_mem hrow, ?_⟩
  rwa [hagent, hconversation]

/-- An outcome that changes mailboxes in place. -/
theorem Valid.of_map (h : s.Valid) {f : MailboxRow → MailboxRow}
    (hagent : ∀ row, (f row).agentId = row.agentId)
    (hconversation : ∀ row, (f row).conversationId = row.conversationId)
    (hconversations : s'.conversations = s.conversations)
    (hmailboxes : s'.mailboxes = s.mailboxes.map f) (hmessages : s'.MessagesValid)
    (hbatches : s'.BatchesValid)
    (hrows : ∀ row ∈ s.mailboxes, ∀ place ∈ s.conversations,
      place.conversation.id = row.conversationId →
        (f row).Valid (s'.messagesOf row.conversationId)
          (s'.batchesOf row.agentId row.conversationId) (s'.isDismissed row.agentId)
          (s'.pendingFor place.conversation row.agentId)) : s'.Valid where
  messages := hmessages
  places := h.places.of_map hagent hconversation hconversations hmailboxes
  batches := hbatches
  rows := by
    rw [hconversations, hmailboxes]
    intro row' hrow' place hplace hid
    obtain ⟨row, hrow, rfl⟩ := List.mem_map.mp hrow'
    rw [hagent, hconversation]
    rw [hconversation] at hid
    exact hrows row hrow place hplace hid

/-! ## Conversations -/

/-- A new mailbox is one of an agent of the conversation. -/
theorem mem_newMailboxes {conversation : RuntimeConversation} {row : MailboxRow} :
    row ∈ newMailboxes conversation ↔ ∃ agentId, .agent agentId ∈ conversation.members ∧
      row = { agentId, conversationId := conversation.id } := by
  unfold newMailboxes
  rw [List.mem_filterMap]
  constructor
  · rintro ⟨member, hmember, hrow⟩
    cases member with
    | user id => cases hrow
    | agent id => exact ⟨id, hmember, (Option.some.inj hrow).symm⟩
  · rintro ⟨agentId, hmember, rfl⟩
    exact ⟨.agent agentId, hmember, rfl⟩

/-- A new conversation has no messages, and its mailboxes are empty. -/
theorem Valid.created (h : s.Valid) {row : ConversationRow}
    (hfresh : row.conversation.id ∉ s.conversations.map fun row => row.conversation.id)
    (hmembers : row.conversation.members.Nodup) :
    Valid { s with
      conversations := s.conversations ++ [row]
      mailboxes := s.mailboxes ++ newMailboxes row.conversation } where
  messages := by
    obtain ⟨hordered, hpositive, hlast, hreplies, hconversations⟩ := h.messages
    refine ⟨hordered, hpositive, hlast, hreplies, ?_⟩
    intro m hm
    obtain ⟨place, hplace, hid⟩ := hconversations m hm
    exact ⟨place, List.mem_append_left _ hplace, hid⟩
  places := by
    constructor
    · dsimp only
      rw [List.map_append]
      exact List.Nodup.append h.places.ids (List.nodup_singleton _)
        (List.disjoint_singleton.mpr hfresh)
    · intro place hplace
      rcases List.mem_append.mp hplace with hold | hnew
      · exact h.places.members place hold
      · rwa [List.mem_singleton.mp hnew]
    · intro mailbox hmailbox
      rcases List.mem_append.mp hmailbox with hold | hnew
      · obtain ⟨place, hplace, hsame⟩ := h.places.member mailbox hold
        exact ⟨place, List.mem_append_left _ hplace, hsame⟩
      · obtain ⟨agentId, hmember, rfl⟩ := mem_newMailboxes.mp hnew
        exact ⟨row, List.mem_append_right _ (List.mem_singleton.mpr rfl), rfl, hmember⟩
    · intro place hplace agentId hmember
      rcases List.mem_append.mp hplace with hold | hnew
      · obtain ⟨mailbox, hmailbox, hsame⟩ := h.places.mailbox place hold agentId hmember
        exact ⟨mailbox, List.mem_append_left _ hmailbox, hsame⟩
      · rw [List.mem_singleton.mp hnew] at hmember ⊢
        exact ⟨_, List.mem_append_right _ (mem_newMailboxes.mpr ⟨agentId, hmember, rfl⟩), rfl, rfl⟩
  batches := by
    obtain ⟨hids, hsingle, hdismissed, hmailboxes⟩ := h.batches
    refine ⟨hids, hsingle, hdismissed, ?_⟩
    intro b hb
    obtain ⟨mailbox, hmailbox, hsame⟩ := hmailboxes b hb
    exact ⟨mailbox, List.mem_append_left _ hmailbox, hsame⟩
  rows := by
    -- No mailbox is of the new conversation: its identifier is new.
    have hnot : ∀ place ∈ s.conversations, place.conversation.id ≠ row.conversation.id :=
      fun place hplace hsame => hfresh (hsame ▸ List.mem_map_of_mem hplace)
    intro mailbox hmailbox place hplace hid
    rcases List.mem_append.mp hmailbox with hold | hnew
    · obtain ⟨known, hknown, hsame, -⟩ := h.places.member mailbox hold
      rcases List.mem_append.mp hplace with hplace | hplace
      · exact h.rows mailbox hold place hplace hid
      · rw [List.mem_singleton.mp hplace] at hid
        exact absurd (hsame.trans hid.symm) (hnot known hknown)
    · -- The mailboxes of the new conversation are empty, and so are its messages.
      obtain ⟨agentId, hmember, rfl⟩ := mem_newMailboxes.mp hnew
      have hmessages : s.messagesOf row.conversation.id = [] := by
        unfold messagesOf
        rw [List.filter_eq_nil_iff]
        intro m hm hsame
        obtain ⟨known, hknown, hm⟩ := h.messages.conversations m hm
        exact hnot known hknown (hm.trans (of_decide_eq_true hsame))
      have hbatches : s.batchesOf agentId row.conversation.id = [] := by
        unfold batchesOf
        rw [List.filter_eq_nil_iff]
        intro b hb hsame
        obtain ⟨mailbox, hmailbox, -, hconversation⟩ := h.batches.mailbox b hb
        obtain ⟨known, hknown, hid, -⟩ := h.places.member mailbox hmailbox
        rw [Bool.and_eq_true, decide_eq_true_eq, decide_eq_true_eq] at hsame
        exact hnot known hknown (hid.trans (hconversation.trans hsame.2))
      show MailboxRow.Valid _ (s.messagesOf row.conversation.id)
        (s.batchesOf agentId row.conversation.id) _ _
      rw [hmessages, hbatches]
      exact {
        delivered := trivial
        cursor := CursorAt.worked (by simp)
        due := by
          intro hdue
          cases hdue
        priority := by
          intro hpositive
          cases hpositive
        woken := by simp }

/-! ## Messages -/

/-- A new message comes after all others. -/
theorem MessagesValid.sent (h : s.MessagesValid) {message : ConversationMessage}
    (hsequence : message.sequence = s.lastSequence + 1)
    (hreply : ∀ replyTo, truthy message.replyTo = some replyTo → (s.message? replyTo).isSome = true)
    (hconversation : ∃ row ∈ s.conversations, row.conversation.id = message.conversationId)
    (hmessages : s'.messages = s.messages ++ [message])
    (hlast : s'.lastSequence = s.lastSequence + 1) (hsame : s'.conversations = s.conversations) :
    s'.MessagesValid where
  ordered := by
    rw [hmessages, List.pairwise_append]
    refine ⟨h.ordered, List.pairwise_singleton _ _, ?_⟩
    intro m hm m' hm'
    have hle := h.last m hm
    rw [List.mem_singleton.mp hm']
    omega
  positive := by
    rw [hmessages]
    intro m hm
    rcases List.mem_append.mp hm with hold | hnew
    · exact h.positive m hold
    · rw [List.mem_singleton.mp hnew]
      omega
  last := by
    rw [hmessages, hlast]
    intro m hm
    rcases List.mem_append.mp hm with hold | hnew
    · have hle := h.last m hold
      omega
    · rw [List.mem_singleton.mp hnew]
      omega
  replies := by
    rw [hmessages]
    intro m hm replyTo hreplyTo
    have hsome : (s.message? replyTo).isSome = true := by
      -- What a message answers was stored before it.
      rcases List.mem_append.mp hm with hold | hnew
      · exact h.replies m hold replyTo hreplyTo
      · rw [List.mem_singleton.mp hnew] at hreplyTo
        exact hreply replyTo hreplyTo
    have hfound := message?_append message hsome
    unfold message? at hfound hsome ⊢
    rw [hmessages, hfound]
    exact hsome
  conversations := by
    rw [hmessages, hsame]
    intro m hm
    rcases List.mem_append.mp hm with hold | hnew
    · exact h.conversations m hold
    · rwa [List.mem_singleton.mp hnew]

/-- What a stored message replies to stays the same when others are sent. -/
theorem replyOf_of_prefix {message : ConversationMessage} (hmessages : s.messages <+: s'.messages)
    (hreply : ∀ replyTo, truthy message.replyTo = some replyTo →
      (s.message? replyTo).isSome = true) : s'.replyOf message = s.replyOf message := by
  obtain ⟨more, hmore⟩ := hmessages
  unfold replyOf
  cases hreplyTo : truthy message.replyTo with
  | none => rfl
  | some replyTo =>
    obtain ⟨found, hfound⟩ := Option.isSome_iff_exists.mp (hreply replyTo hreplyTo)
    unfold message? at hfound ⊢
    rw [Option.bind_some, Option.bind_some, ← hmore, List.find?_append, hfound]
    rfl

/-- A message that is sent wakes the agents for which `acknowledge` counts it. -/
theorem Valid.sent (h : s.Valid) {sender : ConversationMember} {phase : Option String}
    {maxDeliveryBytes : Option ℕ} {host : Host} {message : ConversationMessage}
    (hsent : Sent policy sender phase maxDeliveryBytes host s s' message) : s'.Valid := by
  obtain ⟨place, hplace, outbox, phases, hid, hmember, -, hstore⟩ := hsent.stored
  have hmessages : s'.messages = s.messages ++ [message] := by rw [hstore]
  have hgrown : s.messages <+: s'.messages := hmessages ▸ List.prefix_append _ _
  have hmailboxes := receive_eq (s := s) policy place.conversation message (s.replyOf message)
    s.mailboxes (h.places.members place hplace)
  have hlater : ∀ m ∈ s.messages, m.sequence < message.sequence := by
    intro m hm
    have hle := h.messages.last m hm
    have hsequence := hsent.sequence
    omega
  -- Only the mailboxes that the message wakes are changed.
  apply h.of_map (f := fun row =>
    if s.wakesRow place.conversation message (s.replyOf message) place.conversation.members row =
      true then row.received policy place.conversation message (s.replyOf message) else row)
  · intro row
    split_ifs <;> rfl
  · intro row
    split_ifs <;> rfl
  · rw [hstore]
  · rw [← hmailboxes, hstore]
  · exact h.messages.sent hsent.sequence hsent.reply ⟨place, hplace, hid⟩ hmessages
      (by rw [hstore]) (by rw [hstore])
  · obtain ⟨hids, hsingle, hdismissed, hrows⟩ := h.batches
    rw [hstore]
    refine ⟨hids, hsingle, hdismissed, ?_⟩
    apply mailbox_of_map (s := s) (f := fun row =>
      if s.wakesRow place.conversation message (s.replyOf message) place.conversation.members row =
        true then row.received policy place.conversation message (s.replyOf message) else row)
      _ _ hmailboxes hrows
    · intro row
      split_ifs <;> rfl
    · intro row
      split_ifs <;> rfl
  · intro row hrow known hknown hsame
    have hvalid := h.rows row hrow known hknown hsame
    -- The message counts for the mailboxes as it did before.
    have hpending : ∀ m ∈ s.messagesOf row.conversationId,
        s'.pendingFor known.conversation row.agentId m =
          s.pendingFor known.conversation row.agentId m := by
      intro m hm
      have hreply := h.messages.replies m (List.mem_filter.mp hm).1
      rw [pendingFor_eq, pendingFor_eq, replyOf_of_prefix hgrown hreply]
    have hbatches : s'.batchesOf row.agentId row.conversationId =
        s.batchesOf row.agentId row.conversationId := by
      rw [hstore]
      rfl
    have hdismissed : s'.isDismissed row.agentId = s.isDismissed row.agentId := by
      rw [hstore]
      rfl
    rw [hbatches, hdismissed]
    have hvalid' := hvalid.congr hpending
    by_cases hconversation : row.conversationId = message.conversationId
    · -- The message is in the conversation of this mailbox.
      have hof : s'.messagesOf row.conversationId = s.messagesOf row.conversationId ++ [message] := by
        unfold messagesOf
        rw [hmessages, List.filter_append, List.filter_cons_of_pos (by simp [hconversation])]
        rfl
      have hbefore : ∀ m ∈ s.messagesOf row.conversationId, m.sequence < message.sequence :=
        fun m hm => hlater m (List.mem_filter.mp hm).1
      have hplaces : known = place := by
        have hboth : known.conversation.id = place.conversation.id := by
          rw [hsame, hconversation, hid]
        exact h.places.eq_of_id hknown hplace hboth
      subst hplaces
      have hown : .agent row.agentId ∈ known.conversation.members := by
        obtain ⟨place', hplace', hid', hagent⟩ := h.places.member row hrow
        have hboth : place'.conversation.id = known.conversation.id := hid'.trans hsame.symm
        rwa [h.places.eq_of_id hplace' hknown hboth] at hagent
      have hnew : s'.pendingFor known.conversation row.agentId message =
          wakes known.conversation message (s.replyOf message) row.agentId := by
        rw [pendingFor_eq, replyOf_of_prefix hgrown hsent.reply]
      rw [hof]
      -- It wakes the mailbox, or it is not for it and is passed over.
      by_cases hwakes : s.wakesRow known.conversation message (s.replyOf message)
          known.conversation.members row = true
      · rw [if_pos hwakes]
        unfold wakesRow at hwakes
        simp only [Bool.and_eq_true, Bool.not_eq_true'] at hwakes
        rw [hwakes.1.2] at hvalid' ⊢
        exact hvalid'.receive hbefore (by rw [hsent.sequence]; omega) _ _ _ _
      · rw [if_neg hwakes]
        apply hvalid'.pass hbefore
        rw [hnew]
        unfold wakesRow at hwakes
        simpa [hsame.symm, hown, ← Bool.not_eq_true, or_iff_not_imp_left] using hwakes
    · -- The message is of another conversation.
      have hof : s'.messagesOf row.conversationId = s.messagesOf row.conversationId := by
        unfold messagesOf
        rw [hmessages, List.filter_append,
          List.filter_cons_of_neg (by simpa using fun hsame => hconversation hsame.symm)]
        simp
      have hnot : ¬ s.wakesRow place.conversation message (s.replyOf message)
          place.conversation.members row = true := by
        unfold wakesRow
        rw [hid]
        simp [hconversation]
      rw [if_neg hnot, hof]
      exact hvalid'

/-! ## Batches -/

/-- The active batch of an agent. -/
theorem mem_of_active {agentId : ℕ} {batch : ConversationBatch}
    (h : s.active agentId = some batch) :
    batch ∈ s.batches ∧ batch.agentId = agentId ∧ batch.status ≠ .done := by
  unfold active at h
  have hbatch := List.find?_some h
  rw [Bool.and_eq_true, decide_eq_true_eq, decide_eq_true_eq] at hbatch
  exact ⟨List.mem_of_find?_eq_some h, hbatch⟩

/-- A batch that is on its way is the active one. -/
theorem BatchesValid.active_eq (h : s.BatchesValid) {batch : ConversationBatch}
    (hbatch : batch ∈ s.batches) (hstatus : batch.status ≠ .done) :
    s.active batch.agentId = some batch := by
  cases hactive : s.active batch.agentId with
  | none =>
    have hnot := List.find?_eq_none.mp hactive batch hbatch
    simp [hstatus] at hnot
  | some other =>
    obtain ⟨hother, hagent, hother'⟩ := mem_of_active hactive
    rw [h.single other hother batch hbatch hagent hother' hstatus]

/-- An agent with no active batch has only batches that are done. -/
theorem done_of_active {agentId : ℕ} (h : s.active agentId = none) :
    ∀ b ∈ s.batches, b.agentId = agentId → b.status = .done := by
  intro b hb hagent
  have hnot := List.find?_eq_none.mp h b hb
  simpa [hagent] using hnot

/-- A new batch is the only one of its agent that is on its way. -/
theorem Valid.batched (h : s.Valid) {row : MailboxRow} {selected rest : List ConversationMessage}
    {last : ConversationMessage} {id : String} (hrow : row ∈ s.mailboxes)
    (hactive : s.isDismissed row.agentId = false) (hnone : s.active row.agentId = none)
    (hselected : s.messagesAfter row.conversationId row.processed = selected ++ rest)
    (hlast : selected.getLast? = some last) (hfresh : id ∉ s.batches.map ConversationBatch.id) :
    Valid { s with
      batches := s.batches ++ [row.batch id selected last]
      mailboxes := updateMailbox row.agentId row.conversationId MailboxRow.cleared s.mailboxes } := by
  have hdone := done_of_active hnone
  apply h.of_map (f := fun mailbox =>
    if mailbox.agentId = row.agentId ∧ mailbox.conversationId = row.conversationId then
      mailbox.cleared else mailbox)
  · intro mailbox
    split_ifs <;> rfl
  · intro mailbox
    split_ifs <;> rfl
  · rfl
  · rfl
  · exact h.messages.keep rfl rfl rfl
  · constructor
    · dsimp only
      rw [List.map_append]
      exact List.Nodup.append h.batches.ids (List.nodup_singleton _)
        (List.disjoint_singleton.mpr hfresh)
    · intro b hb b' hb' hagent hstatus hstatus'
      rcases List.mem_append.mp hb with hb | hb <;> rcases List.mem_append.mp hb' with hb' | hb'
      · exact h.batches.single b hb b' hb' hagent hstatus hstatus'
      · rw [List.mem_singleton.mp hb'] at hagent
        exact absurd (hdone b hb hagent) hstatus
      · rw [List.mem_singleton.mp hb] at hagent
        exact absurd (hdone b' hb' hagent.symm) hstatus'
      · rw [List.mem_singleton.mp hb, List.mem_singleton.mp hb']
    · intro b hb hdismissed
      rcases List.mem_append.mp hb with hb | hb
      · exact h.batches.dismissed b hb hdismissed
      · rw [List.mem_singleton.mp hb] at hdismissed
        exact absurd (hdismissed.symm.trans hactive) (by decide)
    · intro b hb
      have hplace : ∃ mailbox ∈ s.mailboxes,
          mailbox.agentId = b.agentId ∧ mailbox.conversationId = b.conversationId := by
        rcases List.mem_append.mp hb with hb | hb
        · exact h.batches.mailbox b hb
        · rw [List.mem_singleton.mp hb]
          exact ⟨row, hrow, rfl, rfl⟩
      obtain ⟨mailbox, hmailbox, hsame⟩ := hplace
      refine ⟨_, List.mem_map_of_mem hmailbox, ?_⟩
      split_ifs <;> exact hsame
  · intro mailbox hmailbox place hplace hid
    have hvalid := h.rows mailbox hmailbox place hplace hid
    show MailboxRow.Valid _ (s.messagesOf mailbox.conversationId)
      ((s.batches ++ [row.batch id selected last]).filter _) (s.isDismissed mailbox.agentId)
      (s.pendingFor place.conversation mailbox.agentId)
    rw [List.filter_append]
    by_cases hown : mailbox.agentId = row.agentId ∧ mailbox.conversationId = row.conversationId
    · rw [if_pos hown]
      have hrest : ∀ b ∈ s.batchesOf mailbox.agentId mailbox.conversationId, b.status = .done := by
        intro b hb
        obtain ⟨hb, hsame⟩ := List.mem_filter.mp hb
        rw [Bool.and_eq_true, decide_eq_true_eq, decide_eq_true_eq] at hsame
        exact hdone b hb (hsame.1.trans hown.1)
      rw [List.filter_cons_of_pos (by simp [MailboxRow.batch, hown.1, hown.2])]
      -- Both cursors are where the batches end.
      have hcursor : mailbox.processed = row.processed := by
        have hrow' := h.rows row hrow place hplace (hid.trans hown.2)
        rw [hown.1, hactive] at hvalid
        rw [hown.2] at hvalid
        rw [hactive] at hrow'
        rw [hown.1, hown.2] at hrest
        rw [hvalid.cursor.eq_deliveredTo hrest, hrow'.cursor.eq_deliveredTo hrest]
      have hsplit : (s.messagesOf mailbox.conversationId).filter
          (fun m => mailbox.processed < m.sequence) = selected ++ rest := by
        rw [← hselected, hown.2, hcursor]
        unfold messagesOf messagesAfter
        rw [List.filter_filter]
        exact List.filter_congr fun m _ => Bool.and_comm _ _
      have hactive' : s.isDismissed mailbox.agentId = false := by rwa [hown.1]
      rw [hactive'] at hvalid ⊢
      exact hvalid.sealBatch (h.messages.ordered_messagesOf _) hrest hsplit hlast rfl rfl rfl
    · have hother : [row.batch id selected last].filter (fun b =>
          b.agentId = mailbox.agentId && b.conversationId = mailbox.conversationId) = [] := by
        rw [List.filter_eq_nil_iff]
        intro b hb hsame
        rw [List.mem_singleton.mp hb, Bool.and_eq_true, decide_eq_true_eq, decide_eq_true_eq]
          at hsame
        exact hown ⟨hsame.1.symm, hsame.2.symm⟩
      rw [if_neg hown, hother, List.append_nil]
      exact hvalid

/-- What is made of a batch when another one is saved. -/
def savedAs (batch : ConversationBatch) (status : BatchStatus) (b : ConversationBatch) :
    ConversationBatch :=
  if b.id = batch.id then { batch with status } else b

section Saved

variable {batch : ConversationBatch} (h : s.BatchesValid) (hbatch : batch ∈ s.batches)
  (status : BatchStatus)

include h hbatch

/-- Only the status of a batch is changed. -/
theorem savedAs_eq {b : ConversationBatch} (hb : b ∈ s.batches) :
    (savedAs batch status b).id = b.id ∧ (savedAs batch status b).agentId = b.agentId ∧
      (savedAs batch status b).conversationId = b.conversationId ∧
      (b ≠ batch → savedAs batch status b = b) := by
  unfold savedAs
  split_ifs with hid
  · obtain rfl := List.inj_on_of_nodup_map h.ids hb hbatch hid
    exact ⟨rfl, rfl, rfl, fun hne => absurd rfl hne⟩
  · exact ⟨rfl, rfl, rfl, fun _ => rfl⟩

/-- The batches of a mailbox after one was stored again. -/
theorem batchesOf_saveBatch (agentId : ℕ) (conversationId : String) :
    (s.saveBatch { batch with status }).batchesOf agentId conversationId =
      (s.batchesOf agentId conversationId).map (savedAs batch status) := by
  show (s.batches.map (savedAs batch status)).filter _ = (s.batches.filter _).map _
  rw [List.filter_map]
  congr 1
  apply List.filter_congr
  intro b hb
  obtain ⟨-, hagent, hconversation, -⟩ := savedAs_eq h hbatch status hb
  rw [Function.comp_apply, hagent, hconversation]

/-- The batches of another mailbox stay as they are. -/
theorem batchesOf_saveBatch_of_ne {agentId : ℕ} {conversationId : String}
    (hne : ¬ (batch.agentId = agentId ∧ batch.conversationId = conversationId)) :
    (s.saveBatch { batch with status }).batchesOf agentId conversationId =
      s.batchesOf agentId conversationId := by
  rw [batchesOf_saveBatch h hbatch]
  conv_rhs => rw [← List.map_id (s.batchesOf agentId conversationId)]
  apply List.map_congr_left
  intro b hb
  obtain ⟨hmem, hsame⟩ := List.mem_filter.mp hb
  rw [Bool.and_eq_true, decide_eq_true_eq, decide_eq_true_eq] at hsame
  apply (savedAs_eq h hbatch status hmem).2.2.2
  rintro rfl
  exact hne hsame

/-- The last batch of a mailbox is changed. -/
theorem batchesOf_saveBatch_of_concat {agentId : ℕ} {conversationId : String}
    {earlier : List ConversationBatch}
    (hbatches : s.batchesOf agentId conversationId = earlier ++ [batch]) :
    (s.saveBatch { batch with status }).batchesOf agentId conversationId =
      earlier ++ [{ batch with status }] := by
  have hids : ((earlier ++ [batch]).map ConversationBatch.id).Nodup := by
    rw [← hbatches]
    exact h.ids.sublist (List.filter_sublist.map ConversationBatch.id)
  rw [List.map_append, List.nodup_append] at hids
  rw [batchesOf_saveBatch h hbatch, hbatches, List.map_append]
  have hlast : [batch].map (savedAs batch status) = [{ batch with status }] := by
    simp [savedAs]
  have hearlier : earlier.map (savedAs batch status) = earlier := by
    conv_rhs => rw [← List.map_id earlier]
    apply List.map_congr_left
    intro b hb
    unfold savedAs
    rw [if_neg]
    · rfl
    · exact hids.2.2 _ (List.mem_map_of_mem hb) _ (List.mem_singleton.mpr rfl)
  rw [hlast, hearlier]

end Saved

/-- Batches of which one is saved are still valid. -/
theorem BatchesValid.saved (h : s.BatchesValid) {batch : ConversationBatch}
    (hbatch : batch ∈ s.batches) (hactive : batch.status ≠ .done) (status : BatchStatus)
    {f : MailboxRow → MailboxRow} (hagent : ∀ row, (f row).agentId = row.agentId)
    (hconversation : ∀ row, (f row).conversationId = row.conversationId)
    (hbatches : s'.batches = (s.saveBatch { batch with status }).batches)
    (hmailboxes : s'.mailboxes = s.mailboxes.map f)
    (hdismissed : ∀ agentId, s'.isDismissed agentId = true →
      s.isDismissed agentId = true ∨ agentId = batch.agentId ∧ status = .done) :
    s'.BatchesValid := by
  have hall : s'.batches = s.batches.map (savedAs batch status) := hbatches
  -- A batch that is on its way afterwards was on its way.
  have hwas : ∀ b ∈ s.batches, (savedAs batch status b).status ≠ .done → b.status ≠ .done := by
    intro b hb hstatus
    rcases eq_or_ne b batch with rfl | hne
    · exact hactive
    · rwa [(savedAs_eq h hbatch status hb).2.2.2 hne] at hstatus
  constructor
  · have hsame : (s.batches.map (savedAs batch status)).map ConversationBatch.id =
        s.batches.map ConversationBatch.id := by
      rw [List.map_map]
      exact List.map_congr_left fun b hb => (savedAs_eq h hbatch status hb).1
    rw [hall, hsame]
    exact h.ids
  · rw [hall]
    intro b hb b' hb' hagent hstatus hstatus'
    obtain ⟨c, hc, rfl⟩ := List.mem_map.mp hb
    obtain ⟨c', hc', rfl⟩ := List.mem_map.mp hb'
    rw [(savedAs_eq h hbatch status hc).2.1, (savedAs_eq h hbatch status hc').2.1] at hagent
    rw [h.single c hc c' hc' hagent (hwas c hc hstatus) (hwas c' hc' hstatus')]
  · rw [hall]
    intro b hb hgone
    obtain ⟨c, hc, rfl⟩ := List.mem_map.mp hb
    rw [(savedAs_eq h hbatch status hc).2.1] at hgone
    by_contra hstatus
    have hon := hwas c hc hstatus
    rcases hdismissed _ hgone with hbefore | ⟨hown, hdone⟩
    · exact hon (h.dismissed c hc hbefore)
    · obtain rfl := h.single c hc batch hbatch hown hon hactive
      unfold savedAs at hstatus
      rw [if_pos rfl] at hstatus
      exact hstatus hdone
  · apply mailbox_of_map hagent hconversation hmailboxes
    rw [hall]
    intro b hb
    obtain ⟨c, hc, rfl⟩ := List.mem_map.mp hb
    obtain ⟨-, hagent, hconversation, -⟩ := savedAs_eq h hbatch status hc
    rw [hagent, hconversation]
    exact h.mailbox c hc

/-- A batch is saved, and its mailbox is changed. -/
theorem Valid.saved (h : s.Valid) {batch : ConversationBatch} (hbatch : batch ∈ s.batches)
    (hactive : batch.status ≠ .done) (status : BatchStatus) (change : MailboxRow → MailboxRow)
    (hagent : ∀ row, (change row).agentId = row.agentId)
    (hconversation : ∀ row, (change row).conversationId = row.conversationId)
    (hrow : ∀ row ∈ s.mailboxes, ∀ place ∈ s.conversations,
      place.conversation.id = batch.conversationId → ∀ earlier,
      row.Valid (s.messagesOf batch.conversationId) (earlier ++ [batch]) false
        (s.pendingFor place.conversation batch.agentId) →
      (change row).Valid (s.messagesOf batch.conversationId) (earlier ++ [{ batch with status }])
        false (s.pendingFor place.conversation batch.agentId)) :
    Valid { s.saveBatch { batch with status } with
      mailboxes := updateMailbox batch.agentId batch.conversationId change s.mailboxes } := by
  have hworking : s.isDismissed batch.agentId = false := by
    rw [← Bool.not_eq_true]
    exact fun hgone => hactive (h.batches.dismissed batch hbatch hgone)
  -- Saving a batch leaves the agents and conversations of the mailboxes.
  have hkeys : ∀ row : MailboxRow,
      (if row.agentId = batch.agentId ∧ row.conversationId = batch.conversationId then change row
        else row).agentId = row.agentId := by
    intro row
    split_ifs
    · exact hagent row
    · rfl
  have hkeys' : ∀ row : MailboxRow,
      (if row.agentId = batch.agentId ∧ row.conversationId = batch.conversationId then change row
        else row).conversationId = row.conversationId := by
    intro row
    split_ifs
    · exact hconversation row
    · rfl
  refine h.of_map hkeys hkeys' rfl rfl ?_ ?_ ?_
  · exact h.messages.keep rfl rfl rfl
  · exact h.batches.saved hbatch hactive status hkeys hkeys' rfl rfl fun _ hgone => Or.inl hgone
  · intro row hmem place hplace hid
    have hvalid := h.rows row hmem place hplace hid
    show MailboxRow.Valid _ (s.messagesOf row.conversationId)
      ((s.saveBatch { batch with status }).batchesOf row.agentId row.conversationId)
      (s.isDismissed row.agentId) (s.pendingFor place.conversation row.agentId)
    -- The mailbox of the batch, whose cursor goes to its end, or another one.
    by_cases hown : row.agentId = batch.agentId ∧ row.conversationId = batch.conversationId
    · rw [if_pos hown]
      rw [hown.1, hown.2, hworking] at hvalid ⊢
      have hin : batch ∈ s.batchesOf batch.agentId batch.conversationId :=
        List.mem_filter.mpr ⟨hbatch, by simp⟩
      obtain ⟨earlier, hearlier⟩ := hvalid.cursor.exists_concat hin hactive
      rw [hearlier] at hvalid
      rw [batchesOf_saveBatch_of_concat h.batches hbatch status hearlier]
      exact hrow row hmem place hplace (hid.trans hown.2) earlier hvalid
    · rw [if_neg hown, batchesOf_saveBatch_of_ne h.batches hbatch]
      · exact hvalid
      · exact fun hsame => hown ⟨hsame.1.symm, hsame.2.symm⟩

/-! ## Dismissal -/

/-- An agent that is dismissed stays so. -/
theorem isDismissed_dismiss (agentId a : ℕ) :
    (s.dismiss agentId).isDismissed a = true ↔ s.isDismissed a = true ∨ a = agentId := by
  unfold ConversationStore.dismiss isDismissed
  dsimp only
  rw [decide_eq_true_eq, decide_eq_true_eq]
  split_ifs with hin
  · constructor
    · exact Or.inl
    · rintro (ha | rfl)
      · exact ha
      · exact hin
  · simp

/-- The mailboxes of an agent that is dismissed are cleared, and its batch is closed. -/
theorem Valid.dismiss (h : s.Valid) (agentId : ℕ) : (s.dismiss agentId).Valid := by
  have hkeys : ∀ row : MailboxRow,
      (if row.agentId = agentId then row.cleared else row).agentId = row.agentId := by
    intro row
    split_ifs <;> rfl
  have hkeys' : ∀ row : MailboxRow,
      (if row.agentId = agentId then row.cleared else row).conversationId =
        row.conversationId := by
    intro row
    split_ifs <;> rfl
  -- The other agents are dismissed or not as before.
  have hother : ∀ a, a ≠ agentId → (s.dismiss agentId).isDismissed a = s.isDismissed a := by
    intro a hne
    rw [Bool.eq_iff_iff, isDismissed_dismiss]
    simp [hne]
  have hgone : (s.dismiss agentId).isDismissed agentId = true :=
    (isDismissed_dismiss agentId agentId).mpr (Or.inr rfl)
  have hmailboxes : (s.dismiss agentId).mailboxes = s.mailboxes.map fun row =>
      if row.agentId = agentId then row.cleared else row := rfl
  -- The agent has a batch on its way, or not.
  cases hactive : s.active agentId with
  | none =>
    have hclose : s.closeBatch agentId = s := by
      unfold closeBatch
      rw [hactive]
    have hstore : s.dismiss agentId = { s with
        dismissed := if agentId ∈ s.dismissed then s.dismissed else s.dismissed ++ [agentId]
        mailboxes := s.mailboxes.map fun row =>
          if row.agentId = agentId then row.cleared else row } := by
      unfold ConversationStore.dismiss
      rw [hclose]
    refine h.of_map hkeys hkeys' (by rw [hstore]) hmailboxes ?_ ?_ ?_
    · rw [hstore]
      exact h.messages.keep rfl rfl rfl
    · have hbatches : (s.dismiss agentId).batches = s.batches := by rw [hstore]
      constructor
      · rw [hbatches]
        exact h.batches.ids
      · rw [hbatches]
        exact h.batches.single
      · rw [hbatches]
        intro b hb hdismissed
        rcases (isDismissed_dismiss agentId _).mp hdismissed with hbefore | hown
        · exact h.batches.dismissed b hb hbefore
        · exact done_of_active hactive b hb hown
      · rw [hbatches]
        exact mailbox_of_map hkeys hkeys' hmailboxes h.batches.mailbox
    · intro row hrow place hplace hid
      have hvalid := h.rows row hrow place hplace hid
      have hof : (s.dismiss agentId).messagesOf row.conversationId =
          s.messagesOf row.conversationId := by
        rw [hstore]
        rfl
      have hbatches : (s.dismiss agentId).batchesOf row.agentId row.conversationId =
          s.batchesOf row.agentId row.conversationId := by
        rw [hstore]
        rfl
      have hpending : (s.dismiss agentId).pendingFor place.conversation row.agentId =
          s.pendingFor place.conversation row.agentId := by
        rw [hstore]
        rfl
      rw [hof, hbatches, hpending]
      rcases eq_or_ne row.agentId agentId with rfl | hne
      · -- The agent's own mailbox is cleared; the others stay.
        rw [if_pos rfl, hgone]
        exact MailboxRow.Valid.dismiss hvalid.delivered hvalid.cursor.dismiss
      · rw [if_neg hne, hother _ hne]
        exact hvalid
  | some batch =>
    obtain ⟨hbatch, rfl, hstatus⟩ := mem_of_active hactive
    have hclose : s.closeBatch batch.agentId = s.saveBatch { batch with status := .done } := by
      unfold closeBatch
      rw [hactive]
    have hstore : s.dismiss batch.agentId = { s.saveBatch { batch with status := .done } with
        dismissed :=
          if batch.agentId ∈ s.dismissed then s.dismissed else s.dismissed ++ [batch.agentId]
        mailboxes := s.mailboxes.map fun row =>
          if row.agentId = batch.agentId then row.cleared else row } := by
      unfold ConversationStore.dismiss
      rw [hclose]
    refine h.of_map hkeys hkeys' (by rw [hstore]; rfl) hmailboxes ?_ ?_ ?_
    · rw [hstore]
      exact h.messages.keep rfl rfl rfl
    · refine h.batches.saved hbatch hstatus .done hkeys hkeys' (by rw [hstore]) hmailboxes ?_
      intro a ha
      rcases (isDismissed_dismiss batch.agentId a).mp ha with hbefore | hown
      · exact Or.inl hbefore
      · exact Or.inr ⟨hown, rfl⟩
    · intro row hrow place hplace hid
      have hvalid := h.rows row hrow place hplace hid
      have hof : (s.dismiss batch.agentId).messagesOf row.conversationId =
          s.messagesOf row.conversationId := by
        rw [hstore]
        rfl
      have hbatches : (s.dismiss batch.agentId).batchesOf row.agentId row.conversationId =
          (s.saveBatch { batch with status := .done }).batchesOf row.agentId row.conversationId := by
        rw [hstore]
        rfl
      have hpending : (s.dismiss batch.agentId).pendingFor place.conversation row.agentId =
          s.pendingFor place.conversation row.agentId := by
        rw [hstore]
        rfl
      rw [hof, hbatches, hpending]
      rcases eq_or_ne row.agentId batch.agentId with hagent | hne
      · rw [if_pos hagent, hagent, hgone]
        rw [hagent] at hvalid
        -- Its mailbox of the batch's conversation goes on behind the batch; its others stay.
        by_cases hconversation : row.conversationId = batch.conversationId
        · rw [hconversation] at hvalid ⊢
          have hin : batch ∈ s.batchesOf batch.agentId batch.conversationId :=
            List.mem_filter.mpr ⟨hbatch, by simp⟩
          obtain ⟨earlier, hearlier⟩ := hvalid.cursor.exists_concat hin hstatus
          rw [hearlier] at hvalid
          rw [batchesOf_saveBatch_of_concat h.batches hbatch .done hearlier]
          exact MailboxRow.Valid.dismiss (hvalid.delivered.withStatus .done)
            (hvalid.cursor.close hstatus)
        · rw [batchesOf_saveBatch_of_ne h.batches hbatch]
          · exact MailboxRow.Valid.dismiss hvalid.delivered hvalid.cursor.dismiss
          · exact fun hsame => hconversation hsame.2.symm
      · rw [if_neg hne, hother _ hne, batchesOf_saveBatch_of_ne h.batches hbatch]
        · exact hvalid
        · exact fun hsame => hne hsame.1.symm

/-! ## Outcomes -/

/-- Every outcome of a valid store is valid. -/
theorem Valid.outcome (h : s.Valid) (houtcome : Outcome s s') : s'.Valid := by
  cases houtcome with
  | same => exact h
  | created row hfresh hmembers => exact h.created hfresh hmembers
  | batched id hrow hactive hnone hselected hlast hfresh =>
    exact h.batched hrow hactive hnone hselected hlast hfresh
  -- Only the status of the batch is another; the rows stay.
  | @delivered batch hbatch hstatus =>
    have hactive : batch.status ≠ .done := by
      rw [hstatus]
      decide
    have hvalid := h.saved hbatch hactive .delivered (fun row => row) (fun _ => rfl)
      (fun _ => rfl) fun row _ place _ _ earlier hrow => hrow.deliver hactive
    have hrows : updateMailbox batch.agentId batch.conversationId (fun row => row) s.mailboxes =
        s.mailboxes := by
      unfold updateMailbox
      simp
    rw [hrows] at hvalid
    exact hvalid
  -- The cursor of the row goes to the end of the batch.
  | @acknowledged batch known hbatch hstatus hknown hconversation hnone =>
    refine h.saved hbatch hstatus .done _ (fun _ => rfl) (fun _ => rfl) ?_
    intro row _ place hplace hid earlier hrow
    apply hrow.acknowledge hstatus
    intro m hm hbeyond
    obtain ⟨hm, hof⟩ := List.mem_filter.mp hm
    have hsame : place = known :=
      h.places.eq_of_id hplace hknown (hid.trans hconversation.symm)
    rw [hsame]
    exact hnone m hm (of_decide_eq_true hof) hbeyond
  -- A message beyond the batch is left, and the row is due for it again.
  | @restored batch message now hbatch hstatus hmessage hconversation hbeyond =>
    refine h.saved hbatch hstatus .done _ (fun _ => rfl) (fun _ => rfl) ?_
    intro row _ place hplace hid earlier hrow
    have hmem : message ∈ s.messagesOf batch.conversationId :=
      List.mem_filter.mpr ⟨hmessage, decide_eq_true hconversation⟩
    exact hrow.restore hstatus hmem hbeyond message.createdAt now
  | dismissed agentId => exact h.dismiss agentId

end ConversationStore

/-- A message is found by its id, if no other has it. -/
theorem message?_of_mem {s : ConversationStore} (hids : (s.messages.map ConversationMessage.id).Nodup)
    {message : ConversationMessage} (hmessage : message ∈ s.messages) :
    s.message? message.id = some message := by
  cases hfound : s.message? message.id with
  | none =>
    have hnone := List.find?_eq_none.mp hfound message hmessage
    exact absurd (decide_eq_true rfl) hnone
  | some found =>
    have hid := List.find?_some hfound
    rw [decide_eq_true_eq] at hid
    rw [List.inj_on_of_nodup_map hids (List.mem_of_find?_eq_some hfound) hmessage hid]

end OsAgent.Conversations
