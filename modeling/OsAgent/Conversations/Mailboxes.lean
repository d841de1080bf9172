import OsAgent.Conversations.Store
import OsAgent.Library.Segments

/-!
# The mailbox of an agent

The mailbox of an agent in one conversation, with the messages of the conversation and the batches in
which the agent has got them. The batches are segments of the messages, and the cursor is where the
last one that was worked at ends. The mailbox is due only if there is a message after the batches, and
it is due, or a batch is on its way, when a message after the cursor wakes the agent
(`MailboxRow.Valid`).
-/

namespace OsAgent.Conversations

open OsAgent.Library

/-- The batches are segments of the messages. -/
abbrev Delivered (messages : List ConversationMessage) (batches : List ConversationBatch) : Prop :=
  Covers ConversationMessage.sequence ConversationBatch.upper ConversationBatch.messages messages 0
    batches

/-- How far the batches go. -/
abbrev deliveredTo (batches : List ConversationBatch) : ℕ := endOf ConversationBatch.upper 0 batches

/-- The cursor is where the batches end, or where the last one starts that was not worked at. -/
inductive CursorAt (dismissed : Bool) : List ConversationBatch → ℕ → Prop
  | worked {batches : List ConversationBatch} (hdone : ∀ b ∈ batches, b.status = .done) :
      CursorAt dismissed batches (deliveredTo batches)
  | started {batches : List ConversationBatch} {b : ConversationBatch}
      (hdone : ∀ b ∈ batches, b.status = .done) (hb : b.status ≠ .done ∨ dismissed = true) :
      CursorAt dismissed (batches ++ [b]) (deliveredTo batches)

/-- What holds of a mailbox. Here `wakes` says which messages wake the agent. -/
structure MailboxRow.Valid (row : MailboxRow) (messages : List ConversationMessage)
    (batches : List ConversationBatch) (dismissed : Bool) (wakes : ConversationMessage → Bool) :
    Prop where
  delivered : Delivered messages batches
  cursor : CursorAt dismissed batches row.processed
  /-- A mailbox that is due has something to deliver. -/
  due : row.dueAt.isSome = true →
    dismissed = false ∧ ∃ m ∈ messages, deliveredTo batches < m.sequence
  priority : 0 < row.priority → row.dueAt.isSome = true
  /-- No message that wakes the agent is forgotten. -/
  woken : dismissed = false → ∀ m ∈ messages, row.processed < m.sequence → wakes m = true →
    row.dueAt.isSome = true ∨ ∃ b ∈ batches, b.status ≠ .done

variable {row : MailboxRow} {messages : List ConversationMessage}
  {batches : List ConversationBatch} {dismissed : Bool} {wakes : ConversationMessage → Bool}
  {message : ConversationMessage} {batch : ConversationBatch} {processed : ℕ}

/-! ## The cursor -/

/-- With no batch on its way, the cursor is where the batches end. -/
theorem CursorAt.eq_deliveredTo (h : CursorAt false batches processed)
    (hdone : ∀ b ∈ batches, b.status = .done) : processed = deliveredTo batches := by
  cases h with
  | worked => rfl
  | started _ hb =>
    rcases hb with hb | hb
    · exact absurd (hdone _ (List.mem_append_right _ (List.mem_singleton.mpr rfl))) hb
    · cases hb

/-- With a batch on its way, the cursor is where it starts. -/
theorem CursorAt.of_active (h : CursorAt dismissed (batches ++ [batch]) processed)
    (hactive : batch.status ≠ .done) :
    (∀ b ∈ batches, b.status = .done) ∧ processed = deliveredTo batches := by
  generalize hall : batches ++ [batch] = all at h
  cases h with
  | worked hdone =>
    subst hall
    exact absurd (hdone _ (List.mem_append_right _ (List.mem_singleton.mpr rfl))) hactive
  | started hdone =>
    obtain ⟨rfl, -⟩ := List.append_inj' hall rfl
    exact ⟨hdone, rfl⟩

/-- A batch that is not done is the last one. -/
theorem CursorAt.exists_concat (h : CursorAt dismissed batches processed)
    (hbatch : batch ∈ batches) (hactive : batch.status ≠ .done) :
    ∃ earlier, batches = earlier ++ [batch] := by
  cases h with
  | worked hdone => exact absurd (hdone batch hbatch) hactive
  | started hdone =>
    rcases List.mem_append.mp hbatch with hearlier | hlast
    · exact absurd (hdone batch hearlier) hactive
    · rw [List.mem_singleton.mp hlast]
      exact ⟨_, rfl⟩

/-- The batches of an agent that is dismissed stay where they are. -/
theorem CursorAt.dismiss (h : CursorAt dismissed batches processed) :
    CursorAt true batches processed := by
  cases h with
  | worked hdone => exact CursorAt.worked hdone
  | started hdone => exact CursorAt.started hdone (Or.inr rfl)

/-- The cursor is not after the batches. -/
theorem MailboxRow.Valid.processed_le (h : row.Valid messages batches dismissed wakes) :
    row.processed ≤ deliveredTo batches := by
  have hdelivered := h.delivered
  generalize hprocessed : row.processed = processed
  have hcursor := h.cursor
  rw [hprocessed] at hcursor
  cases hcursor with
  | worked => exact Nat.le_refl _
  | started =>
    obtain ⟨hearlier, hentries, a, ha, hupper⟩ := covers_concat.mp hdelivered
    rw [hentries, List.mem_filter, Bool.and_eq_true, decide_eq_true_eq] at ha
    unfold deliveredTo
    rw [endOf_concat]
    omega

/-! ## Messages -/

/-- A new message comes after all batches. -/
theorem deliveredTo_lt (h : Delivered messages batches)
    (hlater : ∀ m ∈ messages, m.sequence < message.sequence) (hpositive : 0 < message.sequence) :
    deliveredTo batches < message.sequence := by
  rcases eq_or_ne batches [] with rfl | hne
  · exact hpositive
  · obtain ⟨m, hm, hend⟩ := exists_of_endOf h hne
    unfold deliveredTo
    rw [← hend]
    exact hlater m hm

/-- What was delivered stays so when a later message arrives. -/
theorem Delivered.grow (h : Delivered messages batches)
    (hlater : ∀ m ∈ messages, m.sequence < message.sequence) :
    Delivered (messages ++ [message]) batches := by
  apply Covers.grow h
  intro m hm m' hm'
  rw [List.mem_singleton.mp hm']
  exact hlater m hm

/-- A message does not change the mailbox of an agent that it does not wake. -/
theorem MailboxRow.Valid.pass (h : row.Valid messages batches dismissed wakes)
    (hlater : ∀ m ∈ messages, m.sequence < message.sequence)
    (hquiet : dismissed = true ∨ wakes message = false) :
    row.Valid (messages ++ [message]) batches dismissed wakes where
  delivered := h.delivered.grow hlater
  cursor := h.cursor
  due := by
    intro hdue
    obtain ⟨hactive, m, hm, hbeyond⟩ := h.due hdue
    exact ⟨hactive, m, List.mem_append_left _ hm, hbeyond⟩
  priority := h.priority
  woken := by
    intro hactive m hm hbeyond hwakes
    rcases List.mem_append.mp hm with hold | hnew
    · exact h.woken hactive m hold hbeyond hwakes
    · rw [List.mem_singleton.mp hnew] at hwakes
      rcases hquiet with hquiet | hquiet
      · rw [hactive] at hquiet
        cases hquiet
      · rw [hwakes] at hquiet
        cases hquiet

/-- A mailbox is due when a message has come. A low priority takes the old time into account, and a
mailbox of a high priority has one. -/
theorem MailboxRow.Valid.dueAt_receive (h : row.Valid messages batches dismissed wakes)
    (policy : ConversationPolicy) (addressed : Bool) (quiet : ℕ) (createdAt : Timestamp) :
    (row.receive policy addressed quiet createdAt).dueAt.isSome = true := by
  unfold MailboxRow.receive
  dsimp only
  split_ifs with hlower
  · obtain ⟨dueAt, hdueAt⟩ := Option.isSome_iff_exists.mp (h.priority (by omega))
    rw [hdueAt]
    rfl
  · rfl

/-- A message makes the mailbox due of an agent that it wakes. -/
theorem MailboxRow.Valid.receive (h : row.Valid messages batches false wakes)
    (hlater : ∀ m ∈ messages, m.sequence < message.sequence) (hpositive : 0 < message.sequence)
    (policy : ConversationPolicy) (addressed : Bool) (quiet : ℕ) (createdAt : Timestamp) :
    (row.receive policy addressed quiet createdAt).Valid (messages ++ [message]) batches false
      wakes where
  delivered := h.delivered.grow hlater
  cursor := h.cursor
  due := by
    intro _
    exact ⟨rfl, message, List.mem_append_right _ (List.mem_singleton.mpr rfl),
      deliveredTo_lt h.delivered hlater hpositive⟩
  priority := fun _ => h.dueAt_receive policy addressed quiet createdAt
  woken := fun _ _ _ _ _ => Or.inl (h.dueAt_receive policy addressed quiet createdAt)

/-! ## Batches -/

/-- The first messages after the cursor are those up to the last one of them. -/
theorem filter_selected (hmessages : messages.Pairwise fun m m' => m.sequence < m'.sequence)
    {selected rest : List ConversationMessage} {last : ConversationMessage}
    (hselected : messages.filter (fun m => processed < m.sequence) = selected ++ rest)
    (hlast : selected.getLast? = some last) :
    selected = messages.filter fun m =>
      processed < m.sequence && m.sequence ≤ last.sequence := by
  have hsorted : (selected ++ rest).Pairwise fun m m' => m.sequence < m'.sequence := by
    rw [← hselected]
    exact hmessages.sublist List.filter_sublist
  have hprefix := filter_le_eq_prefix hsorted hlast
  rw [← hselected, List.filter_filter] at hprefix
  rw [← hprefix]
  exact List.filter_congr fun m _ => Bool.and_comm _ _

/-- A new batch has the messages after the cursor, up to some message. -/
theorem MailboxRow.Valid.sealBatch (h : row.Valid messages batches false wakes)
    (hmessages : messages.Pairwise fun m m' => m.sequence < m'.sequence)
    (hdone : ∀ b ∈ batches, b.status = .done) {selected rest : List ConversationMessage}
    {last : ConversationMessage}
    (hselected : messages.filter (fun m => row.processed < m.sequence) = selected ++ rest)
    (hlast : selected.getLast? = some last) (hentries : batch.messages = selected)
    (hupper : batch.upper = last.sequence) (hstatus : batch.status = .queued) :
    row.cleared.Valid messages (batches ++ [batch]) false wakes where
  delivered := by
    apply covers_concat.mpr
    refine ⟨h.delivered, ?_, last, ?_, hupper.symm⟩
    · have hcursor : endOf ConversationBatch.upper 0 batches = row.processed :=
        (h.cursor.eq_deliveredTo hdone).symm
      rw [hentries, hupper, hcursor]
      exact filter_selected hmessages hselected hlast
    · rw [hentries]
      exact List.mem_of_getLast? hlast
  cursor := by
    have hcursor := h.cursor.eq_deliveredTo hdone
    show CursorAt false (batches ++ [batch]) row.processed
    rw [hcursor]
    exact CursorAt.started hdone (Or.inl (by rw [hstatus]; decide))
  due := by
    intro hdue
    cases hdue
  priority := by
    intro hpositive
    cases hpositive
  woken := by
    intro _ _ _ _ _
    exact Or.inr ⟨batch, List.mem_append_right _ (List.mem_singleton.mpr rfl),
      by rw [hstatus]; decide⟩

/-- The status of the last batch does not matter to what the batches cover. -/
theorem Delivered.withStatus (h : Delivered messages (batches ++ [batch])) (status : BatchStatus) :
    Delivered messages (batches ++ [{ batch with status }]) := by
  have hbatches := covers_concat.mp h
  exact covers_concat.mpr hbatches

/-- The status of a batch does not matter to what is delivered. -/
theorem deliveredTo_withStatus (status : BatchStatus) :
    deliveredTo (batches ++ [{ batch with status }]) = deliveredTo (batches ++ [batch]) := by
  unfold deliveredTo
  rw [endOf_concat, endOf_concat]

/-- A batch that has been delivered is still on its way. -/
theorem MailboxRow.Valid.deliver (h : row.Valid messages (batches ++ [batch]) dismissed wakes)
    (hactive : batch.status ≠ .done) :
    row.Valid messages (batches ++ [{ batch with status := .delivered }]) dismissed wakes where
  delivered := h.delivered.withStatus _
  cursor := by
    obtain ⟨hdone, hcursor⟩ := h.cursor.of_active hactive
    rw [hcursor]
    exact CursorAt.started hdone (Or.inl BatchStatus.noConfusion)
  due := by
    rw [deliveredTo_withStatus]
    exact h.due
  priority := h.priority
  woken := by
    intro _ _ _ _ _
    exact Or.inr ⟨_, List.mem_append_right _ (List.mem_singleton.mpr rfl), BatchStatus.noConfusion⟩

/-- When a batch is done, the cursor is where it ends. -/
theorem MailboxRow.Valid.processed_advance
    (h : row.Valid messages (batches ++ [batch]) dismissed wakes) (hactive : batch.status ≠ .done) :
    (row.advance batch.upper).processed = batch.upper := by
  obtain ⟨-, hcursor⟩ := h.cursor.of_active hactive
  obtain ⟨-, hentries, a, ha, hupper⟩ := covers_concat.mp h.delivered
  rw [hentries, List.mem_filter, Bool.and_eq_true, decide_eq_true_eq] at ha
  show max row.processed batch.upper = batch.upper
  rw [hcursor]
  unfold deliveredTo
  omega

/-- When a batch is done the cursor is at its end. -/
theorem MailboxRow.Valid.cursor_advance
    (h : row.Valid messages (batches ++ [batch]) dismissed wakes) (hactive : batch.status ≠ .done) :
    CursorAt dismissed (batches ++ [{ batch with status := .done }])
      (row.advance batch.upper).processed := by
  have hdone : ∀ b ∈ batches ++ [{ batch with status := .done }], b.status = .done := by
    intro b hb
    rcases List.mem_append.mp hb with hearlier | hlast
    · exact (h.cursor.of_active hactive).1 b hearlier
    · rw [List.mem_singleton.mp hlast]
  have hcursor : CursorAt dismissed _ _ := CursorAt.worked hdone
  rw [h.processed_advance hactive]
  unfold deliveredTo at hcursor
  rwa [endOf_concat] at hcursor

/-- A batch is done, and no message after it wakes the agent. -/
theorem MailboxRow.Valid.acknowledge (h : row.Valid messages (batches ++ [batch]) dismissed wakes)
    (hactive : batch.status ≠ .done)
    (hnone : ∀ m ∈ messages, batch.upper < m.sequence → wakes m = false) :
    (row.advance batch.upper).Valid messages (batches ++ [{ batch with status := .done }])
      dismissed wakes where
  delivered := h.delivered.withStatus _
  cursor := h.cursor_advance hactive
  due := by
    rw [deliveredTo_withStatus]
    exact h.due
  priority := h.priority
  woken := by
    intro _ m hm hbeyond hwakes
    rw [h.processed_advance hactive] at hbeyond
    rw [hnone m hm hbeyond] at hwakes
    cases hwakes

/-- A batch is done, and a message after it wakes the agent: the mailbox is due again. -/
theorem MailboxRow.Valid.restore (h : row.Valid messages (batches ++ [batch]) false wakes)
    (hactive : batch.status ≠ .done) (hmessage : message ∈ messages)
    (hbeyond : batch.upper < message.sequence) (firstAt now : Timestamp) :
    ((row.advance batch.upper).restore firstAt now).Valid messages
      (batches ++ [{ batch with status := .done }]) false wakes where
  delivered := h.delivered.withStatus _
  cursor := h.cursor_advance hactive
  due := by
    intro _
    refine ⟨rfl, message, hmessage, ?_⟩
    unfold deliveredTo
    rwa [endOf_concat]
  priority := fun _ => rfl
  woken := fun _ _ _ _ _ => Or.inl rfl

/-! ## Dismissal -/

/-- The mailbox of an agent that is dismissed is never due. -/
theorem MailboxRow.Valid.dismiss {batches' : List ConversationBatch}
    (hdelivered : Delivered messages batches') (hcursor : CursorAt true batches' row.processed) :
    row.cleared.Valid messages batches' true wakes where
  delivered := hdelivered
  cursor := hcursor
  due := by
    intro hdue
    cases hdue
  priority := by
    intro hpositive
    cases hpositive
  woken := by
    intro hactive
    cases hactive

/-- Its last batch is closed, and the cursor stays where it is. -/
theorem CursorAt.close (h : CursorAt dismissed (batches ++ [batch]) processed)
    (hactive : batch.status ≠ .done) :
    CursorAt true (batches ++ [{ batch with status := .done }]) processed := by
  obtain ⟨hdone, hcursor⟩ := h.of_active hactive
  rw [hcursor]
  exact CursorAt.started hdone (Or.inr rfl)

/-- What the messages wake matters only for those that there are. -/
theorem MailboxRow.Valid.congr (h : row.Valid messages batches dismissed wakes)
    {wakes' : ConversationMessage → Bool} (hwakes : ∀ m ∈ messages, wakes' m = wakes m) :
    row.Valid messages batches dismissed wakes' where
  delivered := h.delivered
  cursor := h.cursor
  due := h.due
  priority := h.priority
  woken := by
    intro hactive m hm hbeyond hsome
    rw [hwakes m hm] at hsome
    exact h.woken hactive m hm hbeyond hsome

end OsAgent.Conversations
