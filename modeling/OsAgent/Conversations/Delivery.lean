import Mathlib.Algebra.Order.BigOperators.Group.List
import OsAgent.AgentContext.Types
import OsAgent.Conversations.Runs
import OsAgent.Library.JsonSize

/-!
# The size of a batch as it is delivered

The size of a message is estimated three times, each time with another reserve: `send` keeps 1200 bytes
free beside the message, `seal` 800 for the delivery and 400 for each message. The runtime makes a context
delivery of the batch (`agent-runtime/internal/runtime.ts`), which adds to a message its identity, its
time and the name of its sender. `fits_iff_room` says when the reserves are enough for every name.
-/

namespace OsAgent.Conversations

open OsAgent.Library
open OsAgent.Context (ContextDelivery ContextEntry)

/-! ## The delivery -/

/-- `value.trim()`. -/
def trim (s : String) : String :=
  String.ofList ((s.toList.dropWhile isTrimmed).reverse.dropWhile isTrimmed).reverse

/-- The names that the runtime takes for an agent, `z.string().trim().min(1).max(80)`. -/
def parseDisplayName (name : String) : Option String :=
  if 1 ≤ lengthOf (trim name) ∧ lengthOf (trim name) ≤ 80 then some (trim name) else none

/-- A name that an agent may have. -/
def IsDisplayName (name : String) : Prop := ∃ input, parseDisplayName input = some name

/-- The name under which a sender is shown. -/
def senderName (displayName : ℕ → String) : ConversationMember → String
  | .user _ => "用户"
  | .agent id => displayName id

/-- The record of a message in a delivery. -/
def messageEntry (displayName : ℕ → String) (message : ConversationMessage) : ContextEntry where
  id := message.id
  createdAt := message.createdAt
  content := .event "conversation_message" (.object (message.properties ++
    [("senderName", .string (senderName displayName message.sender))]))

/-- The context in which an agent takes part in a conversation. -/
def conversationContextKey (id : ℕ) (conversationId : String) : String :=
  "agent:" ++ toString id ++ ":conversation:" ++ conversationId

/-- `resolveEvent` for the event of a batch, and the key that the runner puts to it. -/
def resolveEvent (displayName : ℕ → String) (agentId : ℕ) (contextKey : String)
    (batch : ConversationBatch) : Except StoreError ContextDelivery := do
  require (batch.agentId = agentId ∧
      contextKey = conversationContextKey batch.agentId batch.conversationId)
    (.error "投递批次与当前会话不一致。")
  pure {
    key := "event:" ++ batch.id
    entries := batch.messages.map (messageEntry displayName)
    target := none }

/-- What `randomUUID` returns has 36 characters. -/
def isUuid (id : String) : Bool :=
  id.toList.length = 36 && id.toList.all fun c => c ∈ "0123456789abcdef-".toList

/-- The identities that the host gives. -/
def StoreCall.HasUuid : StoreCall → Prop
  | .create _ host => isUuid host.id = true
  | .send _ _ _ _ _ host => isUuid host.id = true
  | .sealBatch _ _ host => isUuid host.id = true
  | _ => True

/-- The runs of the store whose identities are those of the host. -/
def uuidSystem (policy : ConversationPolicy) (sha256 : String → String) :
    TransitionSystem ConversationStore where
  init s := s = {}
  step s s' := ∃ call : StoreCall, call.HasUuid ∧ s' = call.after policy sha256 s

namespace ConversationStore

variable (s : ConversationStore)

/-- The mailbox that `seal` takes. -/
def nextMailbox (agentId : ℕ) (now : Timestamp) : Option MailboxRow :=
  ((s.mailboxes.filter fun row => row.agentId = agentId && row.dueAt.any fun dueAt => dueAt ≤ now
    ).mergeSort sealedBefore).head?

/-- The messages from which `seal` takes a batch. -/
def waiting (agentId : ℕ) (now : Timestamp) : List ConversationMessage :=
  if s.isDismissed agentId = true ∨ s.active agentId ≠ none then []
  else
    match s.nextMailbox agentId now with
    | none => []
    | some row => s.messagesAfter row.conversationId row.processed

/-- A message that is sent within a limit is within every batch that starts with it. -/
def Includes (policy : ConversationPolicy) (sha256 : String → String) : Prop :=
  ∀ conversationId sender input phase limit host message s',
    s.send policy sha256 conversationId sender input phase (some limit) host = .ok (message, s') →
    message ∉ s.messages →
    ∀ t agentId maxBytes host', limit ≤ maxBytes →
      (waiting t agentId host'.now).head? = some message →
      "chat:" ++ host'.id ∉ t.batches.map ConversationBatch.id →
      ∃ batch t', t.sealBatch agentId maxBytes host' = .ok (some batch, t') ∧
        batch.messages.head? = some message

/-- Whatever the agents are called, the delivery of a batch is within the limit of the batch. -/
def Fits (agentId : ℕ) (host : Host) : Prop :=
  ∀ displayName : ℕ → String, (∀ id, IsDisplayName (displayName id)) →
    ∀ maxBytes batch s', s.active agentId = none →
      s.sealBatch agentId maxBytes host = .ok (some batch, s') →
      ∀ contextKey delivery, resolveEvent displayName agentId contextKey batch = .ok delivery →
        jsonSize delivery.toJson ≤ maxBytes

end ConversationStore

/-- The bytes of a time. -/
def timeSize (m : ConversationMessage) : ℕ := jsonSize (.ofNat m.createdAt)

/-- The bytes of the longest name of a sender, with its quotes. -/
def longestName : ConversationMember → ℕ
  | .user _ => 8
  | .agent _ => 482

/-- The reserves are enough for the first messages, however many of them are taken. -/
def Room (waiting : List ConversationMessage) : Prop :=
  ∀ taken, taken <+: waiting → taken.length ≤ 16 →
    (taken.map fun m => timeSize m + longestName m.sender).sum ≤ 731 + 274 * taken.length

/-! ## Sizes -/

/-- The written message has the size that the store reserves for it. -/
theorem size_written (m : ConversationMessage) : jsonSize m.written = m.size := by
  have hswap : [("id", JsonValue.string m.id), ("conversationId", .string m.conversationId),
      ("sequence", .ofNat m.sequence), ("sender", m.sender.toJson), ("content", .string m.content),
      ("createdAt", .ofNat m.createdAt), ("replyTo", .ofString? m.replyTo),
      ("mentions", .array (m.mentions.map .ofNat)), ("phaseId", .string m.phaseId)].Perm
      m.properties :=
    List.Perm.cons _ (List.Perm.swap _ _ _)
  exact jsonSize_object_perm hswap

/-- The characters of an identity are one byte each. -/
theorem plain_of_isUuid {id : String} (h : isUuid id = true) :
    ∀ c ∈ id.toList, quoteChar c = [c] ∧ c.utf8Size = 1 := by
  have hplain : ∀ c ∈ "0123456789abcdef-".toList, quoteChar c = [c] ∧ c.utf8Size = 1 :=
    List.forall_iff_forall_mem.mp (by decide)
  unfold isUuid at h
  rw [Bool.and_eq_true, List.all_eq_true] at h
  intro c hc
  exact hplain c (of_decide_eq_true (h.2 c hc))

/-- An identifier of the usual form takes 38 bytes. -/
theorem textSize_of_isUuid {id : String} (h : isUuid id = true) : textSize id = 38 := by
  rw [textSize_of_plain (plain_of_isUuid h)]
  unfold isUuid at h
  rw [Bool.and_eq_true, decide_eq_true_eq] at h
  rw [h.1]

/-- The key of an event takes 49 bytes. -/
theorem textSize_eventKey {id : String} (h : isUuid id = true) :
    textSize ("event:" ++ ("chat:" ++ id)) = 49 := by
  have hplain : ∀ c ∈ "event:chat:".toList, quoteChar c = [c] ∧ c.utf8Size = 1 :=
    List.forall_iff_forall_mem.mp (by decide)
  have htext : ("event:" ++ ("chat:" ++ id)).toList = "event:chat:".toList ++ id.toList := by
    rw [← String.append_assoc, String.toList_append]
    rfl
  rw [textSize_of_plain]
  · unfold isUuid at h
    rw [Bool.and_eq_true, decide_eq_true_eq] at h
    rw [htext, List.length_append, h.1]
    rfl
  · rw [htext]
    intro c hc
    rcases List.mem_append.mp hc with hleft | hright
    · exact hplain c hleft
    · exact plain_of_isUuid h c hright

/-- A record of a message takes 125 bytes more than the message, its time and the name. -/
theorem jsonSize_messageEntry (displayName : ℕ → String) {m : ConversationMessage}
    (h : isUuid m.id = true) : jsonSize (messageEntry displayName m).toJson =
      m.size + timeSize m + textSize (senderName displayName m.sender) + 125 := by
  have hdata : jsonSize (.object (m.properties ++
      [("senderName", .string (senderName displayName m.sender))])) =
        m.size + textSize (senderName displayName m.sender) + 14 := by
    have hsize : m.size = (m.properties.map propertySize).sum + 1 := jsonSize_object (by
      unfold ConversationMessage.properties
      exact List.cons_ne_nil _ _)
    rw [jsonSize_object (by simp), List.map_append, List.sum_append, hsize, List.map_singleton,
      List.sum_singleton]
    unfold propertySize
    have hname : textSize "senderName" = 12 := textSize_of_forall (by decide)
    rw [hname, jsonSize_string]
    omega
  unfold ContextEntry.toJson messageEntry
  dsimp only
  rw [jsonSize_object (by simp)]
  unfold OsAgent.Context.ContextEntryContent.properties
  dsimp only [List.cons_append, List.nil_append]
  simp only [List.map_cons, List.map_nil, List.sum_cons, List.sum_nil]
  unfold propertySize
  dsimp only
  rw [hdata]
  simp only [jsonSize_string]
  rw [textSize_of_isUuid h]
  -- The sizes of the names that every record has.
  have hid : textSize "id" = 4 := textSize_of_forall (by decide)
  have htime : textSize "createdAt" = 11 := textSize_of_forall (by decide)
  have hkind : textSize "kind" = 6 := textSize_of_forall (by decide)
  have hevent : textSize "event" = 7 := textSize_of_forall (by decide)
  have hname : textSize "name" = 6 := textSize_of_forall (by decide)
  have hmessage : textSize "conversation_message" = 22 := textSize_of_forall (by decide)
  have hdata : textSize "data" = 6 := textSize_of_forall (by decide)
  rw [hid, htime, hkind, hevent, hname, hmessage, hdata]
  unfold timeSize
  omega

/-- What the messages take in the estimate of `seal`. -/
def reserved (messages : List ConversationMessage) : ℕ :=
  (messages.map fun m => m.size + 400).sum

/-- What the runtime adds to the messages: their times and names. -/
def added (displayName : ℕ → String) (messages : List ConversationMessage) : ℕ :=
  (messages.map fun m => timeSize m + textSize (senderName displayName m.sender)).sum

/-- The entries of messages take what is reserved for them, and what the times and the names add. -/
theorem sum_messageEntry (displayName : ℕ → String) {messages : List ConversationMessage}
    (h : ∀ m ∈ messages, isUuid m.id = true) :
    (messages.map fun m => jsonSize (messageEntry displayName m).toJson + 1).sum +
      274 * messages.length = reserved messages + added displayName messages := by
  unfold reserved added
  induction messages with
  | nil => rfl
  | cons m messages ih =>
    have hm := jsonSize_messageEntry displayName (h m List.mem_cons_self)
    have hrest := ih fun m hm => h m (List.mem_cons_of_mem _ hm)
    simp only [List.map_cons, List.sum_cons, List.length_cons]
    omega

/-- The delivery is within the limit if the names are not longer than what is left of the reserves. -/
theorem jsonSize_resolveEvent {displayName : ℕ → String} {agentId : ℕ} {contextKey id : String}
    {batch : ConversationBatch} {delivery : ContextDelivery}
    (h : resolveEvent displayName agentId contextKey batch = .ok delivery)
    (hid : batch.id = "chat:" ++ id) (huuid : isUuid id = true)
    (hmessages : ∀ m ∈ batch.messages, isUuid m.id = true) (hsome : batch.messages ≠ []) :
    jsonSize delivery.toJson + 274 * batch.messages.length =
      reserved batch.messages + added displayName batch.messages + 69 := by
  unfold resolveEvent at h
  rw [check_bind_eq_ok, pure_eq_ok] at h
  rw [← h.2]
  show jsonSize (.object [("key", .string ("event:" ++ batch.id)),
    ("entries", .array ((batch.messages.map (messageEntry displayName)).map
      ContextEntry.toJson))]) + _ = _
  rw [jsonSize_object (List.cons_ne_nil _ _)]
  simp only [List.map_cons, List.map_nil, List.sum_cons, List.sum_nil]
  unfold propertySize
  dsimp only
  rw [jsonSize_string, hid, textSize_eventKey huuid, jsonSize_array (by simpa using hsome),
    List.map_map, List.map_map]
  have hkey : textSize "key" = 5 := textSize_of_forall (by decide)
  have hentries : textSize "entries" = 9 := textSize_of_forall (by decide)
  have hsum := sum_messageEntry displayName hmessages
  rw [hkey, hentries, ← hsum]
  show 5 + 49 + 2 + (9 + ((batch.messages.map fun m =>
    jsonSize (messageEntry displayName m).toJson + 1).sum + 1) + 2 + 0) + 1 + _ = _
  omega

/-- In the context of its conversation, a batch of the agent is delivered. -/
theorem exists_resolveEvent (displayName : ℕ → String) {agentId : ℕ} {batch : ConversationBatch}
    (h : batch.agentId = agentId) : ∃ delivery, resolveEvent displayName agentId
      (conversationContextKey agentId batch.conversationId) batch = .ok delivery := by
  have hrequire : require (batch.agentId = agentId ∧
      conversationContextKey agentId batch.conversationId =
        conversationContextKey batch.agentId batch.conversationId)
      (StoreError.error "投递批次与当前会话不一致。") = .ok () :=
    require_eq_ok.mpr ⟨h, by rw [h]⟩
  unfold resolveEvent
  rw [hrequire]
  exact ⟨_, rfl⟩

/-! ## Filling a batch -/

namespace ConversationStore

/-- A batch is within the limit by the estimate of `seal`, and has sixteen messages at most. -/
theorem reserved_select {maxBytes : ℕ} (incoming : List ConversationMessage) {bytes count : ℕ}
    (hbytes : bytes ≤ maxBytes) (hcount : count ≤ 16) :
    bytes + reserved (select maxBytes bytes count incoming) ≤ maxBytes ∧
      count + (select maxBytes bytes count incoming).length ≤ 16 := by
  induction incoming generalizing bytes count with
  | nil => exact ⟨hbytes, hcount⟩
  | cons m incoming ih =>
    unfold select
    dsimp only
    split_ifs with hfull
    · exact ⟨hbytes, hcount⟩
    · have hroom : bytes + (m.size + 400) ≤ maxBytes := by omega
      have hless : count + 1 ≤ 16 := by omega
      obtain ⟨hsum, hlength⟩ := ih hroom hless
      unfold reserved at hsum ⊢
      rw [List.map_cons, List.sum_cons, List.length_cons]
      constructor <;> omega

/-- Messages for which there is room are taken. -/
theorem select_append {maxBytes : ℕ} {taken rest : List ConversationMessage} {bytes count : ℕ}
    (hbytes : bytes + reserved taken ≤ maxBytes) (hcount : count + taken.length ≤ 16) :
    select maxBytes bytes count (taken ++ rest) =
      taken ++ select maxBytes (bytes + reserved taken) (count + taken.length) rest := by
  induction taken generalizing bytes count with
  | nil => rfl
  | cons m taken ih =>
    have hreserved : bytes + reserved (m :: taken) = bytes + (m.size + 400) + reserved taken := by
      unfold reserved
      rw [List.map_cons, List.sum_cons]
      omega
    have hlength : count + (m :: taken).length = count + 1 + taken.length := by
      rw [List.length_cons]
      omega
    rw [hreserved, hlength, List.cons_append, List.cons_append]
    rw [hreserved] at hbytes
    rw [hlength] at hcount
    conv_lhs => unfold select
    dsimp only
    rw [if_neg (by omega), ih hbytes hcount]

/-- With just enough room for some of the messages, a batch has these. -/
theorem select_of_reserved {taken rest : List ConversationMessage} {bytes count : ℕ}
    (hcount : count + taken.length ≤ 16) :
    select (bytes + reserved taken) bytes count (taken ++ rest) = taken := by
  rw [select_append (Nat.le_refl _) hcount]
  cases rest with
  | nil => exact List.append_nil taken
  | cons m rest =>
    unfold select
    dsimp only
    rw [if_pos (by omega), List.append_nil]

/-- The first message is taken if there is room for it. -/
theorem head?_select {maxBytes : ℕ} {message : ConversationMessage}
    {incoming : List ConversationMessage} (hhead : incoming.head? = some message)
    (hroom : message.size + 1200 ≤ maxBytes) :
    (select maxBytes 800 0 incoming).head? = some message := by
  cases incoming with
  | nil => cases hhead
  | cons m incoming =>
    cases hhead
    have hsum : 800 + (message.size + 400) = message.size + 1200 := by
      rw [← Nat.add_assoc]
      omega
    unfold select
    dsimp only
    rw [hsum, if_neg (by omega)]
    rfl

end ConversationStore

/-! ## What `seal` takes -/

namespace ConversationStore

variable {s s' : ConversationStore} {policy : ConversationPolicy} {sha256 : String → String}
  {agentId maxBytes : ℕ} {host : Host}

/-- A new batch has the first of the messages that wait. -/
theorem messages_of_sealBatch {batch : ConversationBatch} (hnone : s.active agentId = none)
    (h : s.sealBatch agentId maxBytes host = .ok (some batch, s')) :
    batch.id = "chat:" ++ host.id ∧ batch.agentId = agentId ∧ batch.messages ≠ [] ∧
      batch.messages = select maxBytes 800 0 (s.waiting agentId host.now) := by
  unfold sealBatch at h
  by_cases hdismissed : s.isDismissed agentId = true
  · -- A dismissed agent gets no batch.
    rw [if_pos hdismissed] at h
    cases h
  rw [if_neg hdismissed, hnone] at h
  dsimp only at h
  have hwaiting : s.waiting agentId host.now = match s.nextMailbox agentId host.now with
      | none => []
      | some row => s.messagesAfter row.conversationId row.processed := by
    unfold waiting
    rw [if_neg (by simp [hdismissed, hnone])]
  rw [hwaiting]
  split at h
  · cases h
  · next row hrow =>
    have hnext : s.nextMailbox agentId host.now = some row := hrow
    rw [hnext]
    dsimp only
    obtain ⟨⟨filled, s''⟩, hfilled, h⟩ := bind_eq_ok.mp h
    rw [pure_eq_ok] at h
    cases h
    unfold sealRow at hfilled
    dsimp only at hfilled
    split at hfilled
    · cases hfilled
    · -- The batch holds the messages of the mailbox after its cursor, which are those that wait.
      next last hlast =>
      rw [check_bind_eq_ok, pure_eq_ok] at hfilled
      rw [← (Prod.mk.inj hfilled.2).1]
      refine ⟨rfl, rfl, ?_, rfl⟩
      intro hempty
      dsimp only at hempty
      rw [hempty] at hlast
      cases hlast

/-- If there is room for a message that waits, there is a batch. -/
theorem exists_sealBatch
    (hsome : select maxBytes 800 0 (s.waiting agentId host.now) ≠ [])
    (hfresh : "chat:" ++ host.id ∉ s.batches.map ConversationBatch.id) :
    ∃ batch s', s.active agentId = none ∧
      s.sealBatch agentId maxBytes host = .ok (some batch, s') := by
  unfold waiting at hsome
  split_ifs at hsome with hnot
  · exact absurd rfl hsome
  · obtain ⟨hdismissed, hnone⟩ := not_or.mp hnot
    rw [ne_eq, not_not] at hnone
    split at hsome
    · exact absurd rfl hsome
    · next row hrow =>
      obtain ⟨last, hlast⟩ := Option.ne_none_iff_exists'.mp
        (mt List.getLast?_eq_none_iff.mp hsome)
      unfold sealBatch
      rw [if_neg hdismissed, hnone]
      dsimp only
      unfold nextMailbox at hrow
      rw [hrow]
      dsimp only
      unfold sealRow
      dsimp only
      rw [hlast]
      dsimp only
      have hrequire : require ("chat:" ++ host.id ∉ s.batches.map ConversationBatch.id)
          (StoreError.constraint "chat_batches.id") = .ok () := require_eq_ok.mpr hfresh
      rw [hrequire]
      exact ⟨_, _, rfl, rfl⟩

/-- A message that `send` has accepted within a limit can be the first one of a batch. -/
theorem includes (s : ConversationStore) : s.Includes policy sha256 := by
  intro conversationId sender input phase limit host message s' hsend hnew t agentId maxBytes host'
    hlimit hhead hfresh
  rcases send_cases hsend with ⟨-, hmem⟩ | hsent
  · exact absurd hmem hnew
  · have hfits := hsent.fits limit rfl
    have hroom : message.size + 1200 ≤ maxBytes := by
      rw [show byteLength (stringify message.written) = message.size from size_written message]
        at hfits
      exact hfits.trans hlimit
    have htaken := head?_select hhead hroom
    have hsome : select maxBytes 800 0 (waiting t agentId host'.now) ≠ [] := by
      intro hempty
      rw [hempty] at htaken
      cases htaken
    obtain ⟨batch, t', hnone, hseal⟩ := exists_sealBatch hsome hfresh
    refine ⟨batch, t', hseal, ?_⟩
    rw [(messages_of_sealBatch hnone hseal).2.2.2]
    exact htaken

/-! ## Identities -/

/-- The messages of a store have the identities that the host gave. -/
theorem isUuid_of_reachable (h : (uuidSystem policy sha256).Reachable s) :
    ∀ m ∈ s.messages, isUuid m.id = true := by
  apply h.invariant (P := fun s => ∀ m ∈ s.messages, isUuid m.id = true)
  · rintro s rfl m hm
    cases hm
  · rintro s s' _ hmessages ⟨call, hcall, rfl⟩
    rcases (after_cases call s : Outcome s (call.after policy sha256 s) ∨ _) with
      houtcome | ⟨_, _, _, _, _, _, message, rfl, hsent⟩
    · rw [houtcome.same_messages.1]
      exact hmessages
    · obtain ⟨_, _, _, _, _, _, _, hstore⟩ := hsent.stored
      intro m hm
      rw [hstore] at hm
      rcases List.mem_append.mp hm with hold | hnew
      · exact hmessages m hold
      · rw [List.mem_singleton.mp hnew, hsent.id]
        exact hcall

/-- A message that waits is in the store. -/
theorem mem_waiting {m : ConversationMessage} {now : Timestamp} (h : m ∈ s.waiting agentId now) :
    m ∈ s.messages := by
  unfold waiting at h
  split_ifs at h
  · cases h
  · split at h
    · cases h
    · exact (mem_messagesAfter.mp h).1

end ConversationStore

/-! ## Names -/

/-- A name is written in 482 bytes at most. -/
theorem textSize_of_isDisplayName {name : String} (h : IsDisplayName name) :
    textSize name ≤ 482 := by
  obtain ⟨input, hname⟩ := h
  unfold parseDisplayName at hname
  split_ifs at hname with hlength
  cases hname
  have hsize := textSize_le (trim input)
  have hunits : ((trim input).toList.map utf16Length).sum ≤ 80 := hlength.2
  omega

/-- A name of which every character is written as an escape. -/
def escapedName : String := String.ofList (List.replicate 80 '\x01')

/-- The name is one that an agent may have. -/
theorem isDisplayName_escapedName : IsDisplayName escapedName :=
  ⟨escapedName, by decide⟩

/-- The name is written with 482 bytes. -/
theorem textSize_escapedName : textSize escapedName = 482 := by decide +kernel

/-- The name that the runtime gives a user. -/
theorem textSize_user : textSize "用户" = 8 := by decide +kernel

/-- The names add what the longest names add, at most. -/
theorem added_le {displayName : ℕ → String} (h : ∀ id, IsDisplayName (displayName id))
    (messages : List ConversationMessage) : added displayName messages ≤
      (messages.map fun m => timeSize m + longestName m.sender).sum := by
  apply List.sum_le_sum
  intro m _
  apply Nat.add_le_add_left
  unfold senderName longestName
  cases m.sender with
  | user id => exact textSize_user.le
  | agent id => exact textSize_of_isDisplayName (h id)

/-- What is added are the time and the longest name. -/
theorem added_escapedName (messages : List ConversationMessage) :
    added (fun _ => escapedName) messages =
      (messages.map fun m => timeSize m + longestName m.sender).sum := by
  unfold added
  congr 1
  apply List.map_congr_left
  intro m _
  congr 1
  unfold senderName longestName
  cases m.sender with
  | user id => exact textSize_user
  | agent id => exact textSize_escapedName

/-! ## When the reserves are enough -/

namespace ConversationStore

variable {s : ConversationStore} {policy : ConversationPolicy} {sha256 : String → String}
  {agentId : ℕ} {host : Host}

/-- Where there is room the batch fits. -/
theorem fits_of_room (h : (uuidSystem policy sha256).Reachable s) (huuid : isUuid host.id = true)
    (hroom : Room (s.waiting agentId host.now)) : s.Fits agentId host := by
  intro displayName hnames maxBytes batch s' hnone hseal contextKey delivery hresolve
  obtain ⟨hid, -, hsome, hmessages⟩ := messages_of_sealBatch hnone hseal
  obtain ⟨rest, hrest⟩ := exists_select maxBytes 800 0 (s.waiting agentId host.now)
  -- The batch is not empty, so there was room for the first message at least.
  have hbytes : 800 ≤ maxBytes := by
    by_contra hless
    apply hsome
    rw [hmessages]
    cases s.waiting agentId host.now with
    | nil => rfl
    | cons m incoming =>
      unfold select
      dsimp only
      rw [if_pos (by omega)]
  obtain ⟨hreserved, hlength⟩ :=
    reserved_select (s.waiting agentId host.now) hbytes (Nat.zero_le 16)
  rw [← hmessages] at hreserved hlength hrest
  have hids : ∀ m ∈ batch.messages, isUuid m.id = true := by
    intro m hm
    apply isUuid_of_reachable h m
    have hwaiting : m ∈ s.waiting agentId host.now := by
      rw [hrest]
      exact List.mem_append_left _ hm
    exact mem_waiting hwaiting
  have hsize := jsonSize_resolveEvent hresolve hid huuid hids hsome
  have hadded := added_le hnames batch.messages
  have hlimit := hroom batch.messages ⟨rest, hrest.symm⟩ (by omega)
  omega

/-- Where the batch fits there is room. -/
theorem room_of_fits (h : (uuidSystem policy sha256).Reachable s) (huuid : isUuid host.id = true)
    (hfresh : "chat:" ++ host.id ∉ s.batches.map ConversationBatch.id)
    (hfits : s.Fits agentId host) : Room (s.waiting agentId host.now) := by
  rintro taken ⟨rest, hrest⟩ hlength
  by_cases hempty : taken = []
  · rw [hempty]
    exact Nat.zero_le _
  · -- With just enough room for these messages, they are the batch.
    have htaken : select (800 + reserved taken) 800 0 (s.waiting agentId host.now) = taken := by
      rw [← hrest]
      exact select_of_reserved (by omega)
    obtain ⟨batch, s', hnone, hseal⟩ := exists_sealBatch (by rw [htaken]; exact hempty) hfresh
    obtain ⟨hid, hagent, hsome, hmessages⟩ := messages_of_sealBatch hnone hseal
    rw [htaken] at hmessages
    have hids : ∀ m ∈ batch.messages, isUuid m.id = true := by
      intro m hm
      apply isUuid_of_reachable h m
      have hwaiting : m ∈ s.waiting agentId host.now := by
        rw [← hrest, ← hmessages]
        exact List.mem_append_left _ hm
      exact mem_waiting hwaiting
    obtain ⟨delivery, hresolve⟩ := exists_resolveEvent (fun _ => escapedName) hagent
    have hlimit := hfits _ (fun _ => isDisplayName_escapedName) _ batch s' hnone hseal _ _ hresolve
    have hsize := jsonSize_resolveEvent hresolve hid huuid hids hsome
    rw [added_escapedName, hmessages] at hsize
    omega

/-- A message that was accepted is within every batch, and the deliveries of the batches are within
their limits, if and only if the reserves are enough for the longest names. -/
theorem fits_iff_room (h : (uuidSystem policy sha256).Reachable s) (huuid : isUuid host.id = true)
    (hfresh : "chat:" ++ host.id ∉ s.batches.map ConversationBatch.id) :
    (s.Includes policy sha256 ∧ s.Fits agentId host) ↔ Room (s.waiting agentId host.now) := by
  constructor
  · rintro ⟨-, hfits⟩
    exact room_of_fits h huuid hfresh hfits
  · intro hroom
    exact ⟨includes s, fits_of_room h huuid hroom⟩

/-! ## A batch that does not fit -/

/-- A run of calls with identifiers of the usual form leads to a reachable store. -/
theorem reachable_foldl {calls : List StoreCall} (h : (uuidSystem policy sha256).Reachable s)
    (hcalls : ∀ call ∈ calls, call.HasUuid) : (uuidSystem policy sha256).Reachable
      (calls.foldl (fun s call => call.after policy sha256 s) s) := by
  induction calls generalizing s with
  | nil => exact h
  | cons call calls ih =>
    rw [List.foldl_cons]
    apply ih
    · exact h.step ⟨call, hcalls call List.mem_cons_self, rfl⟩
    · exact fun c hc => hcalls c (List.mem_cons_of_mem _ hc)

/-- Identities of the form that the host gives. -/
def exampleUuid (n : ℕ) : String := "00000000-0000-4000-8000-00000000000" ++ toString n

/-- A short message of the second agent in a group. -/
def exampleSend (n : ℕ) : StoreCall :=
  .send (exampleUuid 0) (.agent 2) { content := "done", idempotencyKey := toString n }
    (some "legacy:2") (some 3500) { id := exampleUuid (n + 1), now := 1700000000000 }

/-- The first agent has four messages of the second one before it. -/
def fourMessages : ConversationStore :=
  (StoreCall.create groupOfTwo { id := exampleUuid 0, now := 1700000000000 } ::
    [0, 1, 2, 3].map exampleSend).foldl (fun s call => call.after {} (fun text => text) s) {}

/-- The host when the mailbox is due. -/
def exampleHost : Host where
  id := exampleUuid 9
  now := 1700000010000

/-- The store with four messages is reachable. -/
theorem reachable_fourMessages : (uuidSystem {} fun text => text).Reachable fourMessages := by
  apply reachable_foldl (.of_init rfl)
  intro call hcall
  rcases List.mem_cons.mp hcall with rfl | hsend
  · show isUuid (exampleUuid 0) = true
    decide
  · have hids : ∀ n ∈ [0, 1, 2, 3], isUuid (exampleUuid (n + 1)) = true := by decide
    obtain ⟨n, hn, rfl⟩ := List.mem_map.mp hsend
    exact hids n hn

/-- Four messages wait, and what they add is known. -/
theorem waiting_fourMessages : fourMessages.waiting 1 exampleHost.now = fourMessages.messages ∧
    fourMessages.messages.length = 4 ∧ reserved fourMessages.messages = 2560 ∧
    (fourMessages.messages.map fun m => timeSize m + longestName m.sender).sum = 1980 ∧
    fourMessages.batches = [] := by
  decide +kernel

/-- The identifier of the batch is new. -/
theorem fresh_exampleHost :
    "chat:" ++ exampleHost.id ∉ fourMessages.batches.map ConversationBatch.id := by
  rw [waiting_fourMessages.2.2.2.2]
  exact List.not_mem_nil

/-- The four messages fit exactly if there is room for them. -/
theorem fits_iff_room_fourMessages :
    (fourMessages.Includes {} (fun text => text) ∧ fourMessages.Fits 1 exampleHost) ↔
      Room (fourMessages.waiting 1 exampleHost.now) :=
  fits_iff_room reachable_fourMessages (by decide) fresh_exampleHost

/-- Within 3500 bytes, the four messages are a batch, and their delivery is longer than that if the sender
has a name of escapes. -/
theorem not_fits_fourMessages : (uuidSystem {} fun text => text).Reachable fourMessages ∧
    isUuid exampleHost.id = true ∧
    "chat:" ++ exampleHost.id ∉ fourMessages.batches.map ConversationBatch.id ∧
    IsDisplayName escapedName ∧
    (∃ batch s' delivery, fourMessages.active 1 = none ∧
      fourMessages.sealBatch 1 3500 exampleHost = .ok (some batch, s') ∧
      resolveEvent (fun _ => escapedName) 1 (conversationContextKey 1 batch.conversationId) batch =
        .ok delivery ∧ 3500 < jsonSize delivery.toJson) ∧
    ¬ (fourMessages.Includes {} (fun text => text) ∧ fourMessages.Fits 1 exampleHost) := by
  obtain ⟨hwaiting, hlength, hreserved, hnames, -⟩ := waiting_fourMessages
  have huuid : isUuid exampleHost.id = true := by decide
  have hfresh := fresh_exampleHost
  -- There is room for all four.
  have hall : select 3500 800 0 (fourMessages.waiting 1 exampleHost.now) = fourMessages.messages := by
    have happend : select 3500 800 0 (fourMessages.messages ++ []) = fourMessages.messages ++
        select 3500 (800 + reserved fourMessages.messages) (0 + fourMessages.messages.length) [] :=
      select_append (by omega) (by omega)
    rw [List.append_nil] at happend
    rw [hwaiting, happend]
    exact List.append_nil _
  have hsome : fourMessages.messages ≠ [] := by
    intro hempty
    rw [hempty] at hlength
    cases hlength
  obtain ⟨batch, s', hnone, hseal⟩ := exists_sealBatch (by rw [hall]; exact hsome) hfresh
  obtain ⟨hid, hagent, -, hmessages⟩ := messages_of_sealBatch hnone hseal
  rw [hall] at hmessages
  obtain ⟨delivery, hresolve⟩ := exists_resolveEvent (fun _ => escapedName) hagent
  have hids : ∀ m ∈ batch.messages, isUuid m.id = true := by
    rw [hmessages]
    exact isUuid_of_reachable reachable_fourMessages
  have hsize := jsonSize_resolveEvent hresolve hid huuid hids (by rw [hmessages]; exact hsome)
  rw [hmessages, hlength, hreserved, added_escapedName, hnames] at hsize
  have hlong : 3500 < jsonSize delivery.toJson := by omega
  refine ⟨reachable_fourMessages, huuid, hfresh, isDisplayName_escapedName,
    ⟨batch, s', delivery, hnone, hseal, hresolve, hlong⟩, ?_⟩
  rintro ⟨-, hfits⟩
  have hshort := hfits _ (fun _ => isDisplayName_escapedName) _ batch s' hnone hseal _ _ hresolve
  omega

end ConversationStore

end OsAgent.Conversations
