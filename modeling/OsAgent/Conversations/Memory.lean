import Mathlib.Data.List.Sort
import OsAgent.Conversations.Store
import OsAgent.Library.JsonSize
import OsAgent.Library.Schema

/-!
# The memory of conversations

What an agent remembers of a conversation is a summary, with the sequence up to which it covers the
messages (`agent-runtime/internal/memory-store.ts`). A new version of it replaces the old one if that one
still covers what it covered when the new one was planned.
-/

namespace OsAgent.Conversations

open OsAgent.Library

/-! ## Summaries -/

/-- A message that a summary cites. -/
structure MemorySource where
  conversationId : String
  messageId : String
deriving DecidableEq, Repr

/-- A question that is still open. -/
structure UnresolvedItem where
  text : String
  sourceRefs : List MemorySource
deriving DecidableEq, Repr

/-- What was said word for word. -/
structure Quotation where
  text : String
  sourceRef : MemorySource
deriving DecidableEq, Repr

/-- What an answer says of a conversation. -/
structure ConversationDigest where
  overview : String
  unresolved : List UnresolvedItem
  quotations : List Quotation
  sourceRefs : List MemorySource
deriving DecidableEq, Repr

/-- A version of the summary of a conversation. -/
structure ConversationSummary extends ConversationDigest where
  conversationId : String
  coveredSequence : ℕ
  version : ℕ
  updatedAt : Timestamp
deriving DecidableEq, Repr

/-- All messages that a digest cites. -/
def ConversationDigest.sources (digest : ConversationDigest) : List MemorySource :=
  digest.sourceRefs ++ digest.unresolved.flatMap UnresolvedItem.sourceRefs ++
    digest.quotations.map Quotation.sourceRef

/-- The sequence up to which a summary covers the messages, or none does. -/
def coveredBy (summary : Option ConversationSummary) : ℕ :=
  (summary.map ConversationSummary.coveredSequence).getD 0

/-- How a source is written. -/
def MemorySource.toJson (ref : MemorySource) : JsonValue :=
  .object [("conversationId", .string ref.conversationId), ("messageId", .string ref.messageId)]

/-- How an open question is written. -/
def UnresolvedItem.toJson (item : UnresolvedItem) : JsonValue :=
  .object [("text", .string item.text), ("sourceRefs", .array (item.sourceRefs.map MemorySource.toJson))]

/-- How a quotation is written. -/
def Quotation.toJson (quote : Quotation) : JsonValue :=
  .object [("text", .string quote.text), ("sourceRef", quote.sourceRef.toJson)]

/-- The properties of a digest. -/
def ConversationDigest.properties (digest : ConversationDigest) : List (String × JsonValue) :=
  [("overview", .string digest.overview),
    ("unresolved", .array (digest.unresolved.map UnresolvedItem.toJson)),
    ("quotations", .array (digest.quotations.map Quotation.toJson)),
    ("sourceRefs", .array (digest.sourceRefs.map MemorySource.toJson))]

/-- How a summary is written. -/
def ConversationSummary.toJson (summary : ConversationSummary) : JsonValue :=
  .object (summary.toConversationDigest.properties ++
    [("conversationId", .string summary.conversationId),
      ("coveredSequence", .ofNat summary.coveredSequence), ("version", .ofNat summary.version),
      ("updatedAt", .ofNat summary.updatedAt)])

/-! ## The form of a digest -/

/-- A text whose length is within bounds. -/
def boundedText (min max : ℕ) (value : JsonValue) : Option String :=
  value.asString?.filter fun s => min ≤ lengthOf s && lengthOf s ≤ max

/-- `memorySourceSchema`. -/
def memorySource (value : JsonValue) : Option MemorySource := do
  let value ← strictObject ["conversationId", "messageId"] value
  let conversationId ← (value.get? "conversationId").bind (boundedText 1 200)
  let messageId ← (value.get? "messageId").bind (boundedText 1 200)
  pure ⟨conversationId, messageId⟩

/-- An open question has a text and sources, and nothing else. -/
def unresolvedItem (value : JsonValue) : Option UnresolvedItem := do
  let value ← strictObject ["text", "sourceRefs"] value
  let text ← (value.get? "text").bind (boundedText 1 400)
  let sourceRefs ← (value.get? "sourceRefs").bind (boundedArray 1 8 memorySource)
  pure ⟨text, sourceRefs⟩

/-- A quotation has a text and a source, and nothing else. -/
def quotation (value : JsonValue) : Option Quotation := do
  let value ← strictObject ["text", "sourceRef"] value
  let text ← (value.get? "text").bind (boundedText 1 600)
  let sourceRef ← (value.get? "sourceRef").bind memorySource
  pure ⟨text, sourceRef⟩

/-- `digestSchema`. -/
def digestSchema (value : JsonValue) : Option ConversationDigest := do
  let value ← strictObject ["overview", "unresolved", "quotations", "sourceRefs"] value
  let overview ← (value.get? "overview").bind (boundedText 1 1200)
  let unresolved ← (value.get? "unresolved").bind (boundedArray 0 12 unresolvedItem)
  let quotations ← (value.get? "quotations").bind (boundedArray 0 12 quotation)
  let sourceRefs ← (value.get? "sourceRefs").bind (boundedArray 1 50 memorySource)
  pure ⟨overview, unresolved, quotations, sourceRefs⟩

/-! ## The tables -/

/-- What a round compacts. -/
structure CompactPlan where
  conversationId : String
  previous : Option ConversationSummary
  messageIds : List String
deriving DecidableEq, Repr

/-- What a round is for. -/
inductive MemoryPlan where
  | work
  | compact (plan : CompactPlan)
deriving DecidableEq, Repr

/-- A row of `memory_rounds`. -/
structure MemoryRound where
  id : String
  body : MemoryPlan
  outcome : Option String := none
deriving DecidableEq, Repr

/-- A row of `memory_failures`. -/
structure MemoryFailure where
  conversationId : String
  covered : ℕ
  attempts : ℕ
  retryAt : Timestamp
deriving DecidableEq, Repr

/-- Whose memory it is. -/
structure MemoryIdentity where
  ownerId : String
  member : ConversationMember
deriving DecidableEq, Repr

/-- The tables of the memory, without those of notes. -/
structure MemoryStore where
  /-- `memory_summaries`. -/
  summaries : List ConversationSummary := []
  /-- `memory_summary_versions`. -/
  versions : List ConversationSummary := []
  rounds : List MemoryRound := []
  /-- `memory_compact_batches`. -/
  compactBatches : List String := []
  failures : List MemoryFailure := []
deriving DecidableEq, Repr

/-- An error of the answer, which may be tried again. -/
def protocolFault (message : String) : StoreError := .fault .protocol message true

/-- The latest sequence of a conversation. -/
def ConversationStore.latestSequence (s : ConversationStore) (conversationId : String) : ℕ :=
  (((s.messages.filter fun m => m.conversationId = conversationId).getLast?).map
    ConversationMessage.sequence).getD 0

/-- The first messages after a sequence. -/
def ConversationStore.range (s : ConversationStore) (conversationId : String) (after limit : ℕ) :
    List ConversationMessage :=
  (s.messagesAfter conversationId after).take limit

section Identity

variable (s : ConversationStore) (identity : MemoryIdentity)

/-- The conversation has to be one of the member. -/
def authorize (conversationId : String) : Except StoreError Unit := do
  require (conversationId ∈ s.conversations.map fun row => row.conversation.id)
    (.fault .permission "会话不存在或不可访问。" false)
  let conversation ← s.get conversationId
  require (conversation.ownerId = identity.ownerId ∧ isMember conversation identity.member = true)
    (.fault .permission "只能读取自己参加的会话。" false)

/-- The message of a source, which the member has to be able to read. -/
def source (ref : MemorySource) : Except StoreError ConversationMessage := do
  authorize s identity ref.conversationId
  match s.message? ref.messageId with
  | some message =>
    require (message.conversationId = ref.conversationId)
      (protocolFault "来源消息不存在或不属于所引用会话。")
    pure message
  | none => .error (protocolFault "来源消息不存在或不属于所引用会话。")

/-- The conversations of a member, the one with the latest message first. -/
def recent : List RuntimeConversation :=
  ((s.conversations.map ConversationRow.conversation).filter fun conversation =>
    conversation.ownerId = identity.ownerId && isMember conversation identity.member).mergeSort
      fun a b => s.latestSequence b.id ≤ s.latestSequence a.id

end Identity

namespace MemoryStore

variable (m : MemoryStore)

/-- The summary of a conversation, as it is stored. -/
def summaryOf (conversationId : String) : Option ConversationSummary :=
  m.summaries.find? fun summary => summary.conversationId = conversationId

/-- The summary of a conversation of the member. -/
def summary (s : ConversationStore) (identity : MemoryIdentity) (conversationId : String) :
    Except StoreError (Option ConversationSummary) := do
  authorize s identity conversationId
  pure (m.summaryOf conversationId)

/-- Replaces the summary of its conversation. -/
def putSummary (summary : ConversationSummary) : MemoryStore :=
  { m with
    summaries := m.summaries.filter (fun old => old.conversationId ≠ summary.conversationId) ++ [summary]
    versions := m.versions ++ [summary] }

/-- Stores a summary if the present one covers what was expected, and says whether it did. What the schema
says of the digest was checked before. -/
def commitSummary (s : ConversationStore) (identity : MemoryIdentity) (expected : ℕ)
    (summary : ConversationSummary) : Except StoreError (Bool × MemoryStore) := do
  authorize s identity summary.conversationId
  require (summary.conversationId ≠ "" ∧ 0 < summary.coveredSequence ∧ 0 < summary.version) .schema
  let old ← m.summary s identity summary.conversationId
  if coveredBy old ≠ expected then pure (false, m)
  else if summary.coveredSequence ≤ expected ∨
      summary.version ≠ (old.map ConversationSummary.version).getD 0 + 1 then
    .error (.error "摘要覆盖范围或版本未递增。")
  else if m.versions.any fun v =>
      v.conversationId = summary.conversationId && v.version = summary.version then
    .error (.constraint "memory_summary_versions")
  else pure (true, m.putSummary summary)

/-- The round of an identifier. -/
def round? (id : String) : Option MemoryRound := m.rounds.find? fun round => round.id = id

/-- Notes how a round ended. -/
def setOutcome (id outcome : String) : MemoryStore :=
  { m with
    rounds := m.rounds.map fun round => if round.id = id then { round with outcome } else round }

/-- Counts a failure for what the conversation covers. -/
def countFailure (conversationId : String) (covered : ℕ) (retryAt : Timestamp) : MemoryStore :=
  if m.failures.any fun f => f.conversationId = conversationId && f.covered = covered then
    { m with
      failures := m.failures.map fun f =>
        if f.conversationId = conversationId ∧ f.covered = covered then
          { f with attempts := f.attempts + 1, retryAt }
        else f }
  else { m with failures := m.failures ++ [⟨conversationId, covered, 1, retryAt⟩] }

end MemoryStore

end OsAgent.Conversations
