import OsAgent.Conversations.Memory
import OsAgent.Library.JsonText

/-!
# Reading the history

What a member reads of its conversations are excerpts of their messages
(`agent-runtime/internal/memory-store.ts`). An excerpt is a piece of the content, in code units, and may
begin or end with half of a surrogate pair. `read` answers a query with one page of excerpts and the query
for the next page; a message that does not fit on a page is read in pieces.
-/

namespace OsAgent.Conversations

open OsAgent.Library

/-! ## Excerpts -/

/-- A piece of a message. -/
structure HistoryExcerpt where
  conversationId : String
  messageId : String
  sequence : ℕ
  sender : ConversationMember
  createdAt : Timestamp
  content : List CodeUnit
  offset : ℕ
  totalLength : ℕ
  nextOffset : Option ℕ
deriving DecidableEq, Repr

/-- The content of a message in code units. -/
def ConversationMessage.units (message : ConversationMessage) : List CodeUnit :=
  Utf16.encode message.content.toList

/-- The piece of a message from an offset on. -/
def excerpt (message : ConversationMessage) (offset : ℕ := 0) (length : ℕ := 700) : HistoryExcerpt :=
  let content := (message.units.drop offset).take length
  { conversationId := message.conversationId
    messageId := message.id
    sequence := message.sequence
    sender := message.sender
    createdAt := message.createdAt
    content
    offset
    totalLength := message.units.length
    nextOffset := if offset + content.length < message.units.length then some (offset + content.length) else none }

namespace HistoryExcerpt

/-- `JSON.stringify(item)`. -/
def text (item : HistoryExcerpt) : List Char :=
  objectText [("conversationId", quote item.conversationId), ("messageId", quote item.messageId),
    ("sequence", stringify (.ofNat item.sequence)), ("sender", stringify item.sender.toJson),
    ("createdAt", stringify (.ofNat item.createdAt)), ("content", unitsText item.content),
    ("offset", stringify (.ofNat item.offset)), ("totalLength", stringify (.ofNat item.totalLength)),
    ("nextOffset", stringify ((item.nextOffset.map JsonValue.ofNat).getD .null))]

/-- `estimateContextTokens(item)`. -/
def size (item : HistoryExcerpt) : ℕ := byteLength item.text

end HistoryExcerpt

/-- `estimateContextTokens(messages)`. -/
def listSize (messages : List HistoryExcerpt) : ℕ := byteLength (arrayText (messages.map HistoryExcerpt.text))

/-- `estimateContextTokens({ messages })`. -/
def pageSize (messages : List HistoryExcerpt) : ℕ :=
  byteLength (objectText [("messages", arrayText (messages.map HistoryExcerpt.text))])

/-- The loop of `budgetedExcerpt`: half of the length as long as the excerpt is too large. -/
def shrinkExcerpt (message : ConversationMessage) (offset length : ℕ) : HistoryExcerpt :=
  if 1 < length ∧ 1800 < (excerpt message offset length).size then shrinkExcerpt message offset (length / 2)
  else excerpt message offset length
termination_by length
decreasing_by omega

/-- The piece of a message that is within the budget of a page. -/
def budgetedExcerpt (message : ConversationMessage) (offset : ℕ) : HistoryExcerpt :=
  shrinkExcerpt message offset 400

/-! ## Queries -/

/-- What is to be read. -/
structure ConversationRead where
  conversationId : String
  messageId : Option String := none
  afterSequence : Option ℕ := none
  throughSequence : Option ℕ := none
  offset : Option ℕ := none
  limit : Option ℕ := none
deriving DecidableEq, Repr

/-- What was read, and how to go on. -/
structure ConversationReadResult where
  messages : List HistoryExcerpt
  next : Option ConversationRead
  truncated : Bool
deriving DecidableEq, Repr

namespace ConversationRead

variable (query : ConversationRead)

/-- `readSchema`. -/
def Valid : Prop :=
  query.conversationId ≠ "" ∧ query.messageId ≠ some "" ∧ query.throughSequence ≠ some 0 ∧
    ∀ limit ∈ query.limit, 1 ≤ limit ∧ limit ≤ 30

instance : Decidable query.Valid := inferInstanceAs (Decidable (_ ∧ _ ∧ _ ∧ _))

/-- Whether a sequence is within the range of a query. -/
def includes (sequence : ℕ) : Bool :=
  query.afterSequence.getD 0 < sequence && query.throughSequence.all fun through => sequence ≤ through

end ConversationRead

/-- `messages.at(-1)!.sequence`. -/
def lastSequence (messages : List HistoryExcerpt) : Except StoreError ℕ :=
  match messages.getLast? with
  | some item => .ok item.sequence
  | none => .error (.error "Cannot read properties of undefined (reading 'sequence')")

/-- The loop of `read`, with the excerpts of the page so far. -/
def collect (query : ConversationRead) (messages : List HistoryExcerpt) :
    List ConversationMessage → Except StoreError (List HistoryExcerpt × Option ConversationRead)
  | [] => .ok (messages, none)
  | message :: rest =>
    if query.limit.getD 10 ≤ messages.length ∨ 1000 < listSize messages then do
      let after ← lastSequence messages
      pure (messages, some { query with afterSequence := some after, offset := some 0 })
    else
      let offset := if query.messageId = some message.id then query.offset.getD 0 else 0
      let item := budgetedExcerpt message offset
      if 2200 < pageSize (messages ++ [item]) then do
        let after ← lastSequence messages
        pure (messages, some { query with afterSequence := some after, offset := some 0 })
      else
        match item.nextOffset with
        | some offset =>
          .ok (messages ++ [item], some { query with messageId := some message.id, offset := some offset })
        | none => collect query (messages ++ [item]) rest

section Reading

variable (s : ConversationStore) (identity : MemoryIdentity)

/-- The messages that a query is about. -/
def candidates (query : ConversationRead) : Except StoreError (List ConversationMessage) := do
  let messages ← match query.messageId with
    | some messageId => do
      let message ← source s identity ⟨query.conversationId, messageId⟩
      pure [message]
    | none => pure (s.range query.conversationId (query.afterSequence.getD 0) (query.limit.getD 10 + 1))
  pure (messages.filter fun message => query.includes message.sequence)

/-- Where a query for one message goes on once the message was read to its end. -/
def following (query : ConversationRead) (candidates : List ConversationMessage) : Option ConversationRead := do
  let _ ← query.messageId
  let message ← candidates.head?
  let following ← (s.range query.conversationId message.sequence 1).head?
  if query.throughSequence.all fun through => following.sequence ≤ through then
    some { query with messageId := none, offset := none, afterSequence := some message.sequence }
  else none

/-- Reads a page of a conversation. -/
def read (query : ConversationRead) : Except StoreError ConversationReadResult := do
  require query.Valid .schema
  authorize s identity query.conversationId
  require (¬ (0 < query.offset.getD 0 ∧ query.messageId = none)) (protocolFault "偏移读取必须指定消息 ID。")
  let candidates ← candidates s identity query
  let (messages, next) ← collect query [] candidates
  let next := next.or (following s query candidates)
  pure { messages, next, truncated := next.isSome }

/-- The pages that one gets from a query on, up to the last one. -/
inductive Pages : ConversationRead → List ConversationReadResult → Prop
  | last {query : ConversationRead} {result : ConversationReadResult} (h : read s identity query = .ok result)
    (hnext : result.next = none) : Pages query [result]
  | more {query next : ConversationRead} {result : ConversationReadResult} {results : List ConversationReadResult}
    (h : read s identity query = .ok result) (hnext : result.next = some next) (hmore : Pages next results) :
    Pages query (result :: results)

end Reading

end OsAgent.Conversations
