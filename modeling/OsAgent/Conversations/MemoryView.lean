import Mathlib.Data.Int.Notation
import OsAgent.Conversations.Compactor
import OsAgent.Conversations.History

/-!
# The view of the memory

What a request tells a member of its other conversations and of its notes
(`agent-runtime/internal/memory-view.ts`). The view has a budget. Entries are added one after the other as
long as the view fits, first with little in them, and then what is in them is added as far as it fits too.
What does not fit is taken back, and flags and counters say what is left out.
-/

namespace OsAgent.Conversations

open OsAgent.Library

/-! ## Notes -/

/-- What an agent noted about someone. -/
structure ContactNote where
  ownerId : String
  author : ConversationMember
  target : ConversationMember
  introduction : String
  body : String
  tags : List String
  unresolved : List String
  sourceRefs : List MemorySource
  version : ℕ
  updatedAt : Timestamp
deriving DecidableEq, Repr

/-- `memory_notes`, in the order in which the rows were inserted. -/
abbrev NoteTable := List ContactNote

/-- The notes of a member, the latest one first. -/
def NoteTable.notes (table : NoteTable) (identity : MemoryIdentity) : List ContactNote :=
  (table.filter fun note =>
    note.ownerId = identity.ownerId && memberKey note.author = memberKey identity.member).reverse

/-- What a preview shows of a note. -/
def ContactNote.units (note : ContactNote) : List CodeUnit :=
  Utf16.encode (stringify (.object [("body", .string note.body), ("unresolved", .strings note.unresolved),
    ("sourceRefs", .array (note.sourceRefs.map MemorySource.toJson))]))

/-! ## Views -/

/-- The part of the policy that a view looks at, as a runtime checks it. -/
structure MemoryViewPolicy where
  maxViewTokens : ℕ
  recentConversations : ℕ
  recentMessages : ℕ
  recentConversations_le : recentConversations ≤ 50
  recentMessages_pos : 0 < recentMessages

/-- What is shown of a conversation. -/
structure MemoryConversation where
  id : String
  title : String
  members : List ConversationMember
  latestSequence : ℕ
  latestMessageAt : Timestamp
  coveredSequence : ℕ
  summary : Option ConversationSummary
  summaryOmitted : Bool
  delta : List HistoryExcerpt
  deltaOmitted : Bool
deriving DecidableEq, Repr

/-- What is shown of a note. -/
structure NotePreview where
  target : ConversationMember
  version : ℕ
  introduction : String
  tags : List String
  excerpt : List CodeUnit
  truncated : Bool
deriving DecidableEq, Repr

/-- What is shown of the memory. -/
structure MemoryView where
  tokenBudget : ℕ
  omittedConversations : ℕ
  conversations : List MemoryConversation
  notes : List NotePreview
  omittedNotes : ℕ
deriving DecidableEq, Repr

/-- How what is shown of a conversation is written. -/
def MemoryConversation.text (item : MemoryConversation) : List Char :=
  objectText [("id", quote item.id), ("title", quote item.title),
    ("members", arrayText (item.members.map fun member => stringify member.toJson)),
    ("latestSequence", stringify (.ofNat item.latestSequence)),
    ("latestMessageAt", stringify (.ofNat item.latestMessageAt)),
    ("coveredSequence", stringify (.ofNat item.coveredSequence)),
    ("summary", stringify ((item.summary.map ConversationSummary.toJson).getD .null)),
    ("summaryOmitted", stringify (.boolean item.summaryOmitted)),
    ("delta", arrayText (item.delta.map HistoryExcerpt.text)),
    ("deltaOmitted", stringify (.boolean item.deltaOmitted))]

/-- How what is shown of a note is written. -/
def NotePreview.text (preview : NotePreview) : List Char :=
  objectText [("target", stringify preview.target.toJson), ("version", stringify (.ofNat preview.version)),
    ("introduction", quote preview.introduction), ("tags", stringify (.strings preview.tags)),
    ("excerpt", unitsText preview.excerpt), ("truncated", stringify (.boolean preview.truncated))]

namespace MemoryView

/-- `JSON.stringify(view)`. -/
def text (view : MemoryView) : List Char :=
  objectText [("purpose", quote "historical_reference_only"),
    ("tokenBudget", stringify (.ofNat view.tokenBudget)),
    ("omittedConversations", stringify (.ofNat view.omittedConversations)),
    ("conversations", arrayText (view.conversations.map MemoryConversation.text)),
    ("notes", arrayText (view.notes.map NotePreview.text)),
    ("omittedNotes", stringify (.ofNat view.omittedNotes))]

/-- `estimateContextTokens(view)`. -/
def size (view : MemoryView) : ℕ := byteLength view.text

/-- Whether a view fits, with a reserve. -/
def fits (view : MemoryView) : Bool := view.size + 64 ≤ view.tokenBudget

end MemoryView

/-! ## Composing a view -/

/-- The newest messages after a sequence, in their order. -/
def ConversationStore.newest (s : ConversationStore) (conversationId : String) (after limit : ℕ) :
    List ConversationMessage :=
  (((s.messagesAfter conversationId after).reverse).take limit).reverse

/-- When the latest message of a conversation was sent, or when it was created. -/
def ConversationStore.latestMessageAt (s : ConversationStore) (conversation : RuntimeConversation) : Timestamp :=
  ((s.messagesAfter conversation.id 0).getLast?.map ConversationMessage.createdAt).getD conversation.createdAt

section Composing

variable (s : ConversationStore) (m : MemoryStore) (identity : MemoryIdentity)

/-- An entry with nothing in it. -/
def emptyEntry (conversation : RuntimeConversation) (summary : Option ConversationSummary) :
    MemoryConversation where
  id := conversation.id
  title := conversation.title
  members := conversation.members
  latestSequence := s.latestSequence conversation.id
  latestMessageAt := s.latestMessageAt conversation
  coveredSequence := coveredBy summary
  summary := none
  summaryOmitted := summary.isSome
  delta := []
  deltaOmitted := coveredBy summary < s.latestSequence conversation.id

/-- The first loop: entries for conversations. -/
def addConversations (view : MemoryView) : List RuntimeConversation → Except StoreError MemoryView
  | [] => pure view
  | conversation :: rest => do
    let summary ← m.summary s identity conversation.id
    let added := { view with
      conversations := view.conversations ++ [emptyEntry s conversation summary]
      omittedConversations := view.omittedConversations - 1 }
    if added.fits then addConversations added rest else pure view

/-- What is shown of a note before its text. -/
def emptyPreview (note : ContactNote) : NotePreview where
  target := note.target
  version := note.version
  introduction := note.introduction
  tags := note.tags
  excerpt := []
  truncated := true

/-- The second loop: previews of notes. -/
def addNotes (view : MemoryView) : List ContactNote → MemoryView
  | [] => view
  | note :: rest =>
    let added := { view with
      notes := view.notes ++ [emptyPreview note]
      omittedNotes := view.omittedNotes - 1 }
    if added.fits then addNotes added rest else view

/-- Puts the summary into an entry, if it then fits. -/
def addSummary (fits : MemoryConversation → Bool) (item : MemoryConversation) :
    Option ConversationSummary → MemoryConversation
  | none => item
  | some summary =>
    let whole := { item with summary := some summary, summaryOmitted := false }
    if fits whole then whole else { item with summary := none, summaryOmitted := true }

/-- Puts messages into an entry, the newest first, as long as it fits. -/
def addDelta (fits : MemoryConversation → Bool) (item : MemoryConversation) :
    List ConversationMessage → MemoryConversation
  | [] => item
  | message :: rest =>
    let longer := { item with delta := excerpt message :: item.delta }
    if fits longer then addDelta fits longer rest else item

/-- What is put into an entry. -/
def fillConversation (policy : MemoryViewPolicy) (fits : MemoryConversation → Bool) (item : MemoryConversation) :
    Except StoreError MemoryConversation := do
  let summary ← m.summary s identity item.id
  let item := addSummary fits item summary
  let candidates := s.newest item.id item.coveredSequence (policy.recentMessages + 1)
  let item := addDelta fits item (candidates.drop (candidates.length - policy.recentMessages)).reverse
  pure { item with
    deltaOmitted := item.delta.length < candidates.length || item.delta.any fun part => part.nextOffset.isSome }

/-- The third loop, with the entries that were filled. -/
def fillConversations (policy : MemoryViewPolicy) (view : MemoryView) (filled : List MemoryConversation) :
    List MemoryConversation → Except StoreError MemoryView
  | [] => pure { view with conversations := filled }
  | item :: rest => do
    let item ← fillConversation s m identity policy
      (fun item => { view with conversations := filled ++ item :: rest }.fits) item
    fillConversations policy view (filled ++ [item]) rest

/-- What is put into a preview. -/
def fillPreview (fits : NotePreview → Bool) (notes : List ContactNote) (preview : NotePreview) :
    Except StoreError NotePreview :=
  match notes.find? fun note => memberKey note.target = memberKey preview.target with
  | none => .error (.error "Cannot read properties of undefined (reading 'body')")
  | some note =>
    let whole := { preview with excerpt := note.units.take 1000, truncated := decide (1000 < note.units.length) }
    .ok (if fits whole then whole else { preview with excerpt := [], truncated := true })

/-- The fourth loop, with the previews that were filled. -/
def fillPreviews (notes : List ContactNote) (view : MemoryView) (filled : List NotePreview) :
    List NotePreview → Except StoreError MemoryView
  | [] => pure { view with notes := filled }
  | preview :: rest => do
    let preview ← fillPreview (fun preview => { view with notes := filled ++ preview :: rest }.fits) notes preview
    fillPreviews notes view (filled ++ [preview]) rest

/-- The other conversations of a member that have messages, the one with the latest message first. -/
def otherConversations (currentId : Option String) : List RuntimeConversation :=
  (recent s identity).filter fun conversation =>
    some conversation.id ≠ currentId && 0 < s.latestSequence conversation.id

/-- The keys of the members of the current conversation. -/
def relevantMembers (currentId : Option String) : Except StoreError (List String) :=
  match truthy currentId with
  | some id => do
    let current ← s.get id
    pure (current.members.map memberKey)
  | none => pure []

/-- The notes of a member, those about members of the current conversation first. -/
def sortedNotes (table : NoteTable) (relevant : List String) : List ContactNote :=
  (table.notes identity).mergeSort fun a b =>
    memberKey b.target ∈ relevant → memberKey a.target ∈ relevant

/-- Composes what is shown of the memory within the tokens that are left. -/
def composeMemory (table : NoteTable) (currentId : Option String) (policy : MemoryViewPolicy)
    (availableTokens : ℤ) : Except StoreError (Option MemoryView) := do
  let others := otherConversations s identity currentId
  let relevant ← relevantMembers s currentId
  let notes := sortedNotes identity table relevant
  let view : MemoryView := {
    tokenBudget := (min (policy.maxViewTokens : ℤ) availableTokens).toNat
    omittedConversations := others.length
    conversations := []
    notes := []
    omittedNotes := notes.length }
  if view.fits then do
    let view ← addConversations s m identity view (others.take policy.recentConversations)
    let view := addNotes view notes
    let view ← fillConversations s m identity policy view [] view.conversations
    let view ← fillPreviews notes view [] view.notes
    pure (some view)
  else pure none

end Composing

end OsAgent.Conversations
