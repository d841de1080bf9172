import OsAgent.Conversations.MemoryView
import OsAgent.Conversations.Paging

/-!
# What a view says of itself

A view of the memory is within its budget, and what its flags and counters say is so
(`composeMemory_truthful`). Whatever is added is checked with the whole view, and taken back if the view does
not fit. Only the flag of an omitted delta is set without a check; it takes one byte more at most, and the
reserve is larger than the number of entries.
-/

namespace OsAgent.Conversations

open OsAgent.Library

/-! ## Sizes -/

/-- A boolean is written with one byte more at most than another. -/
theorem byteLength_boolean_le (b b' : Bool) :
    byteLength (stringify (.boolean b)) ≤ byteLength (stringify (.boolean b')) + 1 := by
  cases b <;> cases b' <;> decide +kernel

/-- A flag takes a byte more or less. -/
theorem size_deltaOmitted (item : MemoryConversation) (deltaOmitted : Bool) :
    byteLength ({ item with deltaOmitted } : MemoryConversation).text ≤ byteLength item.text + 1 := by
  have hflag := byteLength_boolean_le deltaOmitted item.deltaOmitted
  unfold MemoryConversation.text
  rw [byteLength_objectText (by simp), byteLength_objectText (by simp)]
  simp only [List.map_cons, List.map_nil, List.sum_cons, partSize]
  omega

/-- A view grows as one of its entries does. -/
theorem size_replace (view : MemoryView) (before after : List MemoryConversation) {item item' : MemoryConversation}
    {n : ℕ} (h : byteLength item'.text ≤ byteLength item.text + n) :
    ({ view with conversations := before ++ item' :: after } : MemoryView).size ≤
      ({ view with conversations := before ++ item :: after } : MemoryView).size + n := by
  have harray : byteLength (arrayText ((before ++ item' :: after).map MemoryConversation.text)) ≤
      byteLength (arrayText ((before ++ item :: after).map MemoryConversation.text)) + n := by
    rw [byteLength_arrayText (by simp), byteLength_arrayText (by simp)]
    simp only [List.map_append, List.map_cons, List.sum_append, List.sum_cons]
    omega
  unfold MemoryView.size MemoryView.text
  rw [byteLength_objectText (by simp), byteLength_objectText (by simp)]
  simp only [List.map_cons, List.map_nil, List.sum_cons, partSize]
  omega

/-! ## Entries -/

section Entries

variable {s : ConversationStore} {m : MemoryStore} {identity : MemoryIdentity}

/-- The first loop adds entries for the first conversations, as long as the view fits. -/
theorem addConversations_spec {conversations : List RuntimeConversation}
    (hsummary : ∀ c ∈ conversations, m.summary s identity c.id = .ok (m.summaryOf c.id)) {view : MemoryView}
    (hfits : view.fits = true) :
    ∃ k, k ≤ conversations.length ∧ ∃ view', addConversations s m identity view conversations = .ok view' ∧
      view'.fits = true ∧ view' = { view with
        conversations := view.conversations ++
          (conversations.take k).map fun c => emptyEntry s c (m.summaryOf c.id)
        omittedConversations := view.omittedConversations - k } := by
  have hnone (rest : List RuntimeConversation) : view = { view with
      conversations := view.conversations ++ (rest.take 0).map fun c => emptyEntry s c (m.summaryOf c.id)
      omittedConversations := view.omittedConversations - 0 } := by simp
  -- By induction on the conversations that are left; the view that fits so far is carried.
  induction conversations generalizing view with
  | nil => exact ⟨0, Nat.le_refl 0, view, rfl, hfits, hnone []⟩
  | cons c rest ih =>
    let added : MemoryView := { view with
      conversations := view.conversations ++ [emptyEntry s c (m.summaryOf c.id)]
      omittedConversations := view.omittedConversations - 1 }
    have hstep : addConversations s m identity view (c :: rest) =
        if added.fits then addConversations s m identity added rest else .ok view := by
      rw [addConversations, hsummary c List.mem_cons_self]
      rfl
    rw [hstep]
    split_ifs with hadded
    · obtain ⟨k, hk, view', hrun, hfits', heq⟩ :=
        ih (fun c' hc' => hsummary c' (List.mem_cons_of_mem _ hc')) hadded (fun _ => by simp)
      refine ⟨k + 1, Nat.succ_le_succ hk, view', hrun, hfits', ?_⟩
      rw [heq, List.take_succ_cons, List.map_cons]
      dsimp only [added]
      rw [List.append_assoc, List.singleton_append, Nat.sub_sub, Nat.add_comm 1 k]
    · -- The first that does not fit ends the loop.
      exact ⟨0, Nat.zero_le _, view, rfl, hfits, hnone (c :: rest)⟩

/-- The second loop adds previews of the first notes, as long as the view fits. -/
theorem addNotes_spec (notes : List ContactNote) {view : MemoryView} (hfits : view.fits = true) :
    ∃ k, k ≤ notes.length ∧ (addNotes view notes).fits = true ∧ addNotes view notes = { view with
      notes := view.notes ++ (notes.take k).map emptyPreview
      omittedNotes := view.omittedNotes - k } := by
  induction notes generalizing view with
  | nil => exact ⟨0, Nat.le_refl 0, hfits, by simp [addNotes]⟩
  | cons note rest ih =>
    unfold addNotes
    dsimp only
    split_ifs with hadded
    · obtain ⟨k, hk, hfits', heq⟩ := ih hadded
      refine ⟨k + 1, Nat.succ_le_succ hk, hfits', ?_⟩
      rw [heq, List.take_succ_cons, List.map_cons]
      dsimp only
      rw [List.append_assoc, List.singleton_append, Nat.sub_sub, Nat.add_comm 1 k]
    · exact ⟨0, Nat.zero_le _, hfits, by simp⟩

/-- What an entry says of its conversation. -/
structure MemoryConversation.Truthful (s : ConversationStore) (m : MemoryStore) (item : MemoryConversation) :
    Prop where
  covered : item.coveredSequence = coveredBy (m.summaryOf item.id)
  /-- The delta is the newest of the messages that no summary covers. -/
  newest : ∃ k, item.delta = ((s.messagesAfter item.id item.coveredSequence).drop k).map (excerpt ·)
  /-- Nothing is left out of the delta, unless the entry says so. -/
  complete : item.deltaOmitted = false →
    (item.delta.map fun part => (part.messageId, part.content)) =
      (s.messagesAfter item.id item.coveredSequence).map fun message => (message.id, message.units)
  /-- Nor is the summary. -/
  summary : item.summaryOmitted = false → item.summary = m.summaryOf item.id

/-- What is shown of a conversation, with a summary. -/
def MemoryConversation.withSummary (item : MemoryConversation) (summary : Option ConversationSummary)
    (summaryOmitted : Bool) : MemoryConversation :=
  { item with summary, summaryOmitted }

/-- What is shown of a conversation, with messages. -/
def MemoryConversation.withDelta (item : MemoryConversation) (delta : List HistoryExcerpt) : MemoryConversation :=
  { item with delta }

/-- The summary is put into an empty entry, or the entry stays as it is. -/
theorem addSummary_spec {Q : MemoryConversation → Prop} {fits : MemoryConversation → Bool}
    (hQ : ∀ item, fits item = true → Q item) {c : RuntimeConversation} {summary : Option ConversationSummary}
    (hempty : Q (emptyEntry s c summary)) :
    ∃ kept omitted, addSummary fits (emptyEntry s c summary) summary =
        (emptyEntry s c summary).withSummary kept omitted ∧
      Q ((emptyEntry s c summary).withSummary kept omitted) ∧ (omitted = false → kept = summary) := by
  cases summary with
  | none => exact ⟨none, false, rfl, hempty, fun _ => rfl⟩
  | some summary =>
    unfold addSummary
    dsimp only
    split_ifs with hfits
    · exact ⟨some summary, false, rfl, hQ _ hfits, fun _ => rfl⟩
    · exact ⟨none, true, rfl, hempty, fun h => (by cases h)⟩

/-- The first of the messages are put into an entry, in front of what is there. -/
theorem addDelta_spec {Q : MemoryConversation → Prop} {fits : MemoryConversation → Bool}
    (hQ : ∀ item, fits item = true → Q item) (messages : List ConversationMessage) {item : MemoryConversation}
    (hitem : Q item) :
    ∃ k, addDelta fits item messages = item.withDelta ((messages.take k).reverse.map (excerpt ·) ++ item.delta) ∧
      Q (item.withDelta ((messages.take k).reverse.map (excerpt ·) ++ item.delta)) := by
  induction messages generalizing item with
  | nil => exact ⟨0, rfl, hitem⟩
  | cons message rest ih =>
    unfold addDelta
    dsimp only
    split_ifs with hfits
    · obtain ⟨k, heq, hkept⟩ := ih (hQ _ hfits)
      have hdelta : (rest.take k).reverse.map (excerpt ·) ++ excerpt message :: item.delta =
          ((message :: rest).take (k + 1)).reverse.map (excerpt ·) ++ item.delta := by
        rw [List.take_succ_cons, List.reverse_cons, List.map_append, List.append_assoc]
        rfl
      refine ⟨k + 1, ?_, ?_⟩
      · rw [heq, ← hdelta]
        rfl
      · rw [← hdelta]
        exact hkept
    · exact ⟨0, rfl, hitem⟩

/-- The newest messages are the last ones. -/
theorem newest_eq (s : ConversationStore) (id : String) (after limit : ℕ) :
    s.newest id after limit =
      (s.messagesAfter id after).drop ((s.messagesAfter id after).length - limit) := by
  unfold ConversationStore.newest
  rw [List.take_reverse, List.reverse_reverse]

/-- The newest of the last `n` of the last `n + 1` are the newest, and are all if they are no fewer. -/
theorem exists_drop_newest {α : Type*} (l : List α) {n : ℕ} (hn : 0 < n) (k : ℕ) {candidates : List α}
    (hcandidates : candidates = l.drop (l.length - (n + 1))) :
    ∃ j, ((candidates.drop (candidates.length - n)).reverse.take k).reverse = l.drop j ∧
      (candidates.length ≤ (l.drop j).length → j = 0) := by
  subst hcandidates
  rw [List.take_reverse, List.reverse_reverse, List.drop_drop, List.drop_drop]
  refine ⟨_, rfl, ?_⟩
  simp only [List.length_drop]
  omega

/-- A message in full. -/
theorem content_excerpt {message : ConversationMessage} (h : (excerpt message).nextOffset = none) :
    (excerpt message).content = message.units := by
  rw [nextOffset_eq_none h, List.drop_zero]

/-- What is put into an empty entry is so. -/
theorem fillConversation_spec (policy : MemoryViewPolicy) {Q : MemoryConversation → Prop}
    {fits : MemoryConversation → Bool} (hQ : ∀ item, fits item = true → Q item) {c : RuntimeConversation}
    (hsummary : m.summary s identity c.id = .ok (m.summaryOf c.id))
    (hempty : Q (emptyEntry s c (m.summaryOf c.id))) :
    ∃ (filled : MemoryConversation) (deltaOmitted : Bool),
      fillConversation s m identity policy fits (emptyEntry s c (m.summaryOf c.id)) =
          .ok { filled with deltaOmitted } ∧ Q filled ∧ filled.id = c.id ∧
        MemoryConversation.Truthful s m { filled with deltaOmitted } := by
  obtain ⟨kept, omitted, hadded, hkept, htruth⟩ := addSummary_spec hQ hempty
  obtain ⟨messages, hmessages⟩ : ∃ messages, s.messagesAfter c.id (coveredBy (m.summaryOf c.id)) = messages :=
    ⟨_, rfl⟩
  -- What is offered are the newest messages after the summary, one more than may be shown.
  obtain ⟨candidates, hnewest⟩ : ∃ candidates,
      s.newest c.id (coveredBy (m.summaryOf c.id)) (policy.recentMessages + 1) = candidates := ⟨_, rfl⟩
  have hcandidates : candidates = messages.drop (messages.length - (policy.recentMessages + 1)) := by
    rw [← hnewest, newest_eq, hmessages]
  -- The previews are filled from the newest on; what is left out is at the front.
  obtain ⟨k, hdelta, hfilled⟩ :=
    addDelta_spec hQ (candidates.drop (candidates.length - policy.recentMessages)).reverse hkept
  obtain ⟨j, hj, hall⟩ := exists_drop_newest messages policy.recentMessages_pos k hcandidates
  rw [hj] at hdelta hfilled
  have hnothing : ((emptyEntry s c (m.summaryOf c.id)).withSummary kept omitted).delta = [] := rfl
  rw [hnothing, List.append_nil] at hdelta hfilled
  refine ⟨_, ((messages.drop j).map (excerpt ·)).length < candidates.length ||
    ((messages.drop j).map (excerpt ·)).any fun part => part.nextOffset.isSome, ?_, hfilled, rfl, ?_⟩
  · unfold fillConversation
    show (m.summary s identity c.id >>= _) = _
    rw [hsummary]
    show Except.ok _ = _
    rw [hadded]
    have hwhich : s.newest ((emptyEntry s c (m.summaryOf c.id)).withSummary kept omitted).id
        ((emptyEntry s c (m.summaryOf c.id)).withSummary kept omitted).coveredSequence
        (policy.recentMessages + 1) = candidates := hnewest
    rw [hwhich, hdelta]
    rfl
  · refine ⟨rfl, ⟨j, ?_⟩, ?_, htruth⟩
    · show (messages.drop j).map (excerpt ·) = ((s.messagesAfter c.id (coveredBy (m.summaryOf c.id))).drop j).map _
      rw [hmessages]
    · -- If the entry says that it is complete, nothing was left out and no message was cut.
      intro hcomplete
      change (_ || _) = false at hcomplete
      rw [Bool.or_eq_false_iff, decide_eq_false_iff_not, List.length_map, List.any_eq_false] at hcomplete
      obtain ⟨hlong, hparts⟩ := hcomplete
      obtain rfl := hall (by omega)
      rw [List.drop_zero] at hparts
      show ((messages.drop 0).map (excerpt ·)).map (fun part => (part.messageId, part.content)) =
        (s.messagesAfter c.id (coveredBy (m.summaryOf c.id))).map fun message => (message.id, message.units)
      rw [hmessages, List.drop_zero, List.map_map]
      apply List.map_congr_left
      intro message hmessage
      have hlast : (excerpt message).nextOffset = none := by
        have hpart := hparts _ (List.mem_map_of_mem hmessage)
        rwa [Option.not_isSome_iff_eq_none] at hpart
      show (message.id, (excerpt message).content) = _
      rw [content_excerpt hlast]

/-- An entry that is filled, and those that will be. -/
theorem fillConversations_spec (policy : MemoryViewPolicy) (view : MemoryView)
    {conversations : List RuntimeConversation}
    (hsummary : ∀ c ∈ conversations, m.summary s identity c.id = .ok (m.summaryOf c.id))
    (filled : List MemoryConversation) {n : ℕ}
    (hsize : ({ view with conversations := filled ++
        (conversations.map fun c => emptyEntry s c (m.summaryOf c.id)) } : MemoryView).size + 64 ≤
          view.tokenBudget + n) :
    ∃ items, fillConversations s m identity policy view filled
        (conversations.map fun c => emptyEntry s c (m.summaryOf c.id)) =
          .ok { view with conversations := filled ++ items } ∧
      ({ view with conversations := filled ++ items } : MemoryView).size + 64 ≤
        view.tokenBudget + (n + conversations.length) ∧
      List.Forall₂ (fun (c : RuntimeConversation) (item : MemoryConversation) =>
        item.id = c.id ∧ item.Truthful s m) conversations items := by
  induction conversations generalizing filled n with
  | nil =>
    rw [List.map_nil, List.append_nil] at hsize
    refine ⟨[], ?_, ?_, .nil⟩
    · rw [List.append_nil]
      rfl
    · rw [List.append_nil]
      exact hsize
  | cons c rest ih =>
    let entries := rest.map fun c => emptyEntry s c (m.summaryOf c.id)
    let withItem := fun item : MemoryConversation =>
      ({ view with conversations := filled ++ item :: entries } : MemoryView)
    have hQ : ∀ item, (withItem item).fits = true → (withItem item).size + 64 ≤ view.tokenBudget + n := by
      intro item hfits
      have hle : (withItem item).size + 64 ≤ view.tokenBudget := of_decide_eq_true hfits
      omega
    obtain ⟨item, deltaOmitted, hfill, hkept, hid, htruthful⟩ :=
      fillConversation_spec policy hQ (hsummary c List.mem_cons_self) hsize
    -- the flag is set without a check
    have hflag := size_replace view filled entries (size_deltaOmitted item deltaOmitted)
    have hnext : ({ view with conversations := (filled ++ [{ item with deltaOmitted }]) ++ entries } :
        MemoryView).size + 64 ≤ view.tokenBudget + (n + 1) := by
      rw [List.append_assoc, List.singleton_append]
      change (withItem item).size + 64 ≤ _ at hkept
      change _ ≤ (withItem item).size + 1 at hflag
      omega
    obtain ⟨items, hrun, hsizes, hitems⟩ := ih (fun c' hc' => hsummary c' (List.mem_cons_of_mem _ hc')) _ hnext
    rw [List.append_assoc, List.singleton_append] at hrun hsizes
    refine ⟨{ item with deltaOmitted } :: items, ?_, ?_, .cons ⟨hid, htruthful⟩ hitems⟩
    · rw [List.map_cons, fillConversations]
      show (fillConversation s m identity policy (fun item => (withItem item).fits) _ >>= _) = _
      rw [hfill]
      exact hrun
    · rw [List.length_cons]
      omega

/-- What a preview says of its note. -/
structure NotePreview.Truthful (note : ContactNote) (preview : NotePreview) : Prop where
  target : preview.target = note.target
  /-- Nothing is left out of the content, unless the preview says so. -/
  complete : preview.truncated = false → preview.excerpt = note.units

/-- The notes of a member are about different members. -/
theorem find_note {notes : List ContactNote} (hkeys : (notes.map fun note => memberKey note.target).Nodup)
    {note : ContactNote} (hnote : note ∈ notes) :
    notes.find? (fun other => memberKey other.target = memberKey note.target) = some note := by
  cases hfound : notes.find? fun other => memberKey other.target = memberKey note.target with
  | none =>
    have hnone := List.find?_eq_none.mp hfound note hnote
    exact absurd (decide_eq_true rfl) hnone
  | some found =>
    have hkey := List.find?_some hfound
    rw [decide_eq_true_eq] at hkey
    rw [List.inj_on_of_nodup_map hkeys (List.mem_of_find?_eq_some hfound) hnote hkey]

/-- What is put into an empty preview is so. -/
theorem fillPreview_spec {Q : NotePreview → Prop} {fits : NotePreview → Bool}
    (hQ : ∀ preview, fits preview = true → Q preview) {notes : List ContactNote}
    (hkeys : (notes.map fun note => memberKey note.target).Nodup) {note : ContactNote} (hnote : note ∈ notes)
    (hempty : Q (emptyPreview note)) :
    ∃ preview, fillPreview fits notes (emptyPreview note) = .ok preview ∧ Q preview ∧ preview.Truthful note := by
  have hfind : notes.find? (fun other => memberKey other.target = memberKey (emptyPreview note).target) =
      some note := find_note hkeys hnote
  unfold fillPreview
  rw [hfind]
  dsimp only
  split_ifs with hfits
  · refine ⟨_, rfl, hQ _ hfits, rfl, ?_⟩
    intro hwhole
    rw [decide_eq_false_iff_not] at hwhole
    exact List.take_of_length_le (by omega)
  · exact ⟨_, rfl, hempty, rfl, fun h => (by cases h)⟩

/-- The previews that are filled are of notes, and within the tokens. -/
theorem fillPreviews_spec {allNotes : List ContactNote}
    (hkeys : (allNotes.map fun note => memberKey note.target).Nodup) (view : MemoryView)
    {notes : List ContactNote} (hnotes : ∀ note ∈ notes, note ∈ allNotes) (filled : List NotePreview) {n : ℕ}
    (hsize : ({ view with notes := filled ++ notes.map emptyPreview } : MemoryView).size + 64 ≤
      view.tokenBudget + n) :
    ∃ previews, fillPreviews allNotes view filled (notes.map emptyPreview) =
        .ok { view with notes := filled ++ previews } ∧
      ({ view with notes := filled ++ previews } : MemoryView).size + 64 ≤ view.tokenBudget + n ∧
      List.Forall₂ (fun note (preview : NotePreview) => preview.Truthful note) notes previews := by
  -- By induction on the notes that are left: those before are filled already.
  induction notes generalizing filled with
  | nil =>
    rw [List.map_nil, List.append_nil] at hsize
    refine ⟨[], ?_, ?_, .nil⟩
    · rw [List.append_nil]
      rfl
    · rw [List.append_nil]
      exact hsize
  | cons note rest ih =>
    let withPreview := fun preview : NotePreview =>
      ({ view with notes := filled ++ preview :: rest.map emptyPreview } : MemoryView)
    -- The bytes of a preview are limited through the size of the view with it.
    have hQ : ∀ preview, (withPreview preview).fits = true →
        (withPreview preview).size + 64 ≤ view.tokenBudget + n := by
      intro preview hfits
      have hle : (withPreview preview).size + 64 ≤ view.tokenBudget := of_decide_eq_true hfits
      omega
    obtain ⟨preview, hfill, hkept, htruthful⟩ :=
      fillPreview_spec hQ hkeys (hnotes note List.mem_cons_self) hsize
    have hnext : ({ view with notes := (filled ++ [preview]) ++ rest.map emptyPreview } : MemoryView).size + 64 ≤
        view.tokenBudget + n := by
      rw [List.append_assoc, List.singleton_append]
      exact hkept
    obtain ⟨previews, hrun, hsizes, hpreviews⟩ :=
      ih (fun note' hnote' => hnotes note' (List.mem_cons_of_mem _ hnote')) _ hnext
    rw [List.append_assoc, List.singleton_append] at hrun hsizes
    refine ⟨preview :: previews, ?_, hsizes, .cons htruthful hpreviews⟩
    rw [List.map_cons, fillPreviews]
    show (fillPreview (fun preview => (withPreview preview).fits) allNotes _ >>= _) = _
    rw [hfill]
    exact hrun

/-! ## Whole views -/

/-- A member may read its conversations. -/
theorem summary_recent (hids : (s.conversations.map fun row => row.conversation.id).Nodup)
    {c : RuntimeConversation} (hc : c ∈ recent s identity) :
    m.summary s identity c.id = .ok (m.summaryOf c.id) := by
  unfold recent at hc
  obtain ⟨hmem, hmember⟩ := List.mem_filter.mp (List.mem_mergeSort.mp hc)
  rw [Bool.and_eq_true, decide_eq_true_eq] at hmember
  obtain ⟨row, hrow, rfl⟩ := List.mem_map.mp hmem
  -- The row that the search finds has the identity of this one.
  have hget : s.get row.conversation.id = .ok row.conversation := by
    unfold ConversationStore.get
    cases hfind : s.conversations.find? fun other => other.conversation.id = row.conversation.id with
    | none =>
      have hnone := List.find?_eq_none.mp hfind row hrow
      exact absurd (decide_eq_true rfl) hnone
    | some other =>
      have hid := List.find?_some hfind
      rw [decide_eq_true_eq] at hid
      rw [List.inj_on_of_nodup_map hids (List.mem_of_find?_eq_some hfind) hrow hid]
  -- The member of the conversation may read it, so neither check refuses.
  have hauth : authorize s identity row.conversation.id = .ok () := by
    unfold authorize
    have hthere : require (row.conversation.id ∈ s.conversations.map fun row => row.conversation.id)
        (StoreError.fault .permission "会话不存在或不可访问。" false) = .ok () :=
      require_eq_ok.mpr (List.mem_map_of_mem hrow)
    have hown : require (row.conversation.ownerId = identity.ownerId ∧
        isMember row.conversation identity.member = true)
        (StoreError.fault .permission "只能读取自己参加的会话。" false) = .ok () := require_eq_ok.mpr hmember
    rw [hthere, hget]
    exact hown
  unfold MemoryStore.summary
  rw [hauth]
  rfl

/-- What a view says of what it shows and of what it leaves out. -/
structure MemoryView.Truthful (s : ConversationStore) (m : MemoryStore) (identity : MemoryIdentity)
    (table : NoteTable) (currentId : Option String) (view : MemoryView) : Prop where
  size : view.size ≤ view.tokenBudget
  /-- The entries are those of the first conversations. -/
  conversations : ∃ k, List.Forall₂ (fun (c : RuntimeConversation) (item : MemoryConversation) =>
    item.id = c.id ∧ item.Truthful s m) ((otherConversations s identity currentId).take k) view.conversations
  omittedConversations : view.omittedConversations + view.conversations.length =
    (otherConversations s identity currentId).length
  /-- The previews are those of the first notes. -/
  notes : ∃ relevant k, relevantMembers s currentId = .ok relevant ∧
    List.Forall₂ (fun note (preview : NotePreview) => preview.Truthful note)
      ((sortedNotes identity table relevant).take k) view.notes
  omittedNotes : view.omittedNotes + view.notes.length = (table.notes identity).length

/-- The notes of a member have targets of their own. -/
theorem nodup_sortedNotes {table : NoteTable}
    (hkeys : (table.map fun note => (note.ownerId, memberKey note.author, memberKey note.target)).Nodup)
    (relevant : List String) :
    ((sortedNotes identity table relevant).map fun note => memberKey note.target).Nodup := by
  unfold sortedNotes NoteTable.notes
  have hperm := (List.mergeSort_perm (table.filter fun note =>
    note.ownerId = identity.ownerId && memberKey note.author = memberKey identity.member).reverse
      fun a b => decide (memberKey b.target ∈ relevant → memberKey a.target ∈ relevant)).trans (List.reverse_perm _)
  rw [(hperm.map _).nodup_iff]
  have hown := hkeys.of_map.filter fun note : ContactNote =>
    decide (note.ownerId = identity.ownerId) && decide (memberKey note.author = memberKey identity.member)
  refine List.Nodup.map_on ?_ hown
  intro note hnote other hother htarget
  rw [List.mem_filter, Bool.and_eq_true, decide_eq_true_eq, decide_eq_true_eq] at hnote hother
  refine List.inj_on_of_nodup_map hkeys hnote.1 hother.1 ?_
  rw [hnote.2.1, hnote.2.2, hother.2.1, hother.2.2, htarget]

/-- To sort the notes loses none. -/
theorem length_sortedNotes (table : NoteTable) (relevant : List String) :
    (sortedNotes identity table relevant).length = (table.notes identity).length := by
  unfold sortedNotes
  rw [List.length_mergeSort]

/-- The composed view is within its budget, and what it says of itself is so. -/
theorem composeMemory_truthful (hids : (s.conversations.map fun row => row.conversation.id).Nodup)
    {table : NoteTable}
    (hkeys : (table.map fun note => (note.ownerId, memberKey note.author, memberKey note.target)).Nodup)
    {currentId : Option String} (hcurrent : ∀ id, truthy currentId = some id → ∃ c, s.get id = .ok c)
    (policy : MemoryViewPolicy) (availableTokens : ℤ) :
    ∃ result, composeMemory s m identity table currentId policy availableTokens = .ok result ∧
      ∀ view ∈ result, view.tokenBudget = (min (policy.maxViewTokens : ℤ) availableTokens).toNat ∧
        view.Truthful s m identity table currentId := by
  -- Nothing but a current conversation that is missing can throw.
  obtain ⟨relevant, hrelevant⟩ : ∃ relevant, relevantMembers s currentId = .ok relevant := by
    unfold relevantMembers
    cases hid : truthy currentId with
    | none => exact ⟨[], rfl⟩
    | some id =>
      obtain ⟨c, hc⟩ := hcurrent id hid
      refine ⟨c.members.map memberKey, ?_⟩
      show (s.get id >>= _) = _
      rw [hc]
      rfl
  let others := otherConversations s identity currentId
  let notes := sortedNotes identity table relevant
  let view : MemoryView := {
    tokenBudget := (min (policy.maxViewTokens : ℤ) availableTokens).toNat
    omittedConversations := others.length
    conversations := []
    notes := []
    omittedNotes := notes.length }
  unfold composeMemory
  rw [hrelevant]
  show ∃ result, (if view.fits = true then _ else _) = Except.ok result ∧ _
  -- There is room for the frame of the view, or there is no view.
  split_ifs with hfits
  · have hsummary : ∀ c ∈ others, m.summary s identity c.id = .ok (m.summaryOf c.id) :=
      fun c hc => summary_recent hids (List.mem_filter.mp hc).1
    have hfirst : ∀ c ∈ others.take policy.recentConversations, m.summary s identity c.id = .ok (m.summaryOf c.id) :=
      fun c hc => hsummary c (List.mem_of_mem_take hc)
    -- First empty entries of conversations and notes are added, as long as they fit.
    obtain ⟨k, hk, view₁, hrun₁, hfits₁, hview₁⟩ := addConversations_spec hfirst hfits
    obtain ⟨k', hk', hfits₂, hview₂⟩ := addNotes_spec notes hfits₁
    obtain ⟨view₂, hadded⟩ : ∃ view₂, addNotes view₁ notes = view₂ := ⟨_, rfl⟩
    rw [hadded] at hfits₂ hview₂
    have hentries : view₂.conversations =
        ((others.take policy.recentConversations).take k).map fun c => emptyEntry s c (m.summaryOf c.id) := by
      rw [hview₂, hview₁]
      rfl
    have hpreviews : view₂.notes = (notes.take k').map emptyPreview := by
      rw [hview₂, hview₁]
      rfl
    have hbudget : view₂.tokenBudget = view.tokenBudget := by
      rw [hview₂, hview₁]
    have hsize₂ : view₂.size + 64 ≤ view₂.tokenBudget := of_decide_eq_true hfits₂
    -- Then they are filled, one by one, within what is left.
    obtain ⟨items, hrun₃, hsize₃, hitems⟩ := fillConversations_spec policy view₂
      (fun c hc => hfirst c (List.mem_of_mem_take hc)) [] (n := 0) (by
        rw [List.nil_append, ← hentries]
        exact hsize₂)
    rw [← hentries, List.nil_append] at hrun₃
    rw [List.nil_append] at hsize₃
    obtain ⟨previews, hrun₄, hsize₄, htruthful⟩ := fillPreviews_spec (nodup_sortedNotes hkeys relevant)
      { view₂ with conversations := items } (fun note hnote => List.mem_of_mem_take hnote) [] (by
        rw [List.nil_append, ← hpreviews]
        exact hsize₃)
    rw [← hpreviews, List.nil_append] at hrun₄
    rw [List.nil_append] at hsize₄
    -- The view that is returned is named, and each part of the truth is read off it.
    obtain ⟨final, hfinal⟩ : ∃ final : MemoryView, { view₂ with conversations := items, notes := previews } = final :=
      ⟨_, rfl⟩
    change MemoryView.size _ + 64 ≤ view₂.tokenBudget + _ at hsize₄
    rw [hfinal] at hsize₄
    refine ⟨some final, ?_, ?_⟩
    · show (addConversations s m identity view _ >>= _) = _
      rw [hrun₁]
      show (fillConversations s m identity policy (addNotes view₁ notes) [] (addNotes view₁ notes).conversations >>= _) = _
      rw [hadded, hrun₃]
      show (fillPreviews notes _ [] view₂.notes >>= _) = _
      rw [hrun₄, ← hfinal]
      rfl
    · rintro _ ⟨⟩
      have hlength := hitems.length_eq
      have hlengthNotes := htruthful.length_eq
      have hle := policy.recentConversations_le
      rw [List.length_take] at hk
      rw [List.length_take, List.length_take] at hlength
      rw [List.length_take] at hlengthNotes
      refine ⟨by rw [← hfinal]; exact hbudget, ?_, ⟨min k policy.recentConversations, ?_⟩, ?_,
        ⟨relevant, k', hrelevant, by rw [← hfinal]; exact htruthful⟩, ?_⟩
      · have hsame : final.tokenBudget = view₂.tokenBudget := by rw [← hfinal]
        rw [List.length_take, List.length_take] at hsize₄
        omega
      · rw [← List.take_take, ← hfinal]
        exact hitems
      · -- What is counted as omitted is what was not added.
        have homitted : final.omittedConversations = others.length - k := by
          rw [← hfinal, hview₂, hview₁]
        have hcount : final.conversations.length = items.length := by rw [← hfinal]
        show _ = others.length
        omega
      · have homitted : final.omittedNotes = notes.length - k' := by
          rw [← hfinal, hview₂, hview₁]
        have hcount : final.notes.length = previews.length := by rw [← hfinal]
        have hall : notes.length = (table.notes identity).length := length_sortedNotes table relevant
        have hshown : min k' notes.length = previews.length := hlengthNotes
        have hfew : k' ≤ notes.length := hk'
        rw [← hall, homitted, hcount, ← hshown, Nat.min_eq_left hfew]
        exact Nat.sub_add_cancel hfew
  · exact ⟨none, rfl, fun _ h => (by cases h)⟩

end Entries

/-! ## Two messages and a note -/

/-- A short note. -/
def shortNote : ContactNote where
  ownerId := "o"
  author := .agent 1
  target := .user "u"
  introduction := ""
  body := "met"
  tags := []
  unresolved := []
  sourceRefs := []
  version := 1
  updatedAt := 0

/-- The limits of a view. -/
def shortPolicy : MemoryViewPolicy where
  maxViewTokens := 4000
  recentConversations := 10
  recentMessages := 50
  recentConversations_le := by decide
  recentMessages_pos := by decide

/-- The view with room for one of the messages and none for the text of the note. -/
def shortView : MemoryView where
  tokenBudget := 700
  omittedConversations := 0
  conversations :=
    [{ id := "c", title := "", members := [.user "u", .agent 1], latestSequence := 2, latestMessageAt := 0,
       coveredSequence := 0, summary := none, summaryOmitted := false,
       delta := [excerpt (shortMessage 2 "n") 0 2], deltaOmitted := true }]
  notes := [⟨.user "u", 1, "", [], [], true⟩]
  omittedNotes := 0

/-- What is shown of the short store says what it leaves out. -/
theorem composeMemory_truthful_short :
    composeMemory shortStore {} ⟨"o", .agent 1⟩ [shortNote] none shortPolicy 700 = .ok (some shortView) ∧
      shortView.tokenBudget = 700 ∧
        shortView.Truthful shortStore {} ⟨"o", .agent 1⟩ [shortNote] none := by
  have hview : composeMemory shortStore {} ⟨"o", .agent 1⟩ [shortNote] none shortPolicy 700 =
      .ok (some shortView) := by
    decide +kernel
  have hids : (shortStore.conversations.map fun row => row.conversation.id).Nodup := by decide
  have hkeys : ([shortNote].map fun note =>
      (note.ownerId, memberKey note.author, memberKey note.target)).Nodup := List.nodup_singleton _
  have hcurrent : ∀ id, truthy none = some id → ∃ c, shortStore.get id = .ok c :=
    fun _ h => (by cases h)
  obtain ⟨result, hresult, hviews⟩ := composeMemory_truthful hids hkeys hcurrent shortPolicy 700
  obtain rfl := Except.ok.inj (hview.symm.trans hresult)
  exact ⟨hview, hviews shortView rfl⟩

end OsAgent.Conversations
