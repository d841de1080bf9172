import OsAgent.Conversations.History
import OsAgent.Conversations.SummaryRuns
import OsAgent.Library.Segments

/-!
# Pages of the history

Who follows the queries for the next page reads every message of a range once, in order and to its end
(`read_all`). A page ends since it is full, since the next excerpt does not fit, since a message goes on, or
since there are no more messages. What is still to be read is always the rest of one message and the messages
after it, so the argument is an induction over these messages, and within a message over what is left of it.
-/

namespace OsAgent.Conversations

open OsAgent.Library

/-! ## Excerpts -/

section Excerpts

variable {message : ConversationMessage} {offset length : ℕ}

/-- An excerpt that is not the last one of its message is as long as it was to be. -/
theorem nextOffset_eq_some {next : ℕ} (h : (excerpt message offset length).nextOffset = some next) :
    next = offset + length ∧ next < message.units.length := by
  unfold excerpt at h
  dsimp only at h
  split_ifs at h with hlt
  rw [List.length_take, List.length_drop] at hlt h
  have hnext := Option.some.inj h
  omega

/-- A piece without a next offset is the rest of its message. -/
theorem nextOffset_eq_none (h : (excerpt message offset length).nextOffset = none) :
    (excerpt message offset length).content = message.units.drop offset := by
  unfold excerpt at h ⊢
  dsimp only at h ⊢
  split_ifs at h with hlt
  rw [List.length_take, List.length_drop] at hlt
  apply List.take_of_length_le
  rw [List.length_drop]
  omega

/-- The loop ends with an excerpt that is small enough, or with one code unit. -/
theorem shrinkExcerpt_spec (message : ConversationMessage) (offset length : ℕ) (hpos : 0 < length) :
    ∃ kept, 0 < kept ∧ shrinkExcerpt message offset length = excerpt message offset kept ∧
      (kept = 1 ∨ (excerpt message offset kept).size ≤ 1800) := by
  induction length using Nat.strongRecOn with
  | ind length ih =>
    rw [shrinkExcerpt]
    split_ifs with hlarge
    · exact ih (length / 2) (by omega) (by omega)
    · refine ⟨length, hpos, rfl, ?_⟩
      omega

/-- The excerpt of a page fits, if one code unit does. -/
theorem budgetedExcerpt_spec (hfits : (excerpt message offset 1).size ≤ 1800) :
    ∃ length, 0 < length ∧ budgetedExcerpt message offset = excerpt message offset length ∧
      (budgetedExcerpt message offset).size ≤ 1800 := by
  obtain ⟨length, hpos, heq, hsize⟩ := shrinkExcerpt_spec message offset 400 (by decide)
  refine ⟨length, hpos, heq, ?_⟩
  unfold budgetedExcerpt
  rw [heq]
  rcases hsize with rfl | hsize
  · exact hfits
  · exact hsize

end Excerpts

/-- The pieces in which a message is read, from an offset on. -/
inductive Pieces (message : ConversationMessage) : ℕ → List HistoryExcerpt → Prop
  | last {offset length : ℕ} (h : (excerpt message offset length).nextOffset = none) :
    Pieces message offset [excerpt message offset length]
  | more {offset length next : ℕ} {rest : List HistoryExcerpt}
    (h : (excerpt message offset length).nextOffset = some next) (hrest : Pieces message next rest) :
    Pieces message offset (excerpt message offset length :: rest)

/-- The pieces are the content, one after the other. -/
theorem Pieces.content {message : ConversationMessage} {offset : ℕ} {parts : List HistoryExcerpt}
    (h : Pieces message offset parts) : parts.flatMap HistoryExcerpt.content = message.units.drop offset := by
  induction h with
  | last h =>
    rw [List.flatMap_singleton]
    exact nextOffset_eq_none h
  | @more offset length next rest h hrest ih =>
    obtain ⟨rfl, -⟩ := nextOffset_eq_some h
    rw [List.flatMap_cons, ih]
    show (message.units.drop offset).take length ++ message.units.drop (offset + length) = _
    rw [← List.drop_drop, List.take_append_drop]

/-! ## Sizes -/

/-- The size of a page with one piece. -/
theorem pageSize_singleton (item : HistoryExcerpt) : pageSize [item] = item.size + 15 := by
  have hname : textSize "messages" = 10 := by decide +kernel
  unfold pageSize
  rw [byteLength_objectText (by simp), List.map_singleton, List.sum_singleton, partSize, hname,
    byteLength_arrayText (by simp), List.map_singleton, List.map_singleton, List.sum_singleton]
  unfold HistoryExcerpt.size
  omega

/-- The size of an empty page. -/
theorem pageSize_nil : pageSize [] = 15 := by decide +kernel

/-- The size of an empty list. -/
theorem listSize_nil : listSize [] = 2 := by decide +kernel

/-! ## The messages of a range -/

section Ranges

variable {s : ConversationStore}

/-- The messages that a query is about, from its range on. -/
def ConversationRead.messages (query : ConversationRead) (s : ConversationStore) : List ConversationMessage :=
  (s.messagesOf query.conversationId).filter fun message => query.includes message.sequence

/-- What the tables make sure of: the sequence of a message is its key, as is its id, which is not empty. -/
structure ConversationStore.Indexed (s : ConversationStore) : Prop where
  ordered : s.messages.Pairwise fun m m' => m.sequence < m'.sequence
  ids : (s.messages.map ConversationMessage.id).Nodup
  named : ∀ m ∈ s.messages, m.id ≠ ""

/-- The stores of runs are so, if messages have ids. -/
theorem indexed_of_reachable {policy : ConversationPolicy} {sha256 : String → String}
    (h : (storeSystem policy sha256).Reachable s) (hnamed : ∀ m ∈ s.messages, m.id ≠ "") : s.Indexed :=
  ⟨(ConversationStore.valid_of_reachable h).messages.ordered, nodup_messageIds_of_reachable h, hnamed⟩

/-- The messages after a position, from those of the conversation. -/
theorem messagesAfter_eq (s : ConversationStore) (id : String) (after : ℕ) :
    s.messagesAfter id after = (s.messagesOf id).filter fun m => after < m.sequence := by
  unfold ConversationStore.messagesAfter ConversationStore.messagesOf
  rw [List.filter_filter]
  apply List.filter_congr
  intro m _
  rw [Bool.and_comm]

/-- The messages of a query. -/
theorem ConversationRead.messages_eq (query : ConversationRead) (s : ConversationStore) :
    query.messages s = (s.messagesAfter query.conversationId (query.afterSequence.getD 0)).filter fun message =>
      query.throughSequence.all fun through => message.sequence ≤ through := by
  rw [messagesAfter_eq, List.filter_filter]
  apply List.filter_congr
  intro m _
  rw [Bool.and_comm]
  rfl

/-- The messages of a query are in order. -/
theorem ConversationStore.Indexed.ordered_messages (h : s.Indexed) (query : ConversationRead) :
    (query.messages s).Pairwise fun m m' => m.sequence < m'.sequence :=
  (h.ordered.sublist List.filter_sublist).sublist List.filter_sublist

/-- A smaller sequence is not beyond the end of a range. -/
theorem through_of_lt {through : Option ℕ} {n n' : ℕ} (hlt : n < n')
    (h : (through.all fun through => n' ≤ through) = true) : (through.all fun through => n ≤ through) = true := by
  cases through with
  | none => rfl
  | some through =>
    simp only [Option.all_some, decide_eq_true_eq] at h ⊢
    omega

/-- The first messages of a range. -/
theorem ConversationStore.Indexed.range_filter (h : s.Indexed) (query : ConversationRead) (limit : ℕ) :
    ((s.range query.conversationId (query.afterSequence.getD 0) limit).filter fun message =>
      query.includes message.sequence) = (query.messages s).take limit := by
  have hordered : (s.messagesAfter query.conversationId (query.afterSequence.getD 0)).Pairwise
      fun m m' => m.sequence < m'.sequence := by
    rw [messagesAfter_eq]
    exact (h.ordered.sublist List.filter_sublist).sublist List.filter_sublist
  rw [ConversationRead.messages_eq, ← filter_take]
  · apply List.filter_congr
    intro m hm
    have hafter := (ConversationStore.mem_messagesAfter.mp (List.mem_of_mem_take hm)).2.2
    unfold ConversationRead.includes
    rw [decide_eq_true hafter, Bool.true_and]
  · exact hordered.imp fun hlt hthrough => through_of_lt hlt hthrough

/-- After a message of a range, what is left of the range are the messages after it. -/
theorem ConversationStore.Indexed.messages_after (h : s.Indexed) {query next : ConversationRead}
    {full tail : List ConversationMessage} {message : ConversationMessage}
    (hmessages : query.messages s = full ++ message :: tail) (hid : next.conversationId = query.conversationId)
    (hthrough : next.throughSequence = query.throughSequence)
    (hafter : next.afterSequence = some message.sequence) : next.messages s = tail := by
  have hincluded : query.includes message.sequence = true := by
    have hmem : message ∈ query.messages s := by simp [hmessages]
    exact (List.mem_filter.mp hmem).2
  have hlow : query.afterSequence.getD 0 < message.sequence := by
    simp only [ConversationRead.includes, Bool.and_eq_true, decide_eq_true_eq] at hincluded
    exact hincluded.1
  -- What the next query asks for is what the first asked for, behind the message.
  have hsub : next.messages s = (query.messages s).filter fun m => message.sequence < m.sequence := by
    unfold ConversationRead.messages
    rw [hid, List.filter_filter]
    apply List.filter_congr
    intro m _
    unfold ConversationRead.includes
    rw [hthrough, hafter, Option.getD_some, ← Bool.and_assoc]
    congr 1
    rw [Bool.eq_iff_iff, Bool.and_eq_true, decide_eq_true_eq, decide_eq_true_eq]
    omega
  have hordered := h.ordered_messages query
  rw [hmessages, List.pairwise_append, List.pairwise_cons] at hordered
  obtain ⟨-, ⟨hlater, -⟩, hbefore⟩ := hordered
  -- A message that was read is not behind this one, since the answer is in order.
  have hfull : full.filter (fun m => message.sequence < m.sequence) = [] := by
    rw [List.filter_eq_nil_iff]
    intro m hm hlt
    have hle := hbefore m hm message List.mem_cons_self
    rw [decide_eq_true_eq] at hlt
    omega
  -- All that is left of the answer is behind it.
  have htail : tail.filter (fun m => message.sequence < m.sequence) = tail := by
    rw [List.filter_eq_self]
    intro m hm
    rw [decide_eq_true_eq]
    exact hlater m hm
  rw [hsub, hmessages, List.filter_append, hfull, List.nil_append, List.filter_cons_of_neg (by simp), htail]

end Ranges

/-! ## Pages -/

/-- The first excerpt of a message. -/
def firstExcerpt (message : ConversationMessage) : HistoryExcerpt := budgetedExcerpt message 0

/-- The first piece of a message has its position. -/
theorem sequence_firstExcerpt (message : ConversationMessage) :
    (firstExcerpt message).sequence = message.sequence := by
  obtain ⟨_, -, heq, -⟩ := shrinkExcerpt_spec message 0 400 (by decide)
  unfold firstExcerpt budgetedExcerpt
  rw [heq]
  rfl

/-- How a page ends: with the last message, between two messages, or within a message. -/
inductive Collected (query : ConversationRead) (messages : List HistoryExcerpt) (ms : List ConversationMessage) :
    List HistoryExcerpt → Option ConversationRead → Prop
  | all (hwhole : ∀ m ∈ ms, (firstExcerpt m).nextOffset = none)
    (hlimit : ms = [] ∨ messages.length + ms.length ≤ query.limit.getD 10) :
    Collected query messages ms (messages ++ ms.map firstExcerpt) none
  | between {full tail : List ConversationMessage} {after : ℕ}
    (hwhole : ∀ m ∈ full, (firstExcerpt m).nextOffset = none) (hms : ms = full ++ tail)
    (hafter : (messages ++ full.map firstExcerpt).getLast?.map HistoryExcerpt.sequence = some after) :
    Collected query messages ms (messages ++ full.map firstExcerpt)
      (some { query with afterSequence := some after, offset := some 0 })
  | within {full tail : List ConversationMessage} {m : ConversationMessage} {next : ℕ}
    (hwhole : ∀ m ∈ full, (firstExcerpt m).nextOffset = none) (hms : ms = full ++ m :: tail)
    (hnext : (firstExcerpt m).nextOffset = some next) :
    Collected query messages ms (messages ++ full.map firstExcerpt ++ [firstExcerpt m])
      (some { query with messageId := some m.id, offset := some next })

/-- One more message is read to its end before the others. -/
theorem Collected.cons {query : ConversationRead} {messages messages' : List HistoryExcerpt}
    {m : ConversationMessage} {ms : List ConversationMessage} {next : Option ConversationRead}
    (h : Collected query (messages ++ [firstExcerpt m]) ms messages' next)
    (hwhole : (firstExcerpt m).nextOffset = none) (hlimit : messages.length < query.limit.getD 10) :
    Collected query messages (m :: ms) messages' next := by
  have hfirst {full : List ConversationMessage} (h : ∀ m ∈ full, (firstExcerpt m).nextOffset = none) :
      ∀ m' ∈ m :: full, (firstExcerpt m').nextOffset = none := by
    intro m' hm'
    rcases List.mem_cons.mp hm' with rfl | hm'
    · exact hwhole
    · exact h m' hm'
  have happend (full : List ConversationMessage) : messages ++ [firstExcerpt m] ++ full.map firstExcerpt =
      messages ++ (m :: full).map firstExcerpt := by
    rw [List.append_assoc]
    rfl
  -- The others were read to their end, up to a message, or into one: so is the longer list.
  cases h with
  | all hrest hbound =>
    rw [happend]
    refine .all (hfirst hrest) (.inr ?_)
    rw [List.length_append, List.length_singleton] at hbound
    rw [List.length_cons]
    rcases hbound with rfl | hbound
    · rw [List.length_nil]
      omega
    · omega
  | between hrest hms hafter =>
    rw [happend] at hafter ⊢
    exact .between (hfirst hrest) (by rw [hms]; rfl) hafter
  | within hrest hms hnext =>
    rw [happend]
    exact .within (hfirst hrest) (by rw [hms]; rfl) hnext

/-- A page that has something has a last sequence. -/
theorem exists_lastSequence {messages : List HistoryExcerpt} (h : messages ≠ []) :
    ∃ after, lastSequence messages = .ok after ∧
      messages.getLast?.map HistoryExcerpt.sequence = some after := by
  have hlast := List.getLast?_eq_some_getLast h
  refine ⟨(messages.getLast h).sequence, ?_, by rw [hlast]; rfl⟩
  unfold lastSequence
  rw [hlast]

/-- The loop over the messages of a range. -/
theorem collect_spec {query : ConversationRead} (hmode : query.messageId = none)
    (hlimit : 1 ≤ query.limit.getD 10) {ms : List ConversationMessage}
    (hfits : ∀ m ∈ ms, (excerpt m 0 1).size ≤ 1800) {messages : List HistoryExcerpt}
    (hpage : pageSize messages ≤ 2200) :
    ∃ messages' next, collect query messages ms = .ok (messages', next) ∧ pageSize messages' ≤ 2200 ∧
      Collected query messages ms messages' next := by
  induction ms generalizing messages with
  | nil =>
    have hall : Collected query messages [] (messages ++ [].map firstExcerpt) none := .all (by simp) (.inl rfl)
    rw [List.map_nil, List.append_nil] at hall
    exact ⟨messages, none, rfl, hpage, hall⟩
  | cons m ms ih =>
    -- the page may end before the message, if it has something
    have hstop (hne : messages ≠ []) : ∃ after, lastSequence messages = .ok after ∧
        Collected query messages (m :: ms) messages
          (some { query with afterSequence := some after, offset := some 0 }) := by
      obtain ⟨after, hlast, hafter⟩ := exists_lastSequence hne
      have hbetween : Collected query messages (m :: ms) (messages ++ [].map firstExcerpt)
          (some { query with afterSequence := some after, offset := some 0 }) := by
        have hms : m :: ms = [] ++ (m :: ms) := rfl
        refine .between (by simp) hms ?_
        rw [List.map_nil, List.append_nil]
        exact hafter
      rw [List.map_nil, List.append_nil] at hbetween
      exact ⟨after, hlast, hbetween⟩
    obtain ⟨_, -, -, hitem⟩ := budgetedExcerpt_spec (hfits m List.mem_cons_self)
    have hother : query.messageId ≠ some m.id := by
      rw [hmode]
      intro h
      cases h
    unfold collect
    rw [if_neg hother]
    dsimp only
    split_ifs with hfull hlarge
    · have hne : messages ≠ [] := by
        rintro rfl
        rw [listSize_nil, List.length_nil] at hfull
        omega
      obtain ⟨after, hlast, hcollected⟩ := hstop hne
      rw [hlast]
      exact ⟨_, _, rfl, hpage, hcollected⟩
    · have hne : messages ≠ [] := by
        rintro rfl
        rw [List.nil_append, pageSize_singleton] at hlarge
        omega
      obtain ⟨after, hlast, hcollected⟩ := hstop hne
      rw [hlast]
      exact ⟨_, _, rfl, hpage, hcollected⟩
    · have hsmall : pageSize (messages ++ [firstExcerpt m]) ≤ 2200 := by
        unfold firstExcerpt
        omega
      cases hnext : (budgetedExcerpt m 0).nextOffset with
      | some next =>
        have hwithin : Collected query messages (m :: ms) (messages ++ [].map firstExcerpt ++ [firstExcerpt m])
            (some { query with messageId := some m.id, offset := some next }) := .within (by simp) rfl hnext
        rw [List.map_nil, List.append_nil] at hwithin
        exact ⟨_, _, rfl, hsmall, hwithin⟩
      | none =>
        obtain ⟨messages', next, hcollect, hpage', hcollected⟩ :=
          ih (fun m' hm' => hfits m' (List.mem_cons_of_mem _ hm')) hsmall
        refine ⟨messages', next, hcollect, hpage', hcollected.cons hnext ?_⟩
        omega

/-! ## Following the queries -/

section Following

variable {s : ConversationStore} {identity : MemoryIdentity} {conversationId : String}

/-- The pages that one gets from a query on are within the budget, and what is on them is as `P` says. -/
def Delivers (s : ConversationStore) (identity : MemoryIdentity) (query : ConversationRead)
    (P : List HistoryExcerpt → Prop) : Prop :=
  ∃ results, Pages s identity query results ∧ (∀ result ∈ results, pageSize result.messages ≤ 2200) ∧
    P (results.flatMap ConversationReadResult.messages)

/-- The pages are determined by the query. -/
theorem Pages.unique {query : ConversationRead} {results results' : List ConversationReadResult}
    (h : Pages s identity query results) (h' : Pages s identity query results') : results = results' := by
  induction h generalizing results' with
  | last hread hnext =>
    cases h' with
    | last hread' _ => rw [Except.ok.inj (hread.symm.trans hread')]
    | more hread' hnext' _ =>
      obtain rfl := Except.ok.inj (hread.symm.trans hread')
      rw [hnext] at hnext'
      cases hnext'
  | more hread hnext _ ih =>
    cases h' with
    | last hread' hnext' =>
      obtain rfl := Except.ok.inj (hread.symm.trans hread')
      rw [hnext] at hnext'
      cases hnext'
    | more hread' hnext' hmore' =>
      obtain rfl := Except.ok.inj (hread.symm.trans hread')
      obtain rfl := Option.some.inj (hnext.symm.trans hnext')
      rw [ih hmore']

/-- Every message in pieces, one after the other. -/
def Whole (ms : List ConversationMessage) (items : List HistoryExcerpt) : Prop :=
  ∃ parts, items = parts.flatten ∧ List.Forall₂ (fun m pieces => Pieces m 0 pieces) ms parts

/-- A query for a range of a conversation. -/
structure ConversationRead.ForRange (query : ConversationRead) (conversationId : String) : Prop where
  valid : query.Valid
  conversation : query.conversationId = conversationId
  mode : query.messageId = none
  offset : query.offset.getD 0 = 0

/-- A valid query asks for one message at least. -/
theorem ConversationRead.Valid.limit {query : ConversationRead} (h : query.Valid) :
    1 ≤ query.limit.getD 10 := by
  have hlimit := h.2.2.2
  cases hquery : query.limit with
  | none => exact (by decide : 1 ≤ 10)
  | some limit => exact (hlimit limit hquery).1

/-- Nothing is the whole of no messages. -/
theorem whole_nil : Whole [] [] := ⟨[], rfl, .nil⟩

/-- The pieces of a message and the whole of the others. -/
theorem Whole.cons {m : ConversationMessage} {ms : List ConversationMessage} {pieces items : List HistoryExcerpt}
    (hpieces : Pieces m 0 pieces) (h : Whole ms items) : Whole (m :: ms) (pieces ++ items) := by
  obtain ⟨parts, rfl, hparts⟩ := h
  exact ⟨pieces :: parts, rfl, .cons hpieces hparts⟩

/-- A message that is read at once is in one piece. -/
theorem pieces_firstExcerpt {m : ConversationMessage} (h : (firstExcerpt m).nextOffset = none) :
    Pieces m 0 [firstExcerpt m] := by
  obtain ⟨length, -, heq, -⟩ := shrinkExcerpt_spec m 0 400 (by decide)
  have hfirst : firstExcerpt m = excerpt m 0 length := heq
  rw [hfirst] at h ⊢
  exact .last h

/-- Messages that are read in one piece, and the whole of the others. -/
theorem Whole.append {full ms : List ConversationMessage} {items : List HistoryExcerpt}
    (hwhole : ∀ m ∈ full, (firstExcerpt m).nextOffset = none) (h : Whole ms items) :
    Whole (full ++ ms) (full.map firstExcerpt ++ items) := by
  induction full with
  | nil => exact h
  | cons m full ih =>
    have hfirst := pieces_firstExcerpt (hwhole m List.mem_cons_self)
    have hrest := ih fun m' hm' => hwhole m' (List.mem_cons_of_mem _ hm')
    have hmore : Whole (m :: (full ++ ms)) ([firstExcerpt m] ++ (full.map firstExcerpt ++ items)) :=
      .cons hfirst hrest
    exact hmore

/-- A page, and those after it. -/
theorem Delivers.more {query next : ConversationRead} {result : ConversationReadResult}
    {P P' : List HistoryExcerpt → Prop} (hread : read s identity query = .ok result)
    (hsize : pageSize result.messages ≤ 2200) (hnext : result.next = some next)
    (h : Delivers s identity next P) (hP : ∀ items, P items → P' (result.messages ++ items)) :
    Delivers s identity query P' := by
  obtain ⟨results, hpages, hsizes, hitems⟩ := h
  refine ⟨result :: results, .more hread hnext hpages, ?_, ?_⟩
  · intro r hr
    rcases List.mem_cons.mp hr with rfl | hr
    · exact hsize
    · exact hsizes r hr
  · rw [List.flatMap_cons]
    exact hP _ hitems

/-- The last page. -/
theorem Delivers.last {query : ConversationRead} {result : ConversationReadResult}
    {P : List HistoryExcerpt → Prop} (hread : read s identity query = .ok result)
    (hsize : pageSize result.messages ≤ 2200) (hnext : result.next = none) (hP : P result.messages) :
    Delivers s identity query P := by
  refine ⟨[result], .last hread hnext, ?_, ?_⟩
  · intro r hr
    rw [List.mem_singleton.mp hr]
    exact hsize
  · rw [List.flatMap_singleton]
    exact hP

/-- What a query reads once its messages are known. -/
theorem read_eq {query : ConversationRead} {ms : List ConversationMessage} {messages : List HistoryExcerpt}
    {next : Option ConversationRead} (hvalid : query.Valid)
    (hauth : authorize s identity query.conversationId = .ok ())
    (hoffset : ¬ (0 < query.offset.getD 0 ∧ query.messageId = none))
    (hcandidates : candidates s identity query = .ok ms) (hcollect : collect query [] ms = .ok (messages, next)) :
    read s identity query = .ok
      { messages, next := next.or (following s query ms), truncated := (next.or (following s query ms)).isSome } := by
  have hschema : require query.Valid StoreError.schema = .ok () := require_eq_ok.mpr hvalid
  have hstart : require (¬ (0 < query.offset.getD 0 ∧ query.messageId = none))
      (protocolFault "偏移读取必须指定消息 ID。") = .ok () := require_eq_ok.mpr hoffset
  unfold read
  rw [hschema, hauth, hstart, hcandidates]
  show (collect query [] ms >>= _) = _
  rw [hcollect]
  rfl

/-- The messages of a query for one message. -/
theorem candidates_piece {query : ConversationRead} {m : ConversationMessage} (hs : s.Indexed)
    (hm : m ∈ query.messages s) (hmode : query.messageId = some m.id)
    (hauth : authorize s identity query.conversationId = .ok ()) :
    candidates s identity query = .ok [m] := by
  obtain ⟨hmessage, hincluded⟩ := List.mem_filter.mp hm
  obtain ⟨hmem, hconversation⟩ := List.mem_filter.mp hmessage
  rw [decide_eq_true_eq] at hconversation
  have hfound : s.message? m.id = some m := message?_of_mem hs.ids hmem
  have hsource : source s identity ⟨query.conversationId, m.id⟩ = .ok m := by
    have hthere : require (m.conversationId = query.conversationId)
        (protocolFault "来源消息不存在或不属于所引用会话。") = .ok () := require_eq_ok.mpr hconversation
    unfold source
    dsimp only
    rw [hauth, hfound]
    show (require (m.conversationId = query.conversationId) _ >>= _) = _
    rw [hthere]
    rfl
  unfold candidates
  rw [hmode]
  dsimp only
  rw [hsource]
  show Except.ok ([m].filter fun message => query.includes message.sequence) = _
  have hkept : [m].filter (fun message => query.includes message.sequence) = [m] := by simp [hincluded]
  rw [hkept]

/-- The messages of a query for a range. -/
theorem candidates_range {query : ConversationRead} (hs : s.Indexed) (hmode : query.messageId = none) :
    candidates s identity query = .ok ((query.messages s).take (query.limit.getD 10 + 1)) := by
  unfold candidates
  rw [hmode]
  show Except.ok ((s.range query.conversationId (query.afterSequence.getD 0) (query.limit.getD 10 + 1)).filter
    fun message => query.includes message.sequence) = _
  rw [hs.range_filter]

/-- After the end of a message the range goes on with the messages after it, or ends with it. -/
theorem following_spec {query : ConversationRead} {full tail : List ConversationMessage}
    {m : ConversationMessage} (hs : s.Indexed) (hvalid : query.Valid)
    (hmessages : query.messages s = full ++ m :: tail) (hmode : query.messageId = some m.id) :
    (following s query [m] = none ∧ tail = []) ∨
      ∃ next, following s query [m] = some next ∧ next.ForRange query.conversationId ∧ next.messages s = tail := by
  let next : ConversationRead :=
    { query with messageId := none, offset := none, afterSequence := some m.sequence }
  have hnext : next.messages s = tail := hs.messages_after hmessages rfl rfl rfl
  have hfirst : ((s.range query.conversationId m.sequence 1).filter fun message =>
      next.includes message.sequence) = tail.take 1 := by
    rw [← hnext]
    exact hs.range_filter next 1
  unfold following
  rw [hmode]
  -- The source looks at the next message only, and at whether the range reaches it.
  cases hrange : s.range query.conversationId m.sequence 1 with
  | nil =>
    left
    rw [hrange] at hfirst
    have hnone : tail.take 1 = [] := hfirst.symm
    refine ⟨by simp [hrange], ?_⟩
    cases tail with
    | nil => rfl
    | cons a tail => cases hnone
  | cons message others =>
    have hlong : (s.range query.conversationId m.sequence 1).length ≤ 1 := by
      unfold ConversationStore.range
      rw [List.length_take]
      omega
    obtain rfl : others = [] := by
      rw [hrange, List.length_cons] at hlong
      exact List.length_eq_zero_iff.mp (by omega)
    have hlater : m.sequence < message.sequence := by
      have hmem : message ∈ s.range query.conversationId m.sequence 1 := by simp [hrange]
      exact (ConversationStore.mem_messagesAfter.mp (List.mem_of_mem_take hmem)).2.2
    have hincludes : next.includes message.sequence =
        query.throughSequence.all fun through => message.sequence ≤ through := by
      unfold ConversationRead.includes
      rw [show next.afterSequence.getD 0 = m.sequence from rfl, decide_eq_true hlater, Bool.true_and]
    -- The next message is within the range, or the range is over.
    cases hthrough : query.throughSequence.all fun through => message.sequence ≤ through with
    | true =>
      right
      refine ⟨next, by simp [hrange, hthrough, next], ⟨?_, rfl, rfl, rfl⟩, hnext⟩
      exact ⟨hvalid.1, fun h => (by cases h), hvalid.2.2⟩
    | false =>
      left
      rw [hrange, List.filter_cons_of_neg (by rw [hincludes, hthrough]; exact Bool.false_ne_true)] at hfirst
      have hnone : tail.take 1 = [] := hfirst.symm
      refine ⟨by simp [hrange, hthrough], ?_⟩
      cases tail with
      | nil => rfl
      | cons a tail => cases hnone

/-- The rest of a message is read piece by piece, and then the messages after it. The induction is on what is
left of the message. -/
theorem delivers_piece (hs : s.Indexed) {m : ConversationMessage}
    (hfits : ∀ offset ≤ m.units.length, (excerpt m offset 1).size ≤ 1800) {full tail : List ConversationMessage}
    (hrest : ∀ next : ConversationRead, next.ForRange conversationId → next.messages s = tail →
      Delivers s identity next (Whole tail))
    {query : ConversationRead} (hvalid : query.Valid) (hid : query.conversationId = conversationId)
    (hauth : authorize s identity conversationId = .ok ()) (hmode : query.messageId = some m.id)
    (hmessages : query.messages s = full ++ m :: tail) {offset : ℕ} (hoffset : query.offset = some offset)
    (hlt : offset < m.units.length) :
    Delivers s identity query fun items => ∃ pieces rest, items = pieces ++ rest ∧ Pieces m offset pieces ∧
      Whole tail rest := by
  obtain ⟨left, hleft⟩ : ∃ left, m.units.length - offset = left := ⟨_, rfl⟩
  -- The induction is on the units that are left of the message.
  induction left using Nat.strongRecOn generalizing query offset with
  | ind left ih =>
    have hmem : m ∈ query.messages s := by simp [hmessages]
    rw [← hid] at hauth
    have hcandidates := candidates_piece hs hmem hmode hauth
    obtain ⟨length, hpos, hitem, hsize⟩ := budgetedExcerpt_spec (hfits offset (Nat.le_of_lt hlt))
    have hpage : pageSize [budgetedExcerpt m offset] ≤ 2200 := by
      rw [pageSize_singleton]
      omega
    -- The page holds this piece alone: what is left of the message comes with the next query.
    have hstart : ¬ (0 < query.offset.getD 0 ∧ query.messageId = none) := by
      rw [hmode]
      intro h
      cases h.2
    have hcollect : (∀ next, (budgetedExcerpt m offset).nextOffset = some next →
        collect query [] [m] = .ok ([budgetedExcerpt m offset],
          some { query with messageId := some m.id, offset := some next })) ∧
        ((budgetedExcerpt m offset).nextOffset = none →
          collect query [] [m] = .ok ([budgetedExcerpt m offset], none)) := by
      have hroom : ¬ (query.limit.getD 10 ≤ ([] : List HistoryExcerpt).length ∨ 1000 < listSize []) := by
        have hlimit := hvalid.limit
        rw [listSize_nil, List.length_nil]
        omega
      have hsmall : ¬ 2200 < pageSize ([] ++ [budgetedExcerpt m offset]) := by
        rw [List.nil_append]
        omega
      have hgiven : query.offset.getD 0 = offset := by rw [hoffset]; rfl
      refine ⟨fun next hnext => ?_, fun hnext => ?_⟩
      all_goals
        unfold collect
        rw [if_neg hroom, if_pos hmode, hgiven]
        dsimp only
        rw [if_neg hsmall, hnext]
        rfl
    -- The piece ends inside the message, or with it.
    cases hnext : (budgetedExcerpt m offset).nextOffset with
    | some next =>
      have hread := read_eq hvalid hauth hstart hcandidates (hcollect.1 next hnext)
      rw [hitem] at hnext
      obtain ⟨hnextOffset, hbefore⟩ := nextOffset_eq_some hnext
      have hnextValid : ({ query with messageId := some m.id, offset := some next } : ConversationRead).Valid :=
        ⟨hvalid.1, fun h => hvalid.2.1 (hmode.trans h), hvalid.2.2⟩
      have hmore := ih (m.units.length - next) (by omega) hnextValid hid rfl hmessages rfl hbefore rfl
      refine hmore.more hread hpage rfl ?_
      rintro items ⟨pieces, rest, rfl, hpieces, hwhole⟩
      refine ⟨budgetedExcerpt m offset :: pieces, rest, rfl, ?_, hwhole⟩
      rw [hitem]
      exact .more hnext hpieces
    | none =>
      have hread := read_eq hvalid hauth hstart hcandidates (hcollect.2 hnext)
      rw [hitem] at hnext
      have hlast : Pieces m offset [budgetedExcerpt m offset] := by
        rw [hitem]
        exact .last hnext
      -- Behind the message the range is over, or the caller reads on.
      rcases following_spec hs hvalid hmessages hmode with ⟨hfollowing, rfl⟩ | ⟨next, hfollowing, hrange, htail⟩
      · rw [hfollowing] at hread
        exact .last hread hpage rfl ⟨_, [], rfl, hlast, whole_nil⟩
      · rw [hfollowing] at hread
        have hmore := hrest next (hid ▸ hrange) htail
        refine hmore.more hread hpage rfl ?_
        exact fun items hwhole => ⟨_, items, rfl, hlast, hwhole⟩

/-- A range is read page by page. The induction is on the messages that are left. -/
theorem delivers_range (hs : s.Indexed) (hauth : authorize s identity conversationId = .ok ())
    (hfits : ∀ m ∈ s.messagesOf conversationId, ∀ offset ≤ m.units.length, (excerpt m offset 1).size ≤ 1800)
    {query : ConversationRead} (hrange : query.ForRange conversationId) :
    Delivers s identity query (Whole (query.messages s)) := by
  obtain ⟨left, hleft⟩ : ∃ left, (query.messages s).length = left := ⟨_, rfl⟩
  -- The induction is on the number of messages that are left.
  induction left using Nat.strongRecOn generalizing query with
  | ind left ih =>
    obtain ⟨hvalid, hid, hmode, hoffset⟩ := hrange
    have hfits' : ∀ m ∈ query.messages s, ∀ offset ≤ m.units.length, (excerpt m offset 1).size ≤ 1800 := by
      intro m hm
      exact hfits m (hid ▸ (List.mem_filter.mp hm).1)
    have hcandidates : candidates s identity query = _ := candidates_range hs hmode
    have hempty : pageSize [] ≤ 2200 := by
      rw [pageSize_nil]
      decide
    have hsmall : ∀ m ∈ (query.messages s).take (query.limit.getD 10 + 1), (excerpt m 0 1).size ≤ 1800 :=
      fun m hm => hfits' m (List.mem_of_mem_take hm) 0 (Nat.zero_le _)
    obtain ⟨messages, next, hcollect, hpage, hcollected⟩ := collect_spec hmode hvalid.limit hsmall hempty
    have hstart : ¬ (0 < query.offset.getD 0 ∧ query.messageId = none) := by
      rw [hoffset]
      exact fun h => absurd h.1 (by decide)
    have hread := read_eq hvalid (hid ▸ hauth) hstart hcandidates hcollect
    -- How the page ended: with the range, between two messages, or inside one.
    cases hcollected with
    | all hwhole hlimit =>
      have hend : following s query ((query.messages s).take (query.limit.getD 10 + 1)) = none := by
        unfold following
        rw [hmode]
        rfl
      rw [hend] at hread
      have hall : (query.messages s).take (query.limit.getD 10 + 1) = query.messages s := by
        apply List.take_of_length_le
        rcases hlimit with hnothing | hlimit
        · have hlength := congrArg List.length hnothing
          rw [List.length_take, List.length_nil] at hlength
          omega
        · rw [List.length_nil, List.length_take] at hlimit
          omega
      rw [hall] at hwhole hread hpage
      refine .last hread hpage rfl ?_
      have hitems := Whole.append hwhole whole_nil
      rw [List.append_nil, List.append_nil] at hitems
      exact hitems
    | @between full tail after hwhole hms hafter =>
      have hsplit : query.messages s = full ++ (tail ++ (query.messages s).drop (query.limit.getD 10 + 1)) := by
        rw [← List.append_assoc, ← hms, List.take_append_drop]
      -- A page that ends between two messages has at least one.
      obtain ⟨begun, m, rfl⟩ : ∃ begun m, full = begun ++ [m] := by
        rcases List.eq_nil_or_concat' full with rfl | ⟨begun, m, hfull⟩
        · simp at hafter
        · exact ⟨begun, m, hfull⟩
      have hlast : after = m.sequence := by
        rw [List.nil_append, List.map_append, List.map_singleton, List.getLast?_concat, Option.map_some,
          sequence_firstExcerpt] at hafter
        exact (Option.some.inj hafter).symm
      subst hlast
      rw [List.append_assoc, List.singleton_append] at hsplit
      have hnext : ({ query with afterSequence := some m.sequence, offset := some 0 } : ConversationRead).messages s =
          _ := hs.messages_after hsplit rfl rfl rfl
      have hnextRange : ({ query with afterSequence := some m.sequence, offset := some 0 } :
          ConversationRead).ForRange conversationId := ⟨hvalid, hid, hmode, rfl⟩
      have hshorter := congrArg List.length hsplit
      rw [List.length_append, List.length_cons] at hshorter
      -- The rest of the range is shorter, since a message was read.
      have hmore := ih _ (by rw [← hleft, hshorter, hnext]; omega) hnextRange rfl
      refine hmore.more hread hpage rfl ?_
      intro items hitems
      rw [hnext] at hitems
      have hboth := Whole.append hwhole hitems
      rw [List.append_assoc, List.singleton_append, ← hsplit] at hboth
      exact hboth
    | @within full tail m next hwhole hms hnext =>
      have hsplit : query.messages s =
          full ++ m :: (tail ++ (query.messages s).drop (query.limit.getD 10 + 1)) := by
        rw [← List.cons_append, ← List.append_assoc, ← hms, List.take_append_drop]
      have hmem : m ∈ query.messages s := by
        rw [hsplit]
        simp
      have hshorter := congrArg List.length hsplit
      rw [List.length_append, List.length_cons] at hshorter
      obtain ⟨length, -, hitem, -⟩ := budgetedExcerpt_spec (hfits' m hmem 0 (Nat.zero_le _))
      have hfirst : firstExcerpt m = excerpt m 0 length := hitem
      have hbefore := hnext
      rw [hfirst] at hbefore
      have hnamed : m.id ≠ "" := hs.named m (List.mem_filter.mp (List.mem_filter.mp hmem).1).1
      -- After the message that was cut, the rest of the range is read.
      have hrest : ∀ next : ConversationRead, next.ForRange conversationId →
          next.messages s = tail ++ (query.messages s).drop (query.limit.getD 10 + 1) →
            Delivers s identity next (Whole (tail ++ (query.messages s).drop (query.limit.getD 10 + 1))) := by
        intro next hnextRange htail
        rw [← htail]
        exact ih _ (by rw [← hleft, htail, hshorter]; omega) hnextRange rfl
      have hnextValid : ({ query with messageId := some m.id, offset := some next } : ConversationRead).Valid :=
        ⟨hvalid.1, fun h => hnamed (Option.some.inj h), hvalid.2.2⟩
      have hmore := delivers_piece hs (hfits' m hmem) hrest hnextValid hid hauth rfl hsplit rfl
        (nextOffset_eq_some hbefore).2
      refine hmore.more hread hpage rfl ?_
      rintro items ⟨pieces, rest, rfl, hpieces, hwholeRest⟩
      have hm : Pieces m 0 (firstExcerpt m :: pieces) := by
        rw [hfirst]
        exact .more hbefore hpieces
      have hboth := Whole.append hwhole (hwholeRest.cons hm)
      rw [← hsplit] at hboth
      have hitems : [] ++ full.map firstExcerpt ++ [firstExcerpt m] ++ (pieces ++ rest) =
          full.map firstExcerpt ++ (firstExcerpt m :: pieces ++ rest) := by simp
      rw [hitems]
      exact hboth

/-- Following the queries from one for a range on ends, every page is within the budget, and the pages are the
messages of the range, in order, each of them once and in pieces that are its content. -/
theorem read_all (hs : s.Indexed) {query : ConversationRead} (hrange : query.ForRange query.conversationId)
    (hauth : authorize s identity query.conversationId = .ok ())
    (hfits : ∀ m ∈ s.messagesOf query.conversationId, ∀ offset ≤ m.units.length,
      (excerpt m offset 1).size ≤ 1800) :
    ∃ results, Pages s identity query results ∧ (∀ result ∈ results, pageSize result.messages ≤ 2200) ∧
      ∃ parts, results.flatMap ConversationReadResult.messages = parts.flatten ∧
        List.Forall₂ (fun m pieces => Pieces m 0 pieces ∧ pieces.flatMap HistoryExcerpt.content = m.units)
          (query.messages s) parts := by
  obtain ⟨results, hpages, hsizes, parts, hitems, hparts⟩ := delivers_range hs hauth hfits hrange
  refine ⟨results, hpages, hsizes, parts, hitems, hparts.imp ?_⟩
  intro m pieces hpieces
  have hcontent := hpieces.content
  rw [List.drop_zero] at hcontent
  exact ⟨hpieces, hcontent⟩

end Following

/-! ## Two messages -/

/-- A message that fits into one piece. -/
def shortMessage (sequence : ℕ) (id : String) : ConversationMessage where
  id := id
  sequence := sequence
  conversationId := "c"
  sender := .agent 1
  content := "hi"
  createdAt := 0
  replyTo := none
  mentions := []
  phaseId := "p"

/-- A conversation with two messages. -/
def shortStore : ConversationStore where
  conversations := [⟨⟨"c", "o", "w", .direct, "", [.user "u", .agent 1], .all, 0⟩, none⟩]
  messages := [shortMessage 1 "m", shortMessage 2 "n"]
  lastSequence := 2

/-- A message that is read in two pieces, and one behind it. -/
def longMessage : ConversationMessage :=
  { shortMessage 1 "m" with content := String.ofList (List.replicate 450 'x') }

/-- A store with a long message and a short one. -/
def longStore : ConversationStore := { shortStore with messages := [longMessage, shortMessage 2 "n"] }

/-- A query for two messages at a time. -/
def longQuery : ConversationRead := { conversationId := "c", limit := some 2 }

/-- The long message has 450 units. -/
theorem units_longMessage : longMessage.units = List.replicate 450 120 := by
  unfold ConversationMessage.units longMessage
  rw [String.toList_ofList]
  decide +kernel

/-- A piece of it. -/
def longPiece (offset length : ℕ) : HistoryExcerpt where
  conversationId := "c"
  messageId := "m"
  sequence := 1
  sender := .agent 1
  createdAt := 0
  content := List.replicate (min length (450 - offset)) 120
  offset := offset
  totalLength := 450
  nextOffset := if offset + min length (450 - offset) < 450 then some (offset + min length (450 - offset)) else none

/-- A piece of the long message. -/
theorem excerpt_longMessage (offset length : ℕ) : excerpt longMessage offset length = longPiece offset length := by
  unfold excerpt longPiece
  dsimp only
  rw [units_longMessage, List.drop_replicate, List.take_replicate, List.length_replicate,
    List.length_replicate]
  rfl

/-- The piece of the long message is within the budget. -/
theorem budgetedExcerpt_longMessage {offset : ℕ} (h : (longPiece offset 400).size ≤ 1800) :
    budgetedExcerpt longMessage offset = longPiece offset 400 := by
  unfold budgetedExcerpt
  rw [shrinkExcerpt, if_neg, excerpt_longMessage]
  rw [excerpt_longMessage]
  omega

/-- The size of a property with a short name and a short text. -/
theorem partSize_le {name : String} {text : List Char} (hname : textSize name ≤ 20) (htext : byteLength text ≤ 4) :
    partSize (name, text) ≤ 26 := by
  unfold partSize
  dsimp only
  omega

/-- One unit of it fits. -/
theorem size_longPiece_le {offset : ℕ} (h : offset ≤ 450) : (longPiece offset 1).size ≤ 1800 := by
  have hnumber : ∀ n < 451, byteLength (stringify (.ofNat n)) ≤ 4 := by decide +kernel
  have hunits : byteLength (unitsText (longPiece offset 1).content) ≤ 4 := by
    have hfew : min 1 (450 - offset) = 0 ∨ min 1 (450 - offset) = 1 := by omega
    unfold longPiece
    dsimp only
    rcases hfew with hnone | hone
    · rw [hnone]
      decide +kernel
    · rw [hone]
      decide +kernel
  have hnext : byteLength (stringify (((longPiece offset 1).nextOffset.map JsonValue.ofNat).getD .null)) ≤ 4 := by
    unfold longPiece
    dsimp only
    split_ifs with hlt
    · exact hnumber _ (by omega)
    · decide +kernel
  -- Only the content and the offsets depend on where the piece begins.
  have hfixed : partSize ("conversationId", quote "c") + partSize ("messageId", quote "m") +
      partSize ("sequence", stringify (.ofNat 1)) +
      partSize ("sender", stringify (ConversationMember.agent 1).toJson) +
      partSize ("createdAt", stringify (.ofNat 0)) + partSize ("totalLength", stringify (.ofNat 450)) ≤ 400 := by
    decide +kernel
  have hcontent := @partSize_le "content" _ (by decide +kernel) hunits
  have hoffset := @partSize_le "offset" _ (by decide +kernel) (hnumber offset (by omega))
  have hafter := @partSize_le "nextOffset" _ (by decide +kernel) hnext
  unfold HistoryExcerpt.size HistoryExcerpt.text
  rw [byteLength_objectText (by simp)]
  show partSize ("conversationId", quote "c") + (partSize ("messageId", quote "m") +
      (partSize ("sequence", stringify (.ofNat 1)) +
      (partSize ("sender", stringify (ConversationMember.agent 1).toJson) +
      (partSize ("createdAt", stringify (.ofNat 0)) +
      (partSize ("content", unitsText (longPiece offset 1).content) +
      (partSize ("offset", stringify (.ofNat offset)) +
      (partSize ("totalLength", stringify (.ofNat 450)) +
      (partSize ("nextOffset", stringify (((longPiece offset 1).nextOffset.map JsonValue.ofNat).getD .null)) +
        0)))))))) + 1 ≤ 1800
  omega

/-- The queries for the second piece, and for the other message. -/
def pieceQuery : ConversationRead := { longQuery with messageId := some "m", offset := some 400 }

/-- The query for what is behind the long message. -/
def restQuery : ConversationRead := { longQuery with afterSequence := some 1 }

/-- What is read: two pieces, and then the other message. -/
def longResults : List ConversationReadResult :=
  [⟨[longPiece 0 400], some pieceQuery, true⟩, ⟨[longPiece 400 400], some restQuery, true⟩,
    ⟨[excerpt (shortMessage 2 "n") 0 400], none, false⟩]

/-- A page with one piece of the message. -/
theorem collect_longMessage {query : ConversationRead} {offset : ℕ} {rest : List ConversationMessage}
    (hlimit : query.limit.getD 10 = 2)
    (hoffset : (if query.messageId = some "m" then query.offset.getD 0 else 0) = offset)
    (hsize : (longPiece offset 400).size ≤ 1800) :
    collect query [] (longMessage :: rest) =
      match (longPiece offset 400).nextOffset with
      | some next => .ok ([longPiece offset 400], some { query with messageId := some "m", offset := some next })
      | none => collect query [longPiece offset 400] rest := by
  have hid : longMessage.id = "m" := rfl
  have hpage : ¬ 2200 < pageSize [longPiece offset 400] := by
    rw [pageSize_singleton]
    omega
  have hroom : ¬ (query.limit.getD 10 ≤ ([] : List HistoryExcerpt).length ∨ 1000 < listSize []) := by
    rw [hlimit, listSize_nil]
    decide
  rw [collect, if_neg hroom]
  dsimp only
  rw [hid, hoffset, budgetedExcerpt_longMessage hsize, List.nil_append]
  exact if_neg hpage

/-- The pages of the long message and the short one. -/
theorem pages_longResults : Pages longStore ⟨"o", .agent 1⟩ longQuery longResults := by
  have hauth : authorize longStore ⟨"o", .agent 1⟩ "c" = .ok () := by decide
  have hfirst : (longPiece 0 400).size ≤ 1800 := by decide +kernel
  have hsecond : (longPiece 400 400).size ≤ 1800 := by decide +kernel
  have hpiece : collect longQuery [] [longMessage, shortMessage 2 "n"] =
      .ok ([longPiece 0 400], some pieceQuery) := collect_longMessage rfl rfl hfirst
  have hlast : collect pieceQuery [] [longMessage] = .ok ([longPiece 400 400], none) :=
    collect_longMessage rfl rfl hsecond
  have hall : candidates longStore ⟨"o", .agent 1⟩ longQuery = .ok [longMessage, shortMessage 2 "n"] := rfl
  have hone : candidates longStore ⟨"o", .agent 1⟩ pieceQuery = .ok [longMessage] := rfl
  have hnext : following longStore pieceQuery [longMessage] = some restQuery := rfl
  have hreadFirst := @read_eq longStore _ longQuery _ _ _ (by decide) hauth (by decide) hall hpiece
  have hreadSecond := @read_eq longStore _ pieceQuery _ _ _ (by decide) hauth (by decide) hone hlast
  rw [Option.some_or] at hreadFirst
  rw [Option.none_or, hnext] at hreadSecond
  refine .more hreadFirst rfl (.more hreadSecond rfl (.last ?_ rfl))
  decide +kernel

/-- The two messages are read in three pages, whose contents are theirs. -/
theorem read_all_long :
    Pages longStore ⟨"o", .agent 1⟩ longQuery longResults ∧
      (∀ result ∈ longResults, pageSize result.messages ≤ 2200) ∧
        ((longResults.flatMap ConversationReadResult.messages).map fun item => (item.messageId, item.offset)) =
          [("m", 0), ("m", 400), ("n", 0)] ∧
        (longResults.flatMap ConversationReadResult.messages).flatMap HistoryExcerpt.content =
          longMessage.units ++ (shortMessage 2 "n").units := by
  have hindexed : longStore.Indexed := by
    constructor
    · show List.Pairwise _ [longMessage, shortMessage 2 "n"]
      rw [List.pairwise_pair]
      decide
    · decide
    · decide
  have hrange : longQuery.ForRange "c" := by
    refine ⟨⟨by decide, fun h => (by cases h), fun h => (by cases h), ?_⟩, rfl, rfl, rfl⟩
    intro limit hlimit
    obtain rfl := Option.some.inj hlimit
    decide
  have hauth : authorize longStore ⟨"o", .agent 1⟩ "c" = .ok () := by decide
  have hfits : ∀ m ∈ longStore.messagesOf "c", ∀ offset ≤ m.units.length, (excerpt m offset 1).size ≤ 1800 := by
    have hshort : ∀ offset < (shortMessage 2 "n").units.length + 1,
        (excerpt (shortMessage 2 "n") offset 1).size ≤ 1800 := by
      decide +kernel
    show ∀ m ∈ [longMessage, shortMessage 2 "n"], _
    rw [List.forall_mem_cons, List.forall_mem_singleton]
    constructor
    · intro offset hoffset
      rw [units_longMessage, List.length_replicate] at hoffset
      rw [excerpt_longMessage]
      exact size_longPiece_le hoffset
    · exact fun offset hoffset => hshort offset (by omega)
  have hmessages : longQuery.messages longStore = [longMessage, shortMessage 2 "n"] := rfl
  obtain ⟨results, hpages, hsizes, parts, hitems, hparts⟩ := read_all hindexed hrange hauth hfits
  -- The pages are those computed, and what is shown of any pages holds of them.
  obtain rfl := pages_longResults.unique hpages
  rw [hmessages] at hparts
  obtain ⟨pieces, rest, ⟨-, hpieces⟩, hrest, rfl⟩ := List.forall₂_cons_left_iff.mp hparts
  obtain ⟨last, others, ⟨-, hlast⟩, hnone, rfl⟩ := List.forall₂_cons_left_iff.mp hrest
  obtain rfl := List.forall₂_nil_left_iff.mp hnone
  refine ⟨hpages, hsizes, rfl, ?_⟩
  rw [hitems, List.flatten_cons, List.flatten_cons, List.flatten_nil, List.append_nil, List.flatMap_append,
    hpieces, hlast]

end OsAgent.Conversations
