import OsAgent.Conversations.Compactor
import OsAgent.Library.Segments

/-!
# The chain of summaries

Whatever rounds of several agents do at the same time, the versions of a summary follow each other without
a gap: a version covers what the one before it covered and exactly the messages of its plan
(`chain_of_reachable`). A plan fixes its messages, and messages come only after them, so they are the same
when the answer is stored. A version is stored only if the conversation still covers what it covered when
its round was planned, and that is so of one version at most.
-/

namespace OsAgent.Conversations

open OsAgent.Library ConversationStore

/-! ## What a version adds -/

/-- The messages of a conversation after one sequence, up to another one. -/
def messagesWithin (s : ConversationStore) (conversationId : String) (after upper : ℕ) :
    List ConversationMessage :=
  (s.messagesAfter conversationId after).filter fun m => m.sequence ≤ upper

/-- What a version is after the one before it. -/
structure Extends (s : ConversationStore) (conversationId : String) (previous : Option ConversationSummary)
    (plan : CompactPlan) (summary : ConversationSummary) : Prop where
  version : summary.version = (previous.map ConversationSummary.version).getD 0 + 1
  covered : coveredBy previous < summary.coveredSequence
  messages : plan.messageIds =
    (messagesWithin s conversationId (coveredBy previous) summary.coveredSequence).map
      ConversationMessage.id
  sources : ∀ ref ∈ summary.sources,
    (∃ m ∈ messagesWithin s conversationId (coveredBy previous) summary.coveredSequence,
      ref = ⟨conversationId, m.id⟩) ∨ ∃ old ∈ previous, ref ∈ old.sources

/-- Versions of which each one extends the one before it. -/
def Chain (s : ConversationStore) (conversationId : String) :
    Option ConversationSummary → List (CompactPlan × ConversationSummary) → Prop
  | _, [] => True
  | previous, (plan, summary) :: rest =>
    Extends s conversationId previous plan summary ∧ Chain s conversationId (some summary) rest

section Chains

variable {s s' : ConversationStore} {conversationId : String} {previous : Option ConversationSummary}
  {entries : List (CompactPlan × ConversationSummary)}

/-- The last version of a chain, or the one before it. -/
def lastVersion (previous : Option ConversationSummary)
    (entries : List (CompactPlan × ConversationSummary)) : Option ConversationSummary :=
  (entries.getLast?.map Prod.snd).or previous

/-- The last version is that of the rest, after the first. -/
theorem lastVersion_cons (entry : CompactPlan × ConversationSummary) :
    lastVersion previous (entry :: entries) = lastVersion (some entry.2) entries := by
  unfold lastVersion
  cases entries with
  | nil => rfl
  | cons e es =>
    rw [List.getLast?_cons_cons]
    cases hlast : (e :: es).getLast? with
    | none => simp at hlast
    | some x => rfl

/-- A chain goes on with a version that extends its last one. -/
theorem Chain.append (h : Chain s conversationId previous entries) {plan : CompactPlan}
    {summary : ConversationSummary}
    (hextends : Extends s conversationId (lastVersion previous entries) plan summary) :
    Chain s conversationId previous (entries ++ [(plan, summary)]) := by
  induction entries generalizing previous with
  | nil => exact ⟨hextends, trivial⟩
  | cons entry entries ih =>
    obtain ⟨hfirst, hrest⟩ := h
    rw [lastVersion_cons] at hextends
    exact ⟨hfirst, ih hrest hextends⟩

/-- The versions of a chain cover more and more. -/
theorem Chain.covered (h : Chain s conversationId previous entries) :
    (∀ entry ∈ entries, coveredBy previous < entry.2.coveredSequence) ∧
      entries.Pairwise fun a b => a.2.coveredSequence < b.2.coveredSequence := by
  induction entries generalizing previous with
  | nil => exact ⟨fun _ hentry => (List.not_mem_nil hentry).elim, List.Pairwise.nil⟩
  | cons entry entries ih =>
    obtain ⟨hfirst, hrest⟩ := h
    obtain ⟨hall, hpairs⟩ := ih hrest
    have habove : ∀ e ∈ entries, entry.2.coveredSequence < e.2.coveredSequence := hall
    constructor
    · intro e he
      have hfirst := hfirst.covered
      rcases List.mem_cons.mp he with rfl | he
      · exact hfirst
      · have := habove e he
        omega
    · exact List.pairwise_cons.mpr ⟨habove, hpairs⟩

/-- The sources of its versions are in the conversation. -/
theorem Chain.sources (h : Chain s conversationId previous entries)
    (hprevious : ∀ old ∈ previous, ∀ ref ∈ old.sources, ref.conversationId = conversationId) :
    ∀ entry ∈ entries, ∀ ref ∈ entry.2.sources, ref.conversationId = conversationId := by
  induction entries generalizing previous with
  | nil =>
    intro entry hentry
    cases hentry
  | cons entry entries ih =>
    obtain ⟨hfirst, hrest⟩ := h
    have hthis : ∀ ref ∈ entry.2.sources, ref.conversationId = conversationId := by
      intro ref href
      rcases hfirst.sources ref href with ⟨m, -, rfl⟩ | ⟨old, hold, href⟩
      · rfl
      · exact hprevious old hold ref href
    intro e he
    rcases List.mem_cons.mp he with rfl | he
    · exact hthis
    · refine ih hrest ?_ e he
      intro old hold
      cases hold
      exact hthis

/-- The messages up to one of them stay the same when others come after them. -/
theorem messagesWithin_of_grown (hgrows : s.messages <+: s'.messages)
    (hordered : s'.messages.Pairwise fun m m' => m.sequence < m'.sequence) {last : ConversationMessage}
    (hlast : last ∈ s.messages) (conversationId : String) (after : ℕ) :
    messagesWithin s' conversationId after last.sequence =
      messagesWithin s conversationId after last.sequence := by
  obtain ⟨more, hmore⟩ := hgrows
  have hlater : ∀ m ∈ more, last.sequence < m.sequence := by
    intro m hm
    rw [← hmore, List.pairwise_append] at hordered
    exact hordered.2.2 last hlast m hm
  have hnone : (more.filter fun m => m.conversationId = conversationId && after < m.sequence).filter
      (fun m => m.sequence ≤ last.sequence) = [] := by
    rw [List.filter_eq_nil_iff]
    intro m hm
    have := hlater m (List.mem_of_mem_filter hm)
    simp only [decide_eq_true_eq]
    omega
  unfold messagesWithin messagesAfter
  rw [← hmore, List.filter_append, List.filter_append, hnone, List.append_nil]

/-- So a chain stays one. -/
theorem Chain.of_grown (h : Chain s conversationId previous entries)
    (hgrows : s.messages <+: s'.messages)
    (hordered : s'.messages.Pairwise fun m m' => m.sequence < m'.sequence)
    (hcovered : ∀ entry ∈ entries, ∃ m ∈ s.messages, m.sequence = entry.2.coveredSequence) :
    Chain s' conversationId previous entries := by
  induction entries generalizing previous with
  | nil => trivial
  | cons entry entries ih =>
    obtain ⟨hfirst, hrest⟩ := h
    obtain ⟨last, hlast, hsequence⟩ := hcovered entry List.mem_cons_self
    have hsame := messagesWithin_of_grown hgrows hordered hlast conversationId (coveredBy previous)
    rw [hsequence] at hsame
    refine ⟨⟨hfirst.version, hfirst.covered, ?_, ?_⟩,
      ih hrest fun e he => hcovered e (List.mem_cons_of_mem _ he)⟩
    · rw [hsame]
      exact hfirst.messages
    · rw [hsame]
      exact hfirst.sources

/-- The versions are numbered one after the other. -/
theorem Chain.numbered (h : Chain s conversationId previous entries) :
    entries.map (fun entry => entry.2.version) =
      List.range' ((previous.map ConversationSummary.version).getD 0 + 1) entries.length := by
  induction entries generalizing previous with
  | nil => rfl
  | cons entry entries ih =>
    obtain ⟨hfirst, hrest⟩ := h
    have ih := ih hrest
    rw [Option.map_some, Option.getD_some] at ih
    rw [List.map_cons, List.length_cons, List.range'_succ, hfirst.version, ih, hfirst.version]

/-- The last version covers at least what is covered before. -/
theorem Chain.coveredBy_le (h : Chain s conversationId previous entries) :
    coveredBy previous ≤ coveredBy (lastVersion previous entries) := by
  induction entries generalizing previous with
  | nil => exact le_of_eq rfl
  | cons entry entries ih =>
    obtain ⟨hfirst, hrest⟩ := h
    have hlater := ih hrest
    have hcovered := hfirst.covered
    change entry.2.coveredSequence ≤ _ at hlater
    rw [lastVersion_cons]
    omega

/-- The messages between two positions, from those of the conversation. -/
theorem messagesWithin_eq (s : ConversationStore) (conversationId : String) (after upper : ℕ) :
    messagesWithin s conversationId after upper =
      (s.messagesOf conversationId).filter fun m => after < m.sequence && m.sequence ≤ upper := by
  unfold messagesWithin messagesAfter messagesOf
  rw [List.filter_filter, List.filter_filter]
  congr 1
  funext m
  cases decide (m.conversationId = conversationId) <;> cases decide (after < m.sequence) <;>
    cases decide (m.sequence ≤ upper) <;> rfl

/-- The plans of a chain have all messages up to what the last version covers, one after the other. -/
theorem Chain.messages (h : Chain s conversationId previous entries)
    (hordered : s.messages.Pairwise fun m m' => m.sequence < m'.sequence) :
    entries.flatMap (fun entry => entry.1.messageIds) =
      (messagesWithin s conversationId (coveredBy previous)
        (coveredBy (lastVersion previous entries))).map ConversationMessage.id := by
  induction entries generalizing previous with
  | nil =>
    have hnone : messagesWithin s conversationId (coveredBy previous) (coveredBy previous) = [] := by
      rw [messagesWithin_eq, List.filter_eq_nil_iff]
      intro m _ hboth
      rw [Bool.and_eq_true, decide_eq_true_eq, decide_eq_true_eq] at hboth
      omega
    show [] = (messagesWithin s conversationId (coveredBy previous) (coveredBy previous)).map _
    rw [hnone]
    rfl
  | cons entry entries ih =>
    obtain ⟨hfirst, hrest⟩ := h
    have hcovered := hfirst.covered
    have hle : entry.2.coveredSequence ≤ coveredBy (lastVersion (some entry.2) entries) :=
      hrest.coveredBy_le
    have hsorted : (s.messagesOf conversationId).Pairwise fun m m' => m.sequence < m'.sequence :=
      hordered.sublist List.filter_sublist
    have hjoin := filter_between hsorted (Nat.le_of_lt hcovered) hle
    rw [List.flatMap_cons, lastVersion_cons, hfirst.messages, ih hrest, ← List.map_append]
    congr 1
    rw [messagesWithin_eq, messagesWithin_eq, messagesWithin_eq]
    exact hjoin

end Chains

/-! ## Plans -/

/-- A plan starts from a version that was stored, and has all messages after it up to one of them. -/
structure CompactPlan.Sound (s : ConversationStore) (versions : List ConversationSummary)
    (plan : CompactPlan) : Prop where
  known : ∀ previous ∈ plan.previous, previous ∈ versions ∧ previous.conversationId = plan.conversationId
  messages : ∃ last ∈ s.messages, plan.messageIds.getLast? = some last.id ∧
    plan.messageIds = (messagesWithin s plan.conversationId (coveredBy plan.previous) last.sequence).map
      ConversationMessage.id

section Plans

variable {s s' : ConversationStore} {versions more : List ConversationSummary} {plan : CompactPlan}

/-- A plan stays sound when messages and versions are added. -/
theorem CompactPlan.Sound.mono (h : plan.Sound s versions) (hgrows : s.messages <+: s'.messages)
    (hordered : s'.messages.Pairwise fun m m' => m.sequence < m'.sequence)
    (hversions : ∀ v ∈ versions, v ∈ more) : plan.Sound s' more where
  known previous hprevious :=
    ⟨hversions _ (h.known previous hprevious).1, (h.known previous hprevious).2⟩
  messages := by
    obtain ⟨last, hlast, hid, hids⟩ := h.messages
    refine ⟨last, hgrows.subset hlast, hid, ?_⟩
    rw [messagesWithin_of_grown hgrows hordered hlast]
    exact hids

variable {c : ConversationCompactor} {m : MemoryStore} {identity : MemoryIdentity}

/-- What fits into a request are the first messages. -/
theorem fitMessages_spec {conversationId : String} {previous : Option ConversationSummary}
    {chosen ids : List String} {messages : List ConversationMessage}
    (h : fitMessages c s identity conversationId previous chosen messages = .ok ids) :
    ∃ fitting, fitting <+: messages ∧ ids = chosen ++ fitting.map ConversationMessage.id := by
  induction messages generalizing chosen with
  | nil =>
    cases h
    exact ⟨[], List.prefix_refl _, (List.append_nil _).symm⟩
  | cons message messages ih =>
    unfold fitMessages at h
    obtain ⟨request, -, h⟩ := bind_eq_ok.mp h
    split_ifs at h with hlimit
    · cases h
      exact ⟨[], List.nil_prefix, (List.append_nil _).symm⟩
    · obtain ⟨fitting, hfitting, hids⟩ := ih h
      refine ⟨message :: fitting, List.cons_prefix_cons.mpr ⟨rfl, hfitting⟩, ?_⟩
      rw [hids, List.append_assoc]
      rfl

/-- The summary that is read is the stored one. -/
theorem summary_eq_ok {conversationId : String} {previous : Option ConversationSummary}
    (h : m.summary s identity conversationId = .ok previous) : previous = m.summaryOf conversationId := by
  unfold MemoryStore.summary at h
  obtain ⟨-, -, h⟩ := bind_eq_ok.mp h
  exact (Except.ok.inj h).symm

/-- A plan to compact is sound when it is made. -/
theorem choosePlan_sound {now : Timestamp} {conversations : List RuntimeConversation}
    (hordered : s.messages.Pairwise fun m m' => m.sequence < m'.sequence)
    (hsummaries : ∀ id, ∀ summary ∈ m.summaryOf id, summary ∈ m.versions)
    (h : choosePlan c s m identity now conversations = .ok (.compact plan)) : plan.Sound s m.versions := by
  -- Along the conversations: the first with enough messages is chosen.
  induction conversations with
  | nil => cases h
  | cons conversation rest ih =>
    unfold choosePlan at h
    obtain ⟨previous, hprevious, h⟩ := bind_eq_ok.mp h
    have hprevious := summary_eq_ok hprevious
    split_ifs at h with hresting
    · -- Not enough has come since the last summary: the next one is tried.
      exact ih h
    · dsimp only at h
      split_ifs at h with hfew
      · exact ih h
      · obtain ⟨ids, hids, h⟩ := bind_eq_ok.mp h
        split_ifs at h with hempty
        · exact ih h
        · cases h
          -- What is chosen is a prefix of the messages after the last summary.
          obtain ⟨fitting, hfitting, hchosen⟩ := fitMessages_spec hids
          rw [List.nil_append] at hchosen
          have hwhole : fitting <+: s.messagesAfter conversation.id (coveredBy previous) :=
            hfitting.trans (List.take_prefix _ _)
          constructor
          · intro old hold
            change previous = some old at hold
            rw [hprevious] at hold
            refine ⟨hsummaries conversation.id old hold, ?_⟩
            have hfound := List.find?_some hold
            exact of_decide_eq_true hfound
          · -- The plan covers up to the last chosen message, and only messages before it.
            cases hlast : fitting.getLast? with
            | none =>
              rw [List.getLast?_eq_none_iff] at hlast
              rw [hchosen, hlast] at hempty
              exact absurd rfl hempty
            | some last =>
              have hmem := List.mem_of_getLast? hlast
              have hin := hwhole.subset hmem
              refine ⟨last, List.mem_of_mem_filter hin, ?_, ?_⟩
              · show ids.getLast? = _
                rw [hchosen, List.getLast?_map, hlast]
                rfl
              · show ids = _
                rw [hchosen]
                obtain ⟨later, hlater⟩ := hwhole
                have hsorted := hordered.sublist (List.filter_sublist (p := fun msg =>
                  msg.conversationId = conversation.id && coveredBy previous < msg.sequence))
                change (s.messagesAfter conversation.id (coveredBy previous)).Pairwise _ at hsorted
                rw [← hlater] at hsorted
                have hupTo := filter_le_eq_prefix hsorted hlast
                rw [hlater] at hupTo
                exact congrArg (List.map ConversationMessage.id) hupTo.symm

end Plans

end OsAgent.Conversations
