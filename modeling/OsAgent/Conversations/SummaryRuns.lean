import OsAgent.Conversations.SummaryChain

/-!
# The runs of the compactors

What one event of a run does to the summaries, and from it that every run keeps their chain.
-/

namespace OsAgent.Conversations

open OsAgent.Library ConversationStore

/-! ## What the methods do -/

section Methods

variable {c : ConversationCompactor} {s : ConversationStore} {m m' : MemoryStore}
  {identity : MemoryIdentity} {roundId : String} {plan : CompactPlan} {summary : ConversationSummary}

/-- What is known of the summary that an answer is made into. -/
structure Answers (s : ConversationStore) (plan : CompactPlan) (summary : ConversationSummary) : Prop where
  conversation : summary.conversationId = plan.conversationId
  version : summary.version = (plan.previous.map ConversationSummary.version).getD 0 + 1
  covered : ∃ last, s.message? ((plan.messageIds.getLast?).getD "") = some last ∧
    summary.coveredSequence = last.sequence
  sources : ∀ ref ∈ summary.sources,
    ref.conversationId = plan.conversationId ∧ ref.messageId ∈ allowedSources plan

/-- The source of a reference is the message of its identifier. -/
theorem source_eq_ok {ref : MemorySource} {message : ConversationMessage}
    (h : source s identity ref = .ok message) : s.message? ref.messageId = some message := by
  unfold source at h
  obtain ⟨-, -, h⟩ := bind_eq_ok.mp h
  cases hfound : s.message? ref.messageId with
  | none =>
    rw [hfound] at h
    cases h
  | some found =>
    rw [hfound] at h
    obtain ⟨-, -, h⟩ := bind_eq_ok.mp h
    cases h
    rfl

/-- A source that passes its check is one that the plan allows. -/
theorem checkSource_eq_ok {upper : ℕ} {ref : MemorySource}
    (h : checkSource s identity plan upper ref = .ok ()) :
    ref.conversationId = plan.conversationId ∧ ref.messageId ∈ allowedSources plan := by
  unfold checkSource at h
  split_ifs at h with hallowed
  rw [not_or, not_not, not_not] at hallowed
  exact hallowed

/-- What is made of an answer is known. -/
theorem buildSummary_eq_ok {completion : SummaryCompletion} {now : Timestamp}
    (h : buildSummary s identity plan completion now = .ok summary) : Answers s plan summary := by
  unfold buildSummary at h
  obtain ⟨digest, -, h⟩ := bind_eq_ok.mp h
  obtain ⟨last, hlast, h⟩ := bind_eq_ok.mp h
  obtain ⟨_, hsources, h⟩ := bind_eq_ok.mp h
  obtain ⟨_, -, h⟩ := bind_eq_ok.mp h
  dsimp only at h
  obtain ⟨_, -, h⟩ := bind_eq_ok.mp h
  cases h
  have hchecked := forM_eq_ok.mp hsources
  exact ⟨rfl, rfl, ⟨last, source_eq_ok hlast, rfl⟩, fun ref href => checkSource_eq_ok (hchecked ref href)⟩

/-- A summary is stored only if its conversation still covers what was expected. -/
theorem commitSummary_eq_ok {expected : ℕ} {stored : Bool}
    (h : m.commitSummary s identity expected summary = .ok (stored, m')) :
    stored = false ∧ m' = m ∨
      stored = true ∧ m' = m.putSummary summary ∧
        coveredBy (m.summaryOf summary.conversationId) = expected ∧
        expected < summary.coveredSequence ∧
        summary.version =
          ((m.summaryOf summary.conversationId).map ConversationSummary.version).getD 0 + 1 := by
  unfold MemoryStore.commitSummary at h
  obtain ⟨-, -, h⟩ := bind_eq_ok.mp h
  obtain ⟨-, -, h⟩ := bind_eq_ok.mp h
  obtain ⟨old, hold, h⟩ := bind_eq_ok.mp h
  have hold := summary_eq_ok hold
  split_ifs at h with hcovered hgrown hknown
  · cases h
    exact Or.inl ⟨rfl, rfl⟩
  · cases h
    rw [not_not] at hcovered
    rw [not_or, not_not] at hgrown
    obtain ⟨hgrown, hversion⟩ := hgrown
    rw [← hold]
    exact Or.inr ⟨rfl, rfl, hcovered, by omega, hversion⟩

/-- A summary is stored for its conversation alone. -/
theorem summaryOf_putSummary (m : MemoryStore) (summary : ConversationSummary) (id : String) :
    (m.putSummary summary).summaryOf id =
      if summary.conversationId = id then some summary else m.summaryOf id := by
  unfold MemoryStore.summaryOf MemoryStore.putSummary
  dsimp only
  rw [List.find?_append]
  by_cases hid : summary.conversationId = id
  · have hnone : ((m.summaries.filter fun old => old.conversationId ≠ summary.conversationId).find?
        fun old => old.conversationId = id) = none := by
      rw [List.find?_eq_none]
      intro old hold hsame
      have hother := (List.mem_filter.mp hold).2
      rw [decide_eq_true_eq] at hother
      exact hother ((of_decide_eq_true hsame).trans hid.symm)
    rw [hnone, if_pos hid]
    simp [hid]
  · have hrest : ((m.summaries.filter fun old => old.conversationId ≠ summary.conversationId).find?
        fun old => old.conversationId = id) = m.summaries.find? fun old => old.conversationId = id := by
      rw [List.find?_filter]
      congr 1
      funext old
      by_cases hold : old.conversationId = id
      · simp [hold, Ne.symm hid]
      · simp [hold]
    rw [hrest, if_neg hid]
    simp [hid]

/-- What is recorded of rounds changes neither the summaries nor the plans. -/
structure SameSummaries (m m' : MemoryStore) : Prop where
  summaries : m'.summaries = m.summaries
  versions : m'.versions = m.versions
  bodies : ∀ round ∈ m'.rounds, round.body ∈ m.rounds.map MemoryRound.body

/-- A memory has the same summaries as itself. -/
theorem SameSummaries.refl (m : MemoryStore) : SameSummaries m m :=
  ⟨rfl, rfl, fun _ hround => List.mem_map_of_mem hround⟩

/-- To note how a round ended changes no summary. -/
theorem SameSummaries.setOutcome (m : MemoryStore) (roundId outcome : String) :
    SameSummaries m (m.setOutcome roundId outcome) where
  summaries := rfl
  versions := rfl
  bodies := by
    intro round hround
    obtain ⟨known, hknown, rfl⟩ := List.mem_map.mp hround
    have hbody : (if known.id = roundId then { known with outcome := some outcome } else known).body =
        known.body := by
      split_ifs <;> rfl
    rw [hbody]
    exact List.mem_map_of_mem hknown

/-- To note a failure changes no summary. -/
theorem SameSummaries.recordFailure (c : ConversationCompactor) (m : MemoryStore) (roundId : String)
    (plan : CompactPlan) (now : Timestamp) : SameSummaries m (recordFailure c m roundId plan now) := by
  unfold OsAgent.Conversations.recordFailure
  have hset := SameSummaries.setOutcome (m.countFailure plan.conversationId (coveredBy plan.previous)
    (now + c.policy.failureCooldownMs)) roundId "invalid_summary"
  unfold MemoryStore.countFailure at hset ⊢
  split_ifs at hset ⊢
  · exact ⟨hset.summaries, hset.versions, hset.bodies⟩
  · exact ⟨hset.summaries, hset.versions, hset.bodies⟩

/-- What happens to an answer: it has no summary, or its summary comes too late, or it is stored. -/
theorem storeAnswer_eq_ok {completion : SummaryCompletion} {now : Timestamp}
    {result : Option (ConversationSummary × Bool)}
    (h : storeAnswer c s m identity roundId plan completion now = .ok (result, m')) :
    (∀ summary, result ≠ some (summary, true)) ∧ SameSummaries m m' ∨
      ∃ summary, result = some (summary, true) ∧ m' = m.putSummary summary ∧ Answers s plan summary ∧
        coveredBy (m.summaryOf summary.conversationId) = coveredBy plan.previous ∧
        coveredBy plan.previous < summary.coveredSequence ∧
        summary.version =
          ((m.summaryOf summary.conversationId).map ConversationSummary.version).getD 0 + 1 := by
  unfold storeAnswer at h
  cases hbuild : buildSummary s identity plan completion now with
  | error e =>
    rw [hbuild] at h
    dsimp only at h
    split_ifs at h
    cases h
    refine Or.inl ⟨?_, SameSummaries.recordFailure c m roundId plan now⟩
    intro summary hsome
    cases hsome
  | ok summary =>
    rw [hbuild] at h
    obtain ⟨⟨stored, m''⟩, hcommit, h⟩ := bind_eq_ok.mp h
    cases h
    rcases commitSummary_eq_ok hcommit with ⟨rfl, rfl⟩ | ⟨rfl, rfl, hrest⟩
    · refine Or.inl ⟨?_, SameSummaries.refl _⟩
      intro other hsome
      cases hsome
    · exact Or.inr ⟨summary, rfl, rfl, buildSummary_eq_ok hbuild, hrest⟩

/-- What a round that starts does: the plans that are new are those that were made. -/
structure Starts (c : ConversationCompactor) (s : ConversationStore) (m : MemoryStore)
    (found : Option CompactPlan) (m' : MemoryStore) : Prop where
  summaries : m'.summaries = m.summaries
  versions : m'.versions = m.versions
  plans : ∀ plan, (∃ round ∈ m'.rounds, round.body = .compact plan) →
    (∃ round ∈ m.rounds, round.body = .compact plan) ∨ ∃ identity now conversations,
      choosePlan c s m identity now conversations = .ok (.compact plan)
  found : ∀ plan ∈ found, ∃ round ∈ m'.rounds, round.body = .compact plan

/-- To plan a round changes no summary, and notes the round. -/
theorem planRound_eq_ok {batchId : Option String} {now : Timestamp} {chosen : MemoryPlan}
    (h : planRound c s m identity roundId batchId now = .ok (chosen, m')) :
    m'.summaries = m.summaries ∧ m'.versions = m.versions ∧
      m'.rounds = m.rounds ++ [⟨roundId, chosen, none⟩] ∧
      ∀ plan, chosen = .compact plan → ∃ conversations,
        choosePlan c s m identity now conversations = .ok (.compact plan) := by
  unfold planRound at h
  dsimp only at h
  split_ifs at h with hfree
  · obtain ⟨made, hmade, h⟩ := bind_eq_ok.mp h
    cases made with
    | work =>
      cases h
      exact ⟨rfl, rfl, rfl, fun plan hplan => by cases hplan⟩
    | compact plan =>
      cases h
      refine ⟨rfl, rfl, rfl, ?_⟩
      intro p hp
      cases hp
      exact ⟨_, hmade⟩
  · cases h
    exact ⟨rfl, rfl, rfl, fun plan hplan => by cases hplan⟩

/-- A round that starts has a plan that was made now or is noted. -/
theorem startRound_eq_ok {batchId : Option String} {hasCachedRequest returns : Bool} {now : Timestamp}
    {found : Option CompactPlan}
    (h : startRound c s m identity roundId batchId hasCachedRequest now = .ok (returns, found, m')) :
    Starts c s m found m' := by
  -- A round that stores no plan leaves the chain as it is.
  have hsame : ∀ found : Option CompactPlan,
      (∀ plan ∈ found, ∃ round ∈ m.rounds, round.body = .compact plan) → Starts c s m found m :=
    fun found hfound => ⟨rfl, rfl, fun plan hplan => Or.inl hplan, hfound⟩
  unfold startRound at h
  -- The round is noted already, or it is planned now.
  cases hsaved : m.round? roundId with
  | some saved =>
    rw [hsaved] at h
    have hmem : saved ∈ m.rounds := List.mem_of_find?_eq_some hsaved
    obtain ⟨-, -, h⟩ := bind_eq_ok.mp h
    cases hbody : saved.body with
    | work =>
      rw [hbody] at h
      cases h
      exact hsame none (by simp)
    | compact plan =>
      rw [hbody] at h
      dsimp only at h
      -- A noted plan is taken up again.
      split_ifs at h
      · cases h
        exact hsame none (by simp)
      · cases h
        refine hsame (some plan) ?_
        intro p hp
        cases hp
        exact ⟨saved, hmem, hbody⟩
  | none =>
    rw [hsaved] at h
    obtain ⟨⟨chosen, planned⟩, hplan, h⟩ := bind_eq_ok.mp h
    obtain ⟨hsummaries, hversions, hrounds, hchosen⟩ := planRound_eq_ok hplan
    -- A plan of the rounds is a noted one, or the one just chosen.
    have hplans : ∀ plan, (∃ round ∈ planned.rounds, round.body = .compact plan) →
        (∃ round ∈ m.rounds, round.body = .compact plan) ∨ ∃ identity now conversations,
          choosePlan c s m identity now conversations = .ok (.compact plan) := by
      rintro plan ⟨round, hround, hbody⟩
      rw [hrounds, List.mem_append, List.mem_singleton] at hround
      rcases hround with hround | rfl
      · exact Or.inl ⟨round, hround, hbody⟩
      · exact Or.inr ⟨identity, now, hchosen plan hbody⟩
    cases chosen with
    | work =>
      cases h
      exact ⟨hsummaries, hversions, hplans, by simp⟩
    | compact plan =>
      cases h
      refine ⟨hsummaries, hversions, hplans, ?_⟩
      intro p hp
      cases hp
      exact ⟨⟨roundId, .compact plan, none⟩, by rw [hrounds]; simp, rfl⟩

end Methods

/-! ## The invariant -/

/-- The versions of a conversation that were stored. -/
def CompactionRun.storedOf (run : CompactionRun) (conversationId : String) :
    List (CompactPlan × ConversationSummary) :=
  run.stored.filter fun entry => entry.2.conversationId = conversationId

/-- What holds of every run. -/
structure CompactionRun.Sound (policy : ConversationPolicy) (sha256 : String → String)
    (run : CompactionRun) : Prop where
  reachable : (storeSystem policy sha256).Reachable run.conversations
  versions : run.memory.versions = run.stored.map Prod.snd
  latest : ∀ id, run.memory.summaryOf id = lastVersion none (run.storedOf id)
  chain : ∀ id, Chain run.conversations id none (run.storedOf id)
  covered : ∀ entry ∈ run.stored,
    ∃ m ∈ run.conversations.messages, m.sequence = entry.2.coveredSequence
  saved : ∀ plan, (∃ round ∈ run.memory.rounds, round.body = .compact plan) →
    plan.Sound run.conversations run.memory.versions
  asked : ∀ round ∈ run.waiting, round.plan.Sound run.conversations run.memory.versions

section Invariant

variable {policy : ConversationPolicy} {sha256 : String → String} {c : ConversationCompactor}
  {run : CompactionRun}

/-- The ids of messages are different. -/
theorem nodup_messageIds_of_reachable {s : ConversationStore}
    (h : (storeSystem policy sha256).Reachable s) : (s.messages.map ConversationMessage.id).Nodup := by
  apply h.invariant (P := fun s => (s.messages.map ConversationMessage.id).Nodup)
  · rintro s rfl
    exact List.nodup_nil
  · rintro s s' _ hnodup ⟨call, rfl⟩
    rcases after_cases call s with houtcome | ⟨_, _, _, _, _, _, message, -, hsent⟩
    · rw [houtcome.same_messages.1]
      exact hnodup
    · obtain ⟨_, _, _, _, _, _, _, hstore⟩ := hsent.stored
      rw [hstore]
      dsimp only
      rw [List.map_append, List.map_singleton]
      exact List.nodup_append_comm.mp (List.nodup_cons.mpr ⟨hsent.fresh, hnodup⟩)

/-- The summary of a conversation is a version that was stored. -/
theorem CompactionRun.Sound.summaryOf_mem (h : run.Sound policy sha256) {id : String}
    {summary : ConversationSummary} (hsummary : run.memory.summaryOf id = some summary) :
    ∃ entry ∈ run.storedOf id, entry.2 = summary := by
  rw [h.latest id, lastVersion, Option.or_none] at hsummary
  obtain ⟨entry, hentry, rfl⟩ := Option.map_eq_some_iff.mp hsummary
  exact ⟨entry, List.mem_of_getLast? hentry, rfl⟩

/-- If a plan starts from what its conversation covers, it starts from its summary. -/
theorem CompactionRun.Sound.previous_eq (h : run.Sound policy sha256) {plan : CompactPlan}
    (hplan : plan.Sound run.conversations run.memory.versions)
    (hcovered : coveredBy (run.memory.summaryOf plan.conversationId) = coveredBy plan.previous) :
    plan.previous = run.memory.summaryOf plan.conversationId := by
  obtain ⟨hpositive, hordered⟩ := (h.chain plan.conversationId).covered
  cases hprevious : plan.previous with
  | none =>
    cases hsummary : run.memory.summaryOf plan.conversationId with
    | none => rfl
    | some summary =>
      -- a version that was stored covers something
      obtain ⟨entry, hentry, rfl⟩ := h.summaryOf_mem hsummary
      have hpos := hpositive entry hentry
      rw [hsummary, hprevious] at hcovered
      change entry.2.coveredSequence = 0 at hcovered
      change 0 < entry.2.coveredSequence at hpos
      omega
  | some previous =>
    obtain ⟨hknown, hconversation⟩ := hplan.known previous hprevious
    rw [h.versions] at hknown
    obtain ⟨entry, hentry, rfl⟩ := List.mem_map.mp hknown
    have hentry : entry ∈ run.storedOf plan.conversationId :=
      List.mem_filter.mpr ⟨hentry, decide_eq_true hconversation⟩
    have hpos := hpositive entry hentry
    change 0 < entry.2.coveredSequence at hpos
    rw [hprevious] at hcovered
    change _ = entry.2.coveredSequence at hcovered
    cases hsummary : run.memory.summaryOf plan.conversationId with
    | none =>
      rw [hsummary] at hcovered
      change 0 = entry.2.coveredSequence at hcovered
      omega
    | some summary =>
      obtain ⟨entry', hentry', rfl⟩ := h.summaryOf_mem hsummary
      rw [hsummary] at hcovered
      change entry'.2.coveredSequence = entry.2.coveredSequence at hcovered
      have hnodup : ((run.storedOf plan.conversationId).map fun e => e.2.coveredSequence).Nodup := by
        rw [List.Nodup, List.pairwise_map]
        exact hordered.imp fun hlt => ne_of_lt hlt
      rw [List.inj_on_of_nodup_map hnodup hentry' hentry hcovered]

/-- A summary that is stored extends the one that was there. -/
theorem CompactionRun.Sound.extends (h : run.Sound policy sha256) {plan : CompactPlan}
    {summary : ConversationSummary} (hplan : plan.Sound run.conversations run.memory.versions)
    (hanswer : Answers run.conversations plan summary)
    (hcovered : coveredBy (run.memory.summaryOf summary.conversationId) = coveredBy plan.previous)
    (hgrown : coveredBy plan.previous < summary.coveredSequence)
    (hversion : summary.version =
      ((run.memory.summaryOf summary.conversationId).map ConversationSummary.version).getD 0 + 1) :
    Extends run.conversations summary.conversationId (run.memory.summaryOf summary.conversationId) plan
        summary ∧
      ∃ m ∈ run.conversations.messages, m.sequence = summary.coveredSequence := by
  obtain ⟨last, hlast, hid, hids⟩ := hplan.messages
  obtain ⟨found, hfound, hsequence⟩ := hanswer.covered
  -- the last message of the plan is the one that was looked for
  rw [hid, Option.getD_some, message?_of_mem (nodup_messageIds_of_reachable h.reachable) hlast] at hfound
  obtain rfl := Option.some.inj hfound
  rw [hanswer.conversation] at hcovered hversion ⊢
  have hprevious := h.previous_eq hplan hcovered
  rw [← hsequence, hprevious] at hids
  refine ⟨⟨hversion, ?_, hids, ?_⟩, last, hlast, hsequence.symm⟩
  · rw [hcovered]
    exact hgrown
  · intro ref href
    obtain ⟨hconversation, hallowed⟩ := hanswer.sources ref href
    rcases List.mem_append.mp hallowed with hallowed | hallowed
    · rw [hids] at hallowed
      obtain ⟨m, hm, hmid⟩ := List.mem_map.mp hallowed
      refine Or.inl ⟨m, hm, ?_⟩
      rw [← hconversation, hmid]
    · obtain ⟨known, hknown, hmessage⟩ := List.mem_map.mp hallowed
      cases hold : plan.previous with
      | none =>
        rw [hold] at hknown
        cases hknown
      | some old =>
        rw [hold] at hknown
        -- what the version before cites is in the same conversation
        obtain ⟨entry, hentry, rfl⟩ := h.summaryOf_mem (hprevious.symm.trans hold)
        have hsame := (h.chain plan.conversationId).sources (by simp) entry hentry known hknown
        have href : ref = known := by
          cases ref
          cases known
          simp only [MemorySource.mk.injEq]
          exact ⟨hconversation.trans hsame.symm, hmessage.symm⟩
        refine Or.inr ⟨entry.2, ?_, ?_⟩
        · rw [← hprevious]
          exact hold
        · rw [href]
          exact hknown

/-- Later messages and rounds that end change nothing. -/
theorem CompactionRun.Sound.called (h : run.Sound policy sha256) (call : StoreCall) :
    { run with conversations := call.after policy sha256 run.conversations }.Sound policy sha256 := by
  have hreachable : (storeSystem policy sha256).Reachable (call.after policy sha256 run.conversations) :=
    h.reachable.step ⟨call, rfl⟩
  have hgrows : run.conversations.messages <+: (call.after policy sha256 run.conversations).messages :=
    prefix_messages_after call run.conversations
  have hordered := (valid_of_reachable hreachable).messages.ordered
  refine ⟨hreachable, h.versions, h.latest, ?_, ?_, ?_, ?_⟩
  · intro id
    refine (h.chain id).of_grown hgrows hordered ?_
    intro entry hentry
    exact h.covered entry (List.mem_of_mem_filter hentry)
  · intro entry hentry
    obtain ⟨m, hm, hsequence⟩ := h.covered entry hentry
    exact ⟨m, hgrows.subset hm, hsequence⟩
  · intro plan hplan
    exact (h.saved plan hplan).mono hgrows hordered fun _ hv => hv
  · intro round hround
    exact (h.asked round hround).mono hgrows hordered fun _ hv => hv

/-- What is known of the conversations is the same where the same summaries are. -/
theorem summaryOf_congr {memory memory' : MemoryStore} (h : memory'.summaries = memory.summaries)
    (id : String) : memory'.summaryOf id = memory.summaryOf id := by
  unfold MemoryStore.summaryOf
  rw [h]

/-- What changes no summary keeps a run sound. -/
theorem CompactionRun.Sound.recorded (h : run.Sound policy sha256) {memory : MemoryStore}
    {waiting : List PendingRound} (hmemory : SameSummaries run.memory memory)
    (hwaiting : ∀ round ∈ waiting, round ∈ run.waiting) :
    { run with memory, waiting }.Sound policy sha256 := by
  refine ⟨h.reachable, ?_, ?_, h.chain, h.covered, ?_, ?_⟩
  · exact hmemory.versions.trans h.versions
  · intro id
    exact (summaryOf_congr hmemory.summaries id).trans (h.latest id)
  · rintro plan ⟨round, hround, hbody⟩
    show plan.Sound run.conversations memory.versions
    rw [hmemory.versions]
    obtain ⟨known, hknown, hsame⟩ := List.mem_map.mp (hmemory.bodies round hround)
    exact h.saved plan ⟨known, hknown, hsame.trans hbody⟩
  · intro round hround
    show round.plan.Sound run.conversations memory.versions
    rw [hmemory.versions]
    exact h.asked round (hwaiting round hround)

/-- A round starts: its plan is one that was saved, or it is made from what is there. -/
theorem CompactionRun.Sound.started (h : run.Sound policy sha256) {found : Option CompactPlan}
    {memory : MemoryStore} (hstarts : Starts c run.conversations run.memory found memory)
    {waiting : List PendingRound}
    (hwaiting : ∀ round ∈ waiting, round ∈ run.waiting ∨ round.plan ∈ found) :
    { run with memory, waiting }.Sound policy sha256 := by
  have hordered := (valid_of_reachable h.reachable).messages.ordered
  have hknown : ∀ id, ∀ summary ∈ run.memory.summaryOf id, summary ∈ run.memory.versions := by
    intro id summary hsummary
    obtain ⟨entry, hentry, rfl⟩ := h.summaryOf_mem hsummary
    rw [h.versions]
    exact List.mem_map_of_mem (List.mem_of_mem_filter hentry)
  have hplans : ∀ plan, (∃ round ∈ memory.rounds, round.body = .compact plan) →
      plan.Sound run.conversations memory.versions := by
    intro plan hplan
    rw [hstarts.versions]
    rcases hstarts.plans plan hplan with hsaved | ⟨identity, now, conversations, hmade⟩
    · exact h.saved plan hsaved
    · exact choosePlan_sound hordered hknown hmade
  refine ⟨h.reachable, ?_, ?_, h.chain, h.covered, hplans, ?_⟩
  · exact hstarts.versions.trans h.versions
  · intro id
    exact (summaryOf_congr hstarts.summaries id).trans (h.latest id)
  · intro round hround
    show round.plan.Sound run.conversations memory.versions
    rcases hwaiting round hround with hround | hround
    · rw [hstarts.versions]
      exact h.asked round hround
    · exact hplans round.plan (hstarts.found round.plan hround)

/-- A summary is stored. -/
theorem CompactionRun.Sound.stores (h : run.Sound policy sha256) {plan : CompactPlan}
    {summary : ConversationSummary} (hplan : plan.Sound run.conversations run.memory.versions)
    (hanswer : Answers run.conversations plan summary)
    (hcovered : coveredBy (run.memory.summaryOf summary.conversationId) = coveredBy plan.previous)
    (hgrown : coveredBy plan.previous < summary.coveredSequence)
    (hversion : summary.version =
      ((run.memory.summaryOf summary.conversationId).map ConversationSummary.version).getD 0 + 1) :
    { run with
      memory := run.memory.putSummary summary
      stored := run.stored ++ [(plan, summary)] }.Sound policy sha256 := by
  obtain ⟨hextends, hmessage⟩ := h.extends hplan hanswer hcovered hgrown hversion
  have hordered := (valid_of_reachable h.reachable).messages.ordered
  have hmore : ∀ v ∈ run.memory.versions, v ∈ (run.memory.putSummary summary).versions :=
    fun v hv => List.mem_append_left _ hv
  have hmono : ∀ {p : CompactPlan}, p.Sound run.conversations run.memory.versions →
      p.Sound run.conversations (run.memory.putSummary summary).versions :=
    fun hp => hp.mono (List.prefix_refl _) hordered hmore
  -- the versions of the other conversations are as before
  have hsplit : ∀ id, (run.stored ++ [(plan, summary)]).filter (fun e => e.2.conversationId = id) =
      if summary.conversationId = id then run.storedOf id ++ [(plan, summary)] else run.storedOf id := by
    intro id
    rw [List.filter_append]
    split_ifs with hid
    · simp [CompactionRun.storedOf, hid]
    · simp [CompactionRun.storedOf, hid]
  refine ⟨h.reachable, ?_, ?_, ?_, ?_, ?_, ?_⟩
  · show run.memory.versions ++ [summary] = (run.stored ++ [(plan, summary)]).map Prod.snd
    rw [h.versions, List.map_append, List.map_singleton]
  · intro id
    show (run.memory.putSummary summary).summaryOf id = lastVersion none (List.filter _ _)
    rw [hsplit, summaryOf_putSummary]
    split_ifs with hid
    · simp [lastVersion]
    · exact h.latest id
  · intro id
    show Chain run.conversations id none (List.filter _ _)
    rw [hsplit]
    split_ifs with hid
    · subst hid
      rw [h.latest] at hextends
      exact (h.chain _).append hextends
    · exact h.chain id
  · intro entry hentry
    rcases List.mem_append.mp hentry with hentry | hentry
    · exact h.covered entry hentry
    · rw [List.mem_singleton.mp hentry]
      exact hmessage
  · intro p hp
    exact hmono (h.saved p hp)
  · intro round hround
    exact hmono (h.asked round hround)

/-- Every event keeps a run sound. -/
theorem CompactionRun.Sound.after (h : run.Sound policy sha256) {event : CompactionEvent}
    (hpossible : event.Possible run) : (run.after policy sha256 c event).Sound policy sha256 := by
  have hfewer : ∀ roundId, ∀ round ∈ run.waiting.eraseP (·.roundId = roundId), round ∈ run.waiting :=
    fun roundId round hround => List.mem_of_mem_eraseP hround
  cases event with
  | call call => exact h.called call
  | start roundId identity batchId hasCachedRequest now =>
    unfold CompactionRun.after
    dsimp only
    cases hstart : startRound c run.conversations run.memory identity roundId batchId hasCachedRequest now with
    | error e => exact h
    | ok r =>
      obtain ⟨returns, found, memory⟩ := r
      have hstarts := startRound_eq_ok hstart
      cases found with
      | none => exact h.started hstarts fun round hround => Or.inl hround
      | some plan =>
        refine h.started hstarts ?_
        intro round hround
        rcases List.mem_append.mp hround with hround | hround
        · exact Or.inl hround
        · rw [List.mem_singleton.mp hround]
          exact Or.inr rfl
  | answer round completion now ends =>
    show (run.answered c round completion now ends).Sound policy sha256
    unfold CompactionRun.answered
    dsimp only
    cases hstore : storeAnswer c run.conversations run.memory round.identity round.roundId round.plan
        completion now with
    | error e => exact h.recorded (SameSummaries.refl _) (hfewer round.roundId)
    | ok r =>
      obtain ⟨result, memory⟩ := r
      -- what is recorded after the answer, of a run that is sound
      have hrecord : ∀ {stored : List (CompactPlan × ConversationSummary)},
          CompactionRun.Sound policy sha256 { run with memory, stored } →
          CompactionRun.Sound policy sha256
            { run with
              waiting := if ends then [] else run.waiting.eraseP (·.roundId = round.roundId)
              memory := if ends then memory else memory.setOutcome round.roundId "completed"
              stored } := by
        intro stored hsound
        cases ends with
        | true => exact hsound.recorded (SameSummaries.refl _) (by simp)
        | false => exact hsound.recorded (SameSummaries.setOutcome _ _ _) (hfewer round.roundId)
      rcases storeAnswer_eq_ok hstore with ⟨hnot, hsame⟩ | ⟨summary, rfl, rfl, hanswer, hrest⟩
      · have hkept := h.recorded hsame fun round hround => hround
        cases result with
        | none => exact h.recorded hsame (hfewer round.roundId)
        | some result =>
          obtain ⟨summary, stored⟩ := result
          cases stored with
          | true => exact absurd rfl (hnot summary)
          | false => exact hrecord hkept
      · obtain ⟨hcovered, hgrown, hversion⟩ := hrest
        exact hrecord (h.stores (h.asked round hpossible) hanswer hcovered hgrown hversion)
  | reject round now =>
    exact h.recorded (SameSummaries.recordFailure c _ _ _ _) (hfewer round.roundId)
  | abandon round => exact h.recorded (SameSummaries.refl _) (hfewer round.roundId)
  | crash => exact h.recorded (SameSummaries.refl _) (by simp)

/-- Every run is sound. -/
theorem sound_of_compaction (h : (compactionSystem policy sha256 c).Reachable run) :
    run.Sound policy sha256 := by
  apply h.invariant
  · rintro run rfl
    refine ⟨.of_init rfl, rfl, fun _ => rfl, fun _ => trivial, ?_, ?_, ?_⟩
    · simp
    · simp
    · simp
  · rintro run run' _ hsound ⟨event, hpossible, rfl⟩
    exact hsound.after hpossible

/-- The summaries of a conversation in a run: what is stored of them, and what they cover. -/
structure CompactionRun.Summarized (run : CompactionRun) (conversationId : String) : Prop where
  /-- The versions in the database are those that were stored, in this order. -/
  versions : run.memory.versions.filter (fun v => v.conversationId = conversationId) =
    (run.storedOf conversationId).map Prod.snd
  latest : run.memory.summaryOf conversationId = lastVersion none (run.storedOf conversationId)
  chain : Chain run.conversations conversationId none (run.storedOf conversationId)
  numbered : (run.storedOf conversationId).map (fun entry => entry.2.version) =
    List.range' 1 (run.storedOf conversationId).length
  increasing : (run.storedOf conversationId).Pairwise fun a b =>
    a.2.coveredSequence < b.2.coveredSequence
  /-- The plans have all messages up to what the summary covers, each of them once and in order. -/
  messages : (run.storedOf conversationId).flatMap (fun entry => entry.1.messageIds) =
    (messagesWithin run.conversations conversationId 0
      (coveredBy (run.memory.summaryOf conversationId))).map ConversationMessage.id

/-- The versions of a summary are a chain without gaps in every run. -/
theorem chain_of_reachable (h : (compactionSystem policy sha256 c).Reachable run)
    (conversationId : String) : run.Summarized conversationId := by
  have hsound := sound_of_compaction h
  have hchain := hsound.chain conversationId
  have hlatest := hsound.latest conversationId
  have hordered := (valid_of_reachable hsound.reachable).messages.ordered
  refine ⟨?_, hlatest, hchain, hchain.numbered, hchain.covered.2, ?_⟩
  · rw [hsound.versions, List.filter_map]
    rfl
  · rw [hlatest]
    exact hchain.messages hordered

end Invariant

/-! ## A run -/

/-- A compactor that compacts from one message on. -/
def smallCompactor : ConversationCompactor where
  policy :=
    { recentMessages := 10, compactAfterMessages := 1, compactAfterTokens := 100,
      maxSummaryAttempts := 3, failureCooldownMs := 1000 }
  maxRequestTokens := 100000
  maxOutputTokens := 1000
  digestParameters := .object []

/-- The first agent of a group. -/
def firstMember : MemoryIdentity := ⟨"u", .agent 1⟩

/-- A summary of the message of the user. -/
def helloCompletion : SummaryCompletion where
  finishReason := "tool_calls"
  toolCalls :=
    [⟨"submit_conversation_summary", .object [("overview", .string "greeting"),
      ("unresolved", .array []), ("quotations", .array []),
      ("sourceRefs", .array [.object [("conversationId", .string "c"), ("messageId", .string "m1")]])]⟩]

/-- The conversations after the user has written to a group. -/
def writtenStore : ConversationStore where
  conversations := [⟨⟨"c", "u", "w", .group, "", [.user "u", .agent 1, .agent 2], .all, 0⟩, none⟩]
  messages := [⟨"m1", 1, "c", .user "u", "hello", 1, none, [], "p1"⟩]
  lastSequence := 1
  outbox := [⟨"[\"u\",\"user:u\",\"k1\"]", "[\"c\",\"hello\",null,[]]", "m1"⟩]
  mailboxes := [⟨1, "c", 0, some 1, some 1201, 0⟩, ⟨2, "c", 0, some 1, some 1201, 0⟩]
  phases := [⟨"p1", 0⟩]

/-- What leads to the conversations: a group, and a message in it. -/
def writing : List StoreCall :=
  [.create groupOfTwo { id := "c", now := 0 },
    .send "c" (.user "u") { content := "hello", idempotencyKey := "k1" } none none
      { id := "m1", phaseId := "p1", now := 1 }]

/-- The calls lead to the conversations. -/
theorem after_writing : writing.foldl (fun s call => call.after {} (fun text => text) s) {} = writtenStore := by
  decide +kernel

/-- What the first agent is to summarize. -/
def helloPlan : CompactPlan := ⟨"c", none, ["m1"]⟩

/-- The messages of a request, before its other properties. -/
def requestOf (system : String) (content : List Char) (rest : List (String × JsonValue)) : JsonValue :=
  .object (("messages", .array [
      .object [("role", .string "system"), ("content", .string system)],
      .object [("role", .string "user"), ("content", .string (String.ofList content))]]) :: rest)

/-- The size of a request is that of its texts, of its other properties, and a little more. -/
theorem jsonSize_requestOf_le (system : String) (content : List Char) (rest : List (String × JsonValue)) :
    jsonSize (requestOf system content rest) ≤
      textSize system + byteLength (content.flatMap quoteChar) + (rest.map propertySize).sum + 100 := by
  have hnames : textSize "messages" = 10 ∧ textSize "role" = 6 ∧ textSize "content" = 9 ∧
      textSize "system" = 8 ∧ textSize "user" = 6 := by
    decide +kernel
  obtain ⟨hmessages, hrole, hcontent, hsystem, huser⟩ := hnames
  have htext : textSize (String.ofList content) = byteLength (content.flatMap quoteChar) + 2 := by
    rw [textSize_eq, String.toList_ofList]
  unfold requestOf
  simp (disch := simp) only [jsonSize_object, jsonSize_array, jsonSize_string, propertySize, List.map_cons,
    List.map_nil, List.sum_cons, List.sum_nil, hmessages, hrole, hcontent, hsystem, huser, htext]
  omega

/-- The system message is short. -/
theorem textSize_compactionInstructions_le : textSize compactionInstructions ≤ 30000 := by
  have hbytes : compactionInstructions.utf8ByteSize ≤ 2000 := by
    unfold compactionInstructions
    simp only [String.utf8ByteSize_append]
    decide +kernel
  have hsize := textSize_le_utf8ByteSize compactionInstructions
  generalize compactionInstructions = instructions at *
  omega

/-- The request for the message is within the limits. -/
theorem compactionRequest_hello : ∃ request,
    compactionRequest smallCompactor writtenStore firstMember helloPlan = .ok request ∧
      estimateTokens request ≤ 50000 := by
  have hmessages : (helloPlan.messageIds.mapM fun messageId =>
      source writtenStore firstMember ⟨helloPlan.conversationId, messageId⟩) = .ok writtenStore.messages := by
    decide +kernel
  let content := stringify (.object [("purpose", .string "conversation_compaction"),
    ("conversationId", .string "c"), ("previous", .null),
    ("messages", .array (writtenStore.messages.map ConversationMessage.toJson)), ("throughSequence", .ofNat 1)])
  let rest : List (String × JsonValue) :=
    [("tools", .array [.object [("name", .string "submit_conversation_summary"),
      ("description", .string "提交有来源的会话增量摘要。"), ("parameters", .object [])]]),
    ("toolChoice", .object [("name", .string "submit_conversation_summary")]), ("maxOutputTokens", .ofNat 1000)]
  refine ⟨requestOf compactionInstructions content rest, ?_, ?_⟩
  · unfold compactionRequest
    rw [hmessages]
    rfl
  · have hsize := jsonSize_requestOf_le compactionInstructions content rest
    have hinstructions := textSize_compactionInstructions_le
    have hcontent : byteLength (content.flatMap quoteChar) ≤ 1000 := by decide +kernel
    have hrest : (rest.map propertySize).sum ≤ 1000 := by decide +kernel
    exact hsize.trans (by generalize compactionInstructions = instructions at *; omega)

/-- One message is taken where its request is within the limits. -/
theorem fitMessages_single {c : ConversationCompactor} {s : ConversationStore} {identity : MemoryIdentity}
    {conversationId : String} {previous : Option ConversationSummary} {message : ConversationMessage}
    {request : JsonValue}
    (hrequest : compactionRequest c s identity ⟨conversationId, previous, [message.id]⟩ = .ok request)
    (hroom : estimateTokens request + c.maxOutputTokens ≤ c.maxRequestTokens) :
    fitMessages c s identity conversationId previous [] [message] = .ok [message.id] := by
  unfold fitMessages
  rw [List.nil_append, hrequest]
  show (if _ then _ else _) = _
  rw [if_neg (by omega)]
  rfl

/-- A conversation that does not rest and has enough messages is compacted. -/
theorem choosePlan_first {c : ConversationCompactor} {s : ConversationStore} {m : MemoryStore}
    {identity : MemoryIdentity} {now : Timestamp} {conversation : RuntimeConversation}
    {rest : List RuntimeConversation} {previous : Option ConversationSummary} {messageIds : List String}
    (hprevious : m.summary s identity conversation.id = .ok previous)
    (hwaits : resting c m now conversation.id (coveredBy previous) = false)
    (hmany : c.policy.compactAfterMessages ≤
      (s.range conversation.id (coveredBy previous) c.policy.recentMessages).length)
    (hfit : fitMessages c s identity conversation.id previous []
      (s.range conversation.id (coveredBy previous) c.policy.recentMessages) = .ok messageIds)
    (hsome : messageIds ≠ []) :
    choosePlan c s m identity now (conversation :: rest) =
      .ok (.compact ⟨conversation.id, previous, messageIds⟩) := by
  unfold choosePlan
  rw [hprevious]
  show (if _ then _ else _) = _
  rw [if_neg (by rw [hwaits]; decide), if_neg (by omega), hfit]
  show (if _ then _ else _) = _
  rw [if_neg hsome]
  rfl

/-- What is planned, and what the memory knows then. -/
def helloMemory : MemoryStore where
  rounds := [⟨"r1", .compact helloPlan, none⟩]
  compactBatches := ["b1"]

/-- The round plans to compact the group. -/
theorem startRound_hello :
    startRound smallCompactor writtenStore {} firstMember "r1" (some "b1") false 10 =
      .ok (true, some helloPlan, helloMemory) := by
  obtain ⟨request, hrequest, hsize⟩ := compactionRequest_hello
  have hfit : fitMessages smallCompactor writtenStore firstMember "c" none [] writtenStore.messages =
      .ok ["m1"] :=
    fitMessages_single hrequest (by show _ + 1000 ≤ 100000; omega)
  have hrecent : recent writtenStore firstMember = writtenStore.conversations.map ConversationRow.conversation := by
    decide +kernel
  have hplan : choosePlan smallCompactor writtenStore {} firstMember 10 (recent writtenStore firstMember) =
      .ok (.compact helloPlan) := by
    rw [hrecent]
    exact choosePlan_first (by decide +kernel) (by decide +kernel) (by decide +kernel) hfit (by decide)
  show (planRound smallCompactor writtenStore {} firstMember "r1" (some "b1") 10 >>= _) = _
  unfold planRound
  rw [hplan]
  rfl

/-- The run in which the round of the agent waits for its answer. -/
def askedRun : CompactionRun where
  conversations := writtenStore
  memory := helloMemory
  waiting := [⟨"r1", firstMember, helloPlan⟩]

/-- The round gets its answer, and then the process ends. -/
def summarizedRun : CompactionRun :=
  askedRun.after {} (fun text => text) smallCompactor
    (.answer ⟨"r1", firstMember, helloPlan⟩ helloCompletion 20 true)

/-- Calls lead from one reachable run to another. -/
theorem reachable_calls {policy : ConversationPolicy} {sha256 : String → String} {c : ConversationCompactor}
    {run : CompactionRun} (h : (compactionSystem policy sha256 c).Reachable run) (calls : List StoreCall) :
    (compactionSystem policy sha256 c).Reachable
      { run with conversations := calls.foldl (fun s call => call.after policy sha256 s) run.conversations } := by
  induction calls generalizing run with
  | nil => exact h
  | cons call calls ih => exact ih (h.step ⟨.call call, trivial, rfl⟩)

/-- A round that asks waits for its answer. -/
theorem after_start {policy : ConversationPolicy} {sha256 : String → String} {c : ConversationCompactor}
    {run : CompactionRun} {roundId : String} {identity : MemoryIdentity} {batchId : Option String}
    {hasCachedRequest returns : Bool} {now : Timestamp} {plan : CompactPlan} {memory : MemoryStore}
    (h : startRound c run.conversations run.memory identity roundId batchId hasCachedRequest now =
      .ok (returns, some plan, memory)) :
    run.after policy sha256 c (.start roundId identity batchId hasCachedRequest now) =
      { run with memory, waiting := run.waiting ++ [⟨roundId, identity, plan⟩] } := by
  unfold CompactionRun.after
  dsimp only
  rw [h]

/-- The run with the waiting round is reachable. -/
theorem reachable_askedRun : (compactionSystem {} (fun text => text) smallCompactor).Reachable askedRun := by
  have hwritten := @reachable_calls {} (fun text => text) smallCompactor {} (.of_init rfl) writing
  rw [after_writing] at hwritten
  have hasked := @after_start {} (fun text => text) smallCompactor { conversations := writtenStore } _ _ _ _ _ _ _ _
    startRound_hello
  exact hwritten.step ⟨.start "r1" firstMember (some "b1") false 10, trivial, hasked.symm⟩

/-- The greeting is summarized: there is one version, which covers its message. -/
theorem chain_summarizedRun :
    ((summarizedRun.storedOf "c").map fun entry =>
        (entry.1.messageIds, entry.2.version, entry.2.coveredSequence, entry.2.overview)) =
      [(["m1"], 1, 1, "greeting")] ∧ summarizedRun.Summarized "c" := by
  have hanswered : (compactionSystem {} (fun text => text) smallCompactor).Reachable summarizedRun :=
    reachable_askedRun.step
      ⟨.answer ⟨"r1", firstMember, helloPlan⟩ helloCompletion 20 true, List.mem_cons_self, rfl⟩
  exact ⟨by decide +kernel, chain_of_reachable hanswered "c"⟩

end OsAgent.Conversations
