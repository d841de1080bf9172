import OsAgent.AgentContext.Active
import OsAgent.AgentContext.Manager

/-!
# What each change does

Every operation of the manager commits one change. `Outcome` says of a change, whichever it is, what
records it writes and how it leaves the sealed context: each written record is the context with which
the change ends, or one of the records that the change is said to write besides; and a summary that
is pending afterwards either has its source among the written records, or was pending before, with
the context untouched.
-/

namespace OsAgent.Context

open OsAgent.Library

/-- What a change made of a state, with the records that it may write besides its last context. -/
structure Outcome (state : ContextCheckpoint) (besides : ContextRecord → Prop) (m : Mutation) :
    Prop where
  written : ∀ write ∈ m.writes, write.record = .frame m.state.context ∨ besides write.record
  sealed : ∀ pending ∈ m.state.pendingSummary,
    { ref := pending.sourceRef, record := .frame m.state.context } ∈ m.writes ∨
      (m.state.context = state.context ∧
        ∃ old ∈ state.pendingSummary, old.sourceRef = pending.sourceRef)

/-! ## The steps of a change -/

section Steps

variable {α : Type} {m : Mutation} {E : Fault → Mutation → Prop}

/-- To look at the draft is to return the state. -/
@[simp]
theorem wp_draft {Q : ContextCheckpoint → Mutation → Prop} : wp draft Q E m ↔ Q m.state m := by
  simp [draft]

/-- A new identity is created and counted. -/
@[simp]
theorem wp_nextId {Q : String → Mutation → Prop} :
    wp nextId Q E m ↔ Q (m.createId m.created) { m with created := m.created + 1 } := by
  simp [nextId]

/-- The state is changed. -/
@[simp]
theorem wp_assign {Q : Unit → Mutation → Prop} (f : ContextCheckpoint → ContextCheckpoint) :
    wp (assign f) Q E m ↔ Q () { m with state := f m.state } := by
  simp [assign]

/-- The context is replaced. -/
@[simp]
theorem wp_assignContext {Q : Unit → Mutation → Prop} (context : AgentContext) :
    wp (assignContext context) Q E m ↔ Q () { m with state := { m.state with context } } := by
  simp [assignContext]

/-- A record is to be written. -/
@[simp]
theorem wp_pushWrite {Q : Unit → Mutation → Prop} (ref : String) (record : ContextRecord) :
    wp (pushWrite ref record) Q E m ↔ Q () { m with writes := m.writes ++ [{ ref, record }] } := by
  simp [pushWrite]

/-- The context is to be written under a new reference. -/
@[simp]
theorem wp_archive {Q : String → Mutation → Prop} :
    wp archive Q E m ↔ Q ("context-history://" ++ m.createId m.created)
      { m with
        writes := m.writes ++ [{ ref := "context-history://" ++ m.createId m.created
                                 record := .frame m.state.context }]
        created := m.created + 1 } := by
  simp [archive]

/-- The active frame gets other data. -/
theorem wp_putFrame {Q : Unit → Mutation → Prop} (h : m.state.context.Lower)
    (data : ContextFrameData) :
    wp (putFrame ((active m.state.context).withData data)) Q E m ↔
      Q () { m with state := { m.state with context := m.state.context.withActive data } } := by
  simp [putFrame, AgentContext.replaceFrame_active h]

/-- The active frame gets other data a second time. -/
theorem wp_putFrame_again {Q : Unit → Mutation → Prop} {context : AgentContext}
    (h : context.Lower) (data data' : ContextFrameData)
    (hm : m.state.context = context.withActive data) :
    wp (putFrame (((active context).withData data).withData data')) Q E m ↔
      Q () { m with state := { m.state with context := context.withActive data' } } := by
  have hactive : (active context).withData data = active m.state.context := by
    rw [hm, AgentContext.active_withActive]
  rw [hactive, wp_putFrame (by rw [hm]; exact h.withActive data), hm,
    AgentContext.withActive_withActive]

/-- Whatever frame is put, only the context changes. -/
theorem returns_putFrame {Q : Unit → Mutation → Prop} (frame : ContextFrame)
    (h : ∀ context, Q () { m with state := { m.state with context } }) :
    Returns (putFrame frame) Q m := by
  simp only [putFrame, wp_bind, wp_draft, wp_lift, wp_assignContext, implies_true, and_true]
  exact fun context _ => h context

end Steps

/-! ## Summaries -/

/-- A mutation in which a summary was scheduled: the context was archived as its source. -/
structure Scheduled (m m' : Mutation) : Prop where
  context : m'.state.context = m.state.context
  pending : ∃ p, m'.state.pendingSummary = some p ∧
    m'.writes = m.writes ++ [{ ref := p.sourceRef, record := .frame m.state.context }]

/-- To schedule a summary archives the context as its source. -/
theorem scheduleSummary_scheduled (purpose : ContextSummaryPurpose) (reason : String)
    (m : Mutation) : Returns (scheduleSummary purpose reason) (fun _ m' => Scheduled m m') m := by
  simp only [scheduleSummary, wp_bind, wp_draft, wp_lift, wp_archive, wp_nextId, wp_assign,
    implies_true, and_true]
  intros
  exact ⟨rfl, _, rfl, rfl⟩

/-- A scheduled summary is sealed, and nothing else was written if nothing was before. -/
theorem Scheduled.outcome {state : ContextCheckpoint} {m m' : Mutation}
    {besides : ContextRecord → Prop} (h : Scheduled m m')
    (hw : ∀ write ∈ m.writes, write.record = .frame m.state.context ∨ besides write.record) :
    Outcome state besides m' := by
  obtain ⟨p, hp, hwrites⟩ := h.pending
  refine ⟨?_, ?_⟩
  · intro write hmem
    rw [hwrites, List.mem_append, List.mem_singleton] at hmem
    rw [h.context]
    rcases hmem with hmem | rfl
    · exact hw write hmem
    · exact .inl rfl
  · intro pending hpending
    obtain rfl : p = pending := Option.some.inj (hp.symm.trans hpending)
    left
    rw [hwrites, h.context]
    exact List.mem_append_right _ (List.mem_singleton.mpr rfl)

/-- A change that wrote nothing and left no summary. -/
theorem outcome_of_quiet {state : ContextCheckpoint} {besides : ContextRecord → Prop}
    {m : Mutation} (hw : m.writes = []) (hp : m.state.pendingSummary = none) :
    Outcome state besides m :=
  ⟨by simp [hw], by simp [hp]⟩

/-- The last context may be archived once more. -/
theorem Outcome.archive {state : ContextCheckpoint} {besides : ContextRecord → Prop} {m : Mutation}
    (h : Outcome state besides m) (ref : String) (created : ℕ) :
    Outcome state besides { m with
      writes := m.writes ++ [{ ref, record := .frame m.state.context }], created } where
  written write hmem := by
    rcases List.mem_append.mp hmem with hold | hnew
    · exact h.written write hold
    · rw [List.mem_singleton] at hnew
      exact .inl (by rw [hnew])
  sealed pending hpending := by
    rcases h.sealed pending hpending with hsource | hsame
    · exact .inl (List.mem_append_left _ hsource)
    · exact .inr hsame

/-! ## The inbox -/

section Inbox

variable (sha256 : String → String)

/-- The entries of a delivery, however they are found, change nothing but the identities drawn. -/
theorem returns_deliveryEntries {Q : List ContextEntry → Mutation → Prop} {m : Mutation}
    (target : Option ContextFrame) (delivery : ContextDelivery)
    (h : ∀ entries created, Q entries { m with created }) :
    Returns (deliveryEntries sha256 target delivery) Q m := by
  cases target with
  | some frame => exact h delivery.entries m.created
  | none =>
    simp only [deliveryEntries, wp_bind, wp_nextId, wp_pure]
    exact h _ _

/-- What the loop over the inbox has done: moved deliveries into frames, and scheduled a summary if
it ended early. -/
structure Drained (m : Mutation) (ended : Bool) (m' : Mutation) : Prop where
  running : ended = false → m'.writes = m.writes ∧ m'.state.pendingSummary = m.state.pendingSummary
  ended : ended = true → ∃ m₁, m₁.writes = m.writes ∧ Scheduled m₁ m'

/-- Draining on from a state with the same writes and no other summary. -/
theorem Drained.congr {m m₁ m' : Mutation} {ended : Bool} (h : Drained m₁ ended m')
    (hw : m₁.writes = m.writes) (hp : m₁.state.pendingSummary = m.state.pendingSummary) :
    Drained m ended m' where
  running he := ⟨(h.running he).1.trans hw, (h.running he).2.trans hp⟩
  ended he := by
    obtain ⟨m₂, hw₂, hs⟩ := h.ended he
    exact ⟨m₂, hw₂.trans hw, hs⟩

/-- A summary scheduled in the loop ends it. -/
theorem schedule_drained {m m₁ : Mutation} (hw : m₁.writes = m.writes) :
    Returns (scheduleSummary .compact "") (fun _ => Drained m true) m₁ := by
  refine wp_mono (scheduleSummary_scheduled .compact "" m₁) ?_ (fun _ _ h => h)
  intro _ m' hs
  exact ⟨fun h => (by cases h), fun _ => ⟨m₁, hw, hs⟩⟩

/-- The loop over deliveries moves them, or schedules a summary. -/
theorem drainDeliveries_drained (deliveries : List ContextDelivery) (m : Mutation) :
    Returns (drainDeliveries sha256 deliveries) (Drained m) m := by
  induction deliveries generalizing m with
  | nil => exact ⟨fun _ => ⟨rfl, rfl⟩, fun h => (by cases h)⟩
  | cons delivery rest ih =>
    simp only [drainDeliveries, Returns, wp_bind, wp_draft, wp_ite]
    split_ifs with hid
    · exact ih m
    · refine returns_deliveryEntries sha256 _ _ fun entries created => ?_
      split_ifs with hlarge hcompact
      · -- The entries do not fit: a summary makes room first.
        simp only [wp_lift, wp_pure, implies_true, and_true]
        intro _ _
        exact schedule_drained rfl
      · refine returns_putFrame _ fun context => ?_
        simp only [wp_assign, wp_pure]
        exact schedule_drained rfl
      · refine returns_putFrame _ fun context => ?_
        rw [wp_assign]
        refine wp_mono (ih _) (fun ended m' hd => ?_) (fun _ _ h => h)
        exact hd.congr rfl rfl

/-- Draining the inbox writes at most the source of a new summary. -/
theorem drainInbox_outcome {state : ContextCheckpoint} (createId : ℕ → String)
    (h : state.pendingSummary = none) :
    Returns (drainInbox sha256) (fun _ => Outcome state fun _ => False)
      (state.mutation createId) := by
  simp only [drainInbox, Returns, wp_bind, wp_draft, wp_ite]
  have hnone : ¬ (state.mutation createId).state.pendingSummary.isSome = true := by
    simp [ContextCheckpoint.mutation, h]
  rw [if_neg hnone]
  refine wp_mono (drainDeliveries_drained sha256 _ _) ?_ (fun _ _ _ => trivial)
  intro ended m hd
  split_ifs with he hcompact
  · obtain ⟨m₁, hw, hs⟩ := hd.ended he
    exact hs.outcome (by simp [hw, ContextCheckpoint.mutation])
  · obtain ⟨hw, hp⟩ := hd.running (by simpa using he)
    refine wp_mono (scheduleSummary_scheduled .compact "" m) ?_ (fun _ _ h => h)
    intro _ m' hs
    exact hs.outcome (by simp [hw, ContextCheckpoint.mutation])
  · obtain ⟨hw, hp⟩ := hd.running (by simpa using he)
    exact outcome_of_quiet hw (hp.trans h)

/-- Accepting deliveries records each of them. -/
theorem acceptDeliveries_outcome (state : ContextCheckpoint) (createId : ℕ → String)
    (fresh : List ContextDelivery) :
    Returns (acceptDeliveries sha256 fresh)
      (fun _ => Outcome state fun record => ∃ delivery ∈ fresh, record = .history delivery)
      (state.mutation createId) := by
  simp only [acceptDeliveries, Returns, wp_bind, wp_assign, wp_modify]
  refine ⟨?_, fun pending hpending => .inr ⟨rfl, pending, hpending, rfl⟩⟩
  intro write hmem
  obtain ⟨delivery, hd, rfl⟩ := List.mem_map.mp (by simpa [ContextCheckpoint.mutation] using hmem)
  exact .inr ⟨delivery, hd, rfl⟩

end Inbox

/-! ## Decisions -/

/-- The record of the context that a decision archives before it replaces the chain. -/
structure PlanRecord (decision : ContextDecision) (entries : List ContextEntry)
    (context : AgentContext) (record : ContextRecord) : Prop where
  replaces : decision.replaces.isSome
  record_eq : record = .frame (archivedContext decision entries context)
  entries : ∀ entry ∈ entries, validateEntry entry = .ok ()
  reason : ∀ objectives reason, decision = .replan objectives reason → text reason = .ok ()

/-- New tasks come with new identities. -/
theorem returns_newTasks {Q : List ContextTask → Mutation → Prop} (objectives : List String)
    (m : Mutation) (h : ∀ tasks created, Q tasks { m with created }) :
    Returns (newTasks objectives) Q m := by
  induction objectives generalizing m Q with
  | nil => exact h [] m.created
  | cons objective objectives ih =>
    simp only [newTasks, Returns, wp_bind, wp_nextId, wp_pure]
    exact ih _ fun tasks created => h _ created

/-- A plan archives the context in which it is installed, and nothing else. -/
theorem installPlan_writes {m : Mutation} (frame : ContextFrame) (objectives : List String)
    (reason : Option String) :
    Returns (installPlan frame objectives reason) (fun _ m' =>
      m'.state.pendingSummary = m.state.pendingSummary ∧
        ∃ ref, m'.writes = m.writes ++ [{ ref, record := .frame m.state.context }]) m := by
  simp only [installPlan, Returns, wp_bind, wp_archive]
  refine returns_newTasks objectives _ fun tasks created => ?_
  exact returns_putFrame _ fun context => ⟨rfl, _, rfl⟩

/-- To advance a frame writes the last context at most. -/
theorem advance_outcome {state : ContextCheckpoint} {besides : ContextRecord → Prop} {m : Mutation}
    (frame : ContextFrame) (hw : m.writes = []) (hp : m.state.pendingSummary = none) :
    Returns (advance frame) (fun _ => Outcome state besides) m := by
  simp only [advance, Returns, wp_bind, wp_lift, implies_true, and_true]
  intro _ _ next _
  refine returns_putFrame _ fun context => ?_
  simp only [wp_nextId, wp_draft, wp_assignContext]
  exact outcome_of_quiet hw hp

/-- To complete a step writes the last context at most. -/
theorem completeStep_outcome {state : ContextCheckpoint} {besides : ContextRecord → Prop}
    {m : Mutation} (frame : ContextFrame) (result : ContextSummary) (hw : m.writes = [])
    (hp : m.state.pendingSummary = none) :
    Returns (completeStep frame result) (fun _ => Outcome state besides) m := by
  simp only [completeStep, Returns, wp_bind, wp_lift, implies_true, and_true]
  intro _ _ _ _
  exact returns_putFrame _ fun context => outcome_of_quiet hw hp

/-- A summary scheduled by a decision. -/
theorem scheduleSummary_outcome {state : ContextCheckpoint} {besides : ContextRecord → Prop}
    {m : Mutation} (purpose : ContextSummaryPurpose) (reason : String) (hw : m.writes = []) :
    Returns (scheduleSummary purpose reason) (fun _ => Outcome state besides) m := by
  refine wp_mono (scheduleSummary_scheduled purpose reason m) ?_ (fun _ _ h => h)
  intro _ m' hs
  exact hs.outcome (by simp [hw])

/-- The data of the active frame with the entries of a round. -/
def ContextFrameData.withEntries (data : ContextFrameData) (entries : List ContextEntry) :
    ContextFrameData :=
  { data with memory := { data.memory with
      recentEntries := data.memory.recentEntries ++ entries } }

/-- The mutation in which a decision is made, after the entries were appended. -/
def ContextCheckpoint.decisionMutation (state : ContextCheckpoint) (createId : ℕ → String)
    (entries : List ContextEntry) : Mutation :=
  { state := { state with
      context := state.context.withActive ((active state.context).data.withEntries entries)
      runnable := true }
    writes := []
    createId
    created := 0 }

/-- The decision is made on the active frame of the context with the entries. -/
theorem returns_applyDecision {state : ContextCheckpoint} {createId : ℕ → String}
    {Q : Unit → Mutation → Prop} (decision : ContextDecision) (entries : List ContextEntry)
    (hlower : state.context.Lower)
    (h : (∀ entry ∈ entries, validateEntry entry = .ok ()) →
      Returns (takeDecision ((active state.context).withData
        ((active state.context).data.withEntries entries)) decision) Q
        (state.decisionMutation createId entries)) :
    Returns (applyDecision decision entries) Q (state.mutation createId) := by
  simp only [applyDecision, Returns, wp_bind, wp_lift, wp_draft, forM_eq_ok, implies_true, and_true]
  intro _ hentries
  simp only [ContextFrame.withEntries, ContextFrame.withMemory]
  rw [wp_putFrame (m := state.mutation createId) hlower, wp_assign]
  exact h hentries

/-- The two decisions that replace the chain install their plan in the archived context. -/
theorem returns_takeDecision_replacing {state : ContextCheckpoint} {createId : ℕ → String}
    {Q : Unit → Mutation → Prop} {decision : ContextDecision} {entries : List ContextEntry}
    (hlower : state.context.Lower) (hd : decision.replaces.isSome)
    (hentries : ∀ entry ∈ entries, validateEntry entry = .ok ())
    (h : ∀ m : Mutation, m.writes = [] → m.state.pendingSummary = state.pendingSummary →
      PlanRecord decision entries state.context (.frame m.state.context) →
      ∀ frame objectives reason, Returns (installPlan frame objectives reason) Q m) :
    Returns (takeDecision ((active state.context).withData
      ((active state.context).data.withEntries entries)) decision) Q
      (state.decisionMutation createId entries) := by
  cases decision with
  | plan objectives =>
    simp only [takeDecision, Returns, wp_bind, wp_lift, implies_true, and_true]
    intro _ _ _ _
    exact h _ rfl rfl ⟨rfl, rfl, hentries, fun _ _ h => (by cases h)⟩ _ _ _
  | replan objectives reason =>
    simp only [takeDecision, Returns, wp_bind, wp_lift, setChain, ContextFrame.data_withData,
      implies_true, and_true]
    intro _ _ _ hreason
    -- The frame is the active one of the context with the entries, and is put back into it.
    refine (wp_putFrame_again hlower _ _ rfl).mpr ?_
    refine h _ rfl rfl ⟨rfl, rfl, hentries, ?_⟩ _ _ _
    rintro _ _ ⟨⟩
    exact hreason
  | _ => cases hd

/-- To apply a decision writes the last context, and what it says of a plan. -/
theorem applyDecision_outcome {state : ContextCheckpoint} (createId : ℕ → String)
    (decision : ContextDecision) (entries : List ContextEntry) (hlower : state.context.Lower)
    (hp : state.pendingSummary = none) :
    Returns (applyDecision decision entries)
      (fun _ => Outcome state (PlanRecord decision entries state.context))
      (state.mutation createId) := by
  refine returns_applyDecision decision entries hlower fun hentries => ?_
  have hnone : (state.decisionMutation createId entries).state.pendingSummary = none := hp
  -- A decision that replaces the plan archives the context before it installs the new one.
  have replacing (hd : decision.replaces.isSome) : Returns (takeDecision ((active state.context).withData
      ((active state.context).data.withEntries entries)) decision)
      (fun _ => Outcome state (PlanRecord decision entries state.context))
      (state.decisionMutation createId entries) := by
    refine returns_takeDecision_replacing hlower hd hentries ?_
    intro m hw hpending hrecord frame objectives reason
    refine wp_mono (installPlan_writes frame objectives reason) ?_ (fun _ _ h => h)
    rintro _ m' ⟨hpending', ref, hw'⟩
    refine ⟨?_, by simp [hpending', hpending, hp]⟩
    intro write hmem
    rw [hw', hw, List.nil_append, List.mem_singleton] at hmem
    exact .inr (hmem ▸ hrecord)
  -- By the decision: it installs a plan, ends a step, asks for a summary, or does nothing.
  cases decision with
  | plan objectives => exact replacing rfl
  | replan objectives reason => exact replacing rfl
  | advance => exact advance_outcome _ rfl hnone
  | stepCompleted result => exact completeStep_outcome _ _ rfl hnone
  | interrupt reason =>
    simp only [takeDecision, Returns, wp_bind, wp_lift, implies_true, and_true]
    intro _ _
    exact scheduleSummary_outcome _ _ rfl
  | complete => exact scheduleSummary_outcome _ _ rfl
  | compact => exact scheduleSummary_outcome _ _ rfl
  | idle => exact scheduleSummary_outcome _ _ rfl
  | finishTurn =>
    simp only [takeDecision, Returns, wp_bind, wp_draft, wp_lift, wp_assign, implies_true, and_true]
    intro _ _
    exact outcome_of_quiet rfl hnone
  | «continue» =>
    rw [takeDecision, Returns, wp_assign]
    exact outcome_of_quiet rfl hnone
  | wait =>
    rw [takeDecision, Returns, wp_assign]
    exact outcome_of_quiet rfl hnone

/-- A decision that replaces the chain writes the archived context. -/
theorem applyDecision_archives {state : ContextCheckpoint} (createId : ℕ → String)
    {decision : ContextDecision} (entries : List ContextEntry) (hlower : state.context.Lower)
    (hd : decision.replaces.isSome) :
    Returns (applyDecision decision entries) (fun _ m => ∃ write ∈ m.writes,
      write.record = .frame (archivedContext decision entries state.context))
      (state.mutation createId) := by
  refine returns_applyDecision decision entries hlower fun hentries => ?_
  refine returns_takeDecision_replacing hlower hd hentries ?_
  intro m _ _ hrecord frame objectives reason
  refine wp_mono (installPlan_writes frame objectives reason) ?_ (fun _ _ h => h)
  rintro _ m' ⟨_, ref, hw⟩
  refine ⟨{ ref, record := .frame m.state.context }, ?_, hrecord.record_eq⟩
  rw [hw]
  exact List.mem_append_right _ (List.mem_singleton.mpr rfl)

/-- A round writes the context with which it ends, and that of a plan which it replaces. -/
theorem applyRound_outcome {state : ContextCheckpoint} (createId : ℕ → String)
    (cursor : ContextCursor) (decision : ContextDecision) (entries : List ContextEntry)
    (hlower : state.context.Lower) :
    Returns (applyRound cursor decision entries)
      (fun _ => Outcome state (PlanRecord decision entries state.context))
      (state.mutation createId) := by
  simp only [applyRound, Returns, wp_bind, wp_draft, wp_lift, requireContext_eq_ok, implies_true,
    and_true]
  intro _ hnone _ _
  refine wp_mono (applyDecision_outcome createId decision entries hlower
    (Option.isNone_iff_eq_none.mp hnone)) ?_ (fun _ _ h => h)
  intro _ m h
  simp only [wp_archive, wp_pure]
  exact h.archive _ _

/-- A decision that replaces a plan archives the context first. -/
theorem applyRound_archives {state : ContextCheckpoint} (createId : ℕ → String)
    (cursor : ContextCursor) {decision : ContextDecision} (entries : List ContextEntry)
    (hlower : state.context.Lower) (hd : decision.replaces.isSome) :
    Returns (applyRound cursor decision entries) (fun _ m => ∃ write ∈ m.writes,
      write.record = .frame (archivedContext decision entries state.context))
      (state.mutation createId) := by
  simp only [applyRound, Returns, wp_bind, wp_draft, wp_lift, implies_true, and_true]
  intro _ _ _ _
  refine wp_mono (applyDecision_archives createId entries hlower hd) ?_ (fun _ _ h => h)
  rintro _ m ⟨write, hmem, hrecord⟩
  simp only [wp_archive, wp_pure]
  exact ⟨write, List.mem_append_left _ hmem, hrecord⟩

/-! ## Pending summaries -/

/-- A change that only counts attempts or notes an error. -/
theorem outcome_of_same_source {state : ContextCheckpoint} {besides : ContextRecord → Prop}
    {m : Mutation} {old : PendingContextSummary} (hw : m.writes = [])
    (hc : m.state.context = state.context) (hold : state.pendingSummary = some old)
    (hp : ∀ pending ∈ m.state.pendingSummary, pending.sourceRef = old.sourceRef) :
    Outcome state besides m :=
  ⟨by simp [hw], fun pending h => .inr ⟨hc, old, hold, (hp pending h).symm⟩⟩

/-- To count an attempt writes nothing. -/
theorem countAttempt_outcome {state : ContextCheckpoint} {besides : ContextRecord → Prop}
    (createId : ℕ → String) :
    Returns countAttempt (fun _ => Outcome state besides) (state.mutation createId) := by
  simp only [countAttempt, Returns, wp_bind, wp_draft, wp_lift, wp_assign,
    requirePresent_eq_ok, implies_true, and_true]
  intro old hold _ _
  exact outcome_of_same_source rfl rfl hold (by rintro _ ⟨⟩; rfl)

/-- To reset the attempts writes nothing. -/
theorem resetAttempts_outcome {state : ContextCheckpoint} {besides : ContextRecord → Prop}
    (createId : ℕ → String) :
    Returns resetAttempts (fun _ => Outcome state besides) (state.mutation createId) := by
  simp only [resetAttempts, Returns, wp_assign]
  refine ⟨by simp [ContextCheckpoint.mutation], ?_⟩
  intro pending hpending
  obtain ⟨old, hold, rfl⟩ := Option.map_eq_some_iff.mp hpending
  exact .inr ⟨rfl, old, hold, rfl⟩

/-- To record a failure writes nothing. -/
theorem recordFailure_outcome {state : ContextCheckpoint} {besides : ContextRecord → Prop}
    (createId : ℕ → String) (id message : String) :
    Returns (recordFailure id message) (fun _ => Outcome state besides)
      (state.mutation createId) := by
  simp only [recordFailure, Returns, wp_bind, wp_draft, wp_lift, wp_assign,
    requirePresent_eq_ok, implies_true, and_true]
  intro old hold
  exact outcome_of_same_source rfl rfl (Option.eq_some_of_filter_eq_some hold)
    (by rintro _ ⟨⟩; rfl)

/-- A loop that puts frames changes only the context. -/
theorem returns_putFrames {Q : Unit → Mutation → Prop} (budget : ContextBudget)
    (fs : List ContextFrame) (m : Mutation)
    (h : ∀ context, Q () { m with state := { m.state with context } }) :
    Returns (fs.forM fun frame => putFrame (frame.withBudget budget)) Q m := by
  induction fs generalizing m with
  | nil => exact h m.state.context
  | cons frame fs ih =>
    show wp (putFrame (frame.withBudget budget) >>= fun _ =>
      fs.forM fun frame => putFrame (frame.withBudget budget)) _ _ m
    rw [wp_bind]
    exact returns_putFrame _ fun context => ih _ fun context' => h context'

/-- New budgets reach the sealed context through a new archive of it. -/
theorem setBudgets_outcome {state : ContextCheckpoint} {besides : ContextRecord → Prop}
    (createId : ℕ → String) (budget : ContextBudget) :
    Returns (setBudgets budget) (fun _ => Outcome state besides) (state.mutation createId) := by
  simp only [setBudgets, Returns, wp_bind, wp_assign, wp_draft]
  refine returns_putFrames budget _ _ fun context => ?_
  cases hpending : state.pendingSummary with
  | none =>
    simp only [ContextCheckpoint.mutation, hpending, wp_pure]
    exact outcome_of_quiet rfl rfl
  | some old =>
    simp only [ContextCheckpoint.mutation, hpending, wp_bind, wp_archive, wp_assign]
    refine ⟨fun write hmem => .inl ?_, ?_⟩
    · rw [List.nil_append, List.mem_singleton] at hmem
      rw [hmem]
    · rintro pending ⟨⟩
      exact .inl List.mem_cons_self

/-- The record of a summary that was integrated. -/
structure SummaryRecord (state : ContextCheckpoint) (summary : ContextSummary)
    (record : ContextRecord) : Prop where
  record_eq : ∃ pending ∈ state.pendingSummary, record = .summary pending.sourceRef summary
  valid : ∃ allowed, validateSummary summary (some allowed) = .ok ()

/-- A summary is recorded, and none is pending any more. -/
theorem integrateSummary_outcome {state : ContextCheckpoint} (createId : ℕ → String) (id : String)
    (summary : ContextSummary) :
    Returns (integrateSummary id summary) (fun _ => Outcome state (SummaryRecord state summary))
      (state.mutation createId) := by
  simp only [integrateSummary, Returns, wp_bind, wp_draft, wp_lift, wp_nextId, wp_pushWrite,
    wp_ite, wp_assign, wp_assignContext, requirePresent_eq_ok, implies_true, and_true]
  intro pending hpending _ _ _ hvalid _ _ _ _ _ _
  have record : SummaryRecord state summary (.summary pending.sourceRef summary) :=
    ⟨⟨pending, Option.eq_some_of_filter_eq_some hpending, rfl⟩, _, hvalid⟩
  have last (m : Mutation) (ref : String)
      (hw : m.writes = [{ ref, record := .summary pending.sourceRef summary }])
      (hp : m.state.pendingSummary = none) : Outcome state (SummaryRecord state summary) m := by
    refine ⟨fun write hmem => .inr ?_, by simp [hp]⟩
    rw [hw, List.mem_singleton] at hmem
    exact hmem ▸ record
  split_ifs
  · exact returns_putFrame _ fun context _ _ => last _ _ rfl rfl
  · exact fun context _ _ _ => last _ _ rfl rfl

end OsAgent.Context
