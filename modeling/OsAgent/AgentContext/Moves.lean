import OsAgent.AgentContext.Draining

/-!
# How the cursors change

A change may install a new plan in a frame, create a frame below the active one, or release it; the
root is never replaced. `Moves` says this of the cursors of each level. Every change but those of the
inbox itself leaves the inbox as it is; `Evolves` says both.
-/

namespace OsAgent.Context

open OsAgent.Library

/-- What may become of the cursor of a level, where new identities satisfy `New`. -/
inductive CursorMoves (New : String → Prop) (level : ContextLevel) (before : Option ContextCursor)
    (after : ContextCursor) : Prop
  | same (h : before = some after)
  | planned (h : before = some ⟨after.frameId, after.planRevision - 1⟩)
    (hpos : 0 < after.planRevision)
  | created (hlevel : level ≠ .one) (hnew : New after.frameId)

/-- Every cursor of a context comes from one of the context before. -/
def Moves (New : String → Prop) (context context' : AgentContext) : Prop :=
  ∀ level after, context'.cursorAt level = some after →
    CursorMoves New level (context.cursorAt level) after

section Moves

variable {New : String → Prop} {context context' : AgentContext}

/-- The same cursors come from those before. -/
theorem moves_of_cursorAt (h : context'.cursorAt = context.cursorAt) :
    Moves New context context' := by
  intro level after hafter
  rw [h] at hafter
  exact .same hafter

/-- What comes after a context with the same cursors comes after the context. -/
theorem Moves.congr_left {context₀ : AgentContext} (h : Moves New context context')
    (hc : context.cursorAt = context₀.cursorAt) : Moves New context₀ context' := by
  intro level after hafter
  rw [← hc]
  exact h level after hafter

/-- The root keeps its identity. -/
theorem Moves.root (h : Moves New context context') : context'.level1.id = context.level1.id := by
  have hone : ContextCursor.frameId (ContextFrame.one context'.level1).cursor =
      ContextCursor.frameId (ContextFrame.one context.level1).cursor := by
    cases h .one _ rfl with
    | same h => rw [Option.some.inj h]
    | planned h _ => rw [Option.some.inj h]
    | created hlevel _ => exact absurd rfl hlevel
  exact hone

end Moves

/-! ## Changes -/

/-- A state whose cursors come from those of another, with the same inbox. -/
structure Evolves (New : String → Prop) (state state' : ContextCheckpoint) : Prop where
  moves : Moves New state.context state'.context
  inbox : state'.inbox = state.inbox
  limit : state'.policy.maxDeliveryBytes = state.policy.maxDeliveryBytes

/-- A state with the cursors and the inbox of another. -/
structure Still (state state' : ContextCheckpoint) : Prop where
  cursors : state'.context.cursorAt = state.context.cursorAt
  inbox : state'.inbox = state.inbox
  limit : state'.policy.maxDeliveryBytes = state.policy.maxDeliveryBytes

/-- A state with the same cursors evolves from it. -/
theorem Still.evolves {New : String → Prop} {state state' : ContextCheckpoint}
    (h : Still state state') : Evolves New state state' :=
  ⟨moves_of_cursorAt h.cursors, h.inbox, h.limit⟩

/-- The revision does not matter. -/
theorem Evolves.withRevision {New : String → Prop} {state state' : ContextCheckpoint}
    (h : Evolves New state state') (revision : ℕ) : Evolves New state { state' with revision } :=
  ⟨h.moves, h.inbox, h.limit⟩

section Changes

variable {m : Mutation} {state : ContextCheckpoint} {New : String → Prop}

/-- A frame is put into the context, and the cursor of its level becomes its cursor. -/
theorem returns_putFrame_cursorAt {Q : Unit → Mutation → Prop} (frame : ContextFrame)
    (h : ∀ context, context.cursorAt =
        Function.update m.state.context.cursorAt frame.level (some frame.cursor) →
      Q () { m with state := { m.state with context } }) :
    Returns (putFrame frame) Q m := by
  simp only [putFrame, Returns, wp_bind, wp_draft, wp_lift, wp_assignContext, implies_true, and_true]
  exact fun context hcontext => h context (cursorAt_replaceFrame hcontext)

/-- The cursor at the active level is that of the active frame. -/
theorem cursorAt_active (context : AgentContext) :
    context.cursorAt (active context).level = some (active context).cursor :=
  mem_cursorAt (AgentContext.mem_frames_active context)

/-- A frame is put back with its cursor. -/
theorem returns_putFrame_same {Q : Unit → Mutation → Prop} {frame : ContextFrame}
    (hframe : state.context.cursorAt frame.level = some frame.cursor) (hm : Still state m.state)
    (h : ∀ context, Still state { m.state with context } →
      Q () { m with state := { m.state with context } }) :
    Returns (putFrame frame) Q m := by
  refine returns_putFrame_cursorAt frame fun context hcontext => h context ⟨?_, hm.inbox, hm.limit⟩
  rw [hcontext, hm.cursors, ← hframe, Function.update_eq_self]

/-- A plan raises the revision of its frame. -/
theorem installPlan_evolves {frame : ContextFrame} (objectives : List String)
    (reason : Option String) (hframe : state.context.cursorAt frame.level = some frame.cursor)
    (hm : Still state m.state) :
    Returns (installPlan frame objectives reason) (fun _ m' => Evolves New state m'.state) m := by
  simp only [installPlan, Returns, wp_bind, wp_archive]
  refine returns_newTasks objectives _ fun tasks created => ?_
  refine returns_putFrame_cursorAt _ fun context hcontext => ⟨?_, hm.inbox, hm.limit⟩
  intro level after hafter
  rw [hcontext] at hafter
  simp only [setChain, ContextFrame.withMemory, ContextFrame.withData_withData,
    ContextFrame.level_withData, Function.update_apply] at hafter
  split_ifs at hafter with hlevel
  · obtain rfl := Option.some.inj hafter
    refine .planned ?_ (by simp [ContextFrame.cursor])
    rw [hlevel, hframe]
    simp [ContextFrame.cursor]
  · exact .same (hm.cursors ▸ hafter)

/-- A child has an identity that was just created. -/
theorem addChild_moves {frame : ContextFrame} (policy : ContextPolicy) (context : AgentContext)
    (id taskId : String) (hnew : New id) :
    Moves New context (addChild policy context frame id taskId) := by
  intro level after hafter
  cases frame with
  | one f =>
    cases level with
    | one => exact .same hafter
    | two =>
      obtain rfl := Option.some.inj hafter
      exact .created (by simp) hnew
    | three => cases hafter
  | two f =>
    cases level with
    | one => exact .same hafter
    | two => exact .same hafter
    | three =>
      obtain rfl := Option.some.inj hafter
      exact .created (by simp) hnew
  | three f => exact .same hafter

/-- To advance a frame moves the cursors as they may be moved. -/
theorem advance_evolves {frame : ContextFrame}
    (hframe : state.context.cursorAt frame.level = some frame.cursor) (hm : Still state m.state) :
    Returns (advance frame)
      (fun _ m' => Evolves (fun id => ∃ k, id = m.createId k) state m'.state) m := by
  simp only [advance, Returns, wp_bind, wp_lift, implies_true, and_true]
  intro _ _ next _
  refine returns_putFrame_same ?_ hm fun context hstill => ?_
  · rw [setChain, ContextFrame.level_withData, hframe]
    simp [ContextFrame.cursor]
  · simp only [wp_nextId, wp_draft, wp_assignContext]
    exact ⟨(addChild_moves m.state.policy context _ _ ⟨_, rfl⟩).congr_left hstill.cursors,
      hstill.inbox, hstill.limit⟩

/-- To schedule a summary moves no cursor. -/
theorem scheduleSummary_evolves (purpose : ContextSummaryPurpose) (reason : String)
    (hm : Still state m.state) :
    Returns (scheduleSummary purpose reason) (fun _ m' => Evolves New state m'.state) m := by
  refine wp_mono (scheduleSummary_leaves purpose reason m) ?_ (fun _ _ h => h)
  rintro _ m' ⟨hcontext, hinbox, hpolicy⟩
  exact Still.evolves ⟨by rw [hcontext, hm.cursors], hinbox.trans hm.inbox, by rw [hpolicy, hm.limit]⟩

/-- The decision of a round moves the cursors of the active frame. -/
theorem takeDecision_evolves (createId : ℕ → String) (decision : ContextDecision)
    (entries : List ContextEntry) :
    Returns (takeDecision ((active state.context).withData
        ((active state.context).data.withEntries entries)) decision)
      (fun _ m => Evolves (fun id => ∃ k, id = createId k) state m.state)
      (state.decisionMutation createId entries) := by
  -- The entries of the round are added first, which moves no cursor.
  have hm : Still state (state.decisionMutation createId entries).state :=
    ⟨cursorAt_withActive rfl rfl, rfl, rfl⟩
  have hframe : state.context.cursorAt
      ((active state.context).withData ((active state.context).data.withEntries entries)).level =
      some ((active state.context).withData
        ((active state.context).data.withEntries entries)).cursor := by
    rw [ContextFrame.level_withData, cursorAt_active]
    simp [ContextFrame.cursor, ContextFrameData.withEntries]
  -- By the decision: only those about the plan move cursors.
  cases decision with
  | plan objectives =>
    simp only [takeDecision, Returns, wp_bind, wp_lift, implies_true, and_true]
    exact fun _ _ _ _ => installPlan_evolves _ _ hframe hm
  | replan objectives reason =>
    simp only [takeDecision, Returns, wp_bind, wp_lift, implies_true, and_true]
    intro _ _ _ _
    refine returns_putFrame_same ?_ hm fun context hstill => ?_
    · rw [setChain, ContextFrame.level_withData, hframe]
      simp [ContextFrame.cursor, ContextTaskChain.replaced]
    · exact installPlan_evolves _ _ hframe hstill
  | advance => exact advance_evolves hframe hm
  | stepCompleted result =>
    simp only [takeDecision, completeStep, Returns, wp_bind, wp_lift, implies_true, and_true]
    intro _ _ _ _
    refine returns_putFrame_same ?_ hm fun context hstill => hstill.evolves
    rw [setChain, ContextFrame.level_withData, hframe]
    simp [ContextFrame.cursor, ContextTaskChain.stepCompleted]
  | interrupt reason =>
    simp only [takeDecision, Returns, wp_bind, wp_lift, implies_true, and_true]
    exact fun _ _ => scheduleSummary_evolves _ _ hm
  | complete => exact scheduleSummary_evolves _ _ hm
  | compact => exact scheduleSummary_evolves _ _ hm
  | idle => exact scheduleSummary_evolves _ _ hm
  | finishTurn =>
    simp only [takeDecision, Returns, wp_bind, wp_draft, wp_lift, wp_assign, implies_true, and_true]
    exact fun _ _ => ⟨moves_of_cursorAt hm.cursors, hm.inbox, hm.limit⟩
  | «continue» =>
    rw [takeDecision, Returns, wp_assign]
    exact hm.evolves
  | wait =>
    rw [takeDecision, Returns, wp_assign]
    exact ⟨moves_of_cursorAt hm.cursors, hm.inbox, hm.limit⟩

/-- To apply a round moves the cursors as they may be moved. -/
theorem applyRound_evolves (createId : ℕ → String) (cursor : ContextCursor)
    (decision : ContextDecision) (entries : List ContextEntry) (hlower : state.context.Lower) :
    Returns (applyRound cursor decision entries)
      (fun _ m => Evolves (fun id => ∃ k, id = createId k) state m.state)
      (state.mutation createId) := by
  simp only [applyRound, Returns, wp_bind, wp_draft, wp_lift, implies_true, and_true]
  intro _ _ _ _
  refine wp_mono (returns_applyDecision decision entries hlower fun _ =>
    takeDecision_evolves createId decision entries) ?_ (fun _ _ h => h)
  intro _ m h
  simpa only [wp_archive, wp_pure] using h

/-- Ending a task of a plan leaves the plan's identity. -/
theorem cursor_releasedParent {parent : Option ContextFrameData} {task : ContextTaskRef}
    {state : ContextTaskState} {data : ContextFrameData}
    (h : releasedParent parent task state = .ok data) :
    ∃ old, parent = some old ∧ data.id = old.id ∧ data.taskChain.revision = old.taskChain.revision := by
  simp only [releasedParent, bind_eq_ok, requirePresent_eq_ok, pure_eq_ok] at h
  obtain ⟨old, hold, tasks, -, rfl⟩ := h
  exact ⟨old, Option.eq_some_of_filter_eq_some hold, rfl, rfl⟩

/-- Releasing a frame leaves the cursors of those above. -/
theorem releaseFrame_moves {context context' : AgentContext} {frame : ContextFrame}
    {taskState : ContextTaskState} (h : releaseFrame context frame taskState = .ok context') :
    Moves New context context' := by
  intro level after hafter
  refine .same ?_
  cases frame with
  | one f => cases h
  -- The second frame ends: the root goes on, with the end in its entries.
  | two f =>
    simp only [releaseFrame, bind_eq_ok, pure_eq_ok] at h
    obtain ⟨data, hdata, rfl⟩ := h
    obtain ⟨old, hold, hid, hrevision⟩ := cursor_releasedParent hdata
    obtain rfl := Option.some.inj hold
    cases level with
    | one =>
      obtain rfl := Option.some.inj hafter
      simp [AgentContext.cursorAt, ContextFrame.cursor, ContextFrame.data, hid, hrevision]
    | two => cases hafter
    | three => cases hafter
  -- The third frame ends: the root stays, and the second one goes on.
  | three f =>
    simp only [releaseFrame, bind_eq_ok, pure_eq_ok] at h
    obtain ⟨data, hdata, rfl⟩ := h
    obtain ⟨old, hold, hid, hrevision⟩ := cursor_releasedParent hdata
    obtain ⟨f2, hf2, rfl⟩ := Option.map_eq_some_iff.mp hold
    cases level with
    | one => exact hafter
    | two =>
      simp only [AgentContext.cursorAt, hf2, Option.map_some, Option.some.injEq] at hafter ⊢
      rw [← hafter]
      simp [ContextFrame.cursor, ContextFrame.data, hid, hrevision]
    | three => cases hafter

/-- A compacted frame has the cursor and the level of the frame. -/
theorem cursor_compactedFrame (frame : ContextFrame) (summary : ContextSummary)
    (historyRef sealedSourceRef : String) :
    (compactedFrame frame summary historyRef sealedSourceRef).cursor = frame.cursor ∧
      (compactedFrame frame summary historyRef sealedSourceRef).level = frame.level := by
  by_cases hsettled : frame.data.taskChain.settled = true <;>
    simp [compactedFrame, hsettled, setChain, ContextFrame.withMemory, ContextFrame.cursor,
      emptyChain]

/-- To integrate a summary moves the cursors as they may be moved. -/
theorem integrateSummary_evolves (createId : ℕ → String) (id : String) (summary : ContextSummary) :
    Returns (integrateSummary id summary) (fun _ m => Evolves New state m.state)
      (state.mutation createId) := by
  simp only [integrateSummary, Returns, wp_bind, wp_draft, wp_lift, wp_nextId, wp_pushWrite,
    wp_ite, wp_assign, wp_assignContext, implies_true, and_true]
  intro pending _ _ _ _ _ _ _ _ _ _ _
  split_ifs
  · refine returns_putFrame_same ?_ ⟨rfl, rfl, rfl⟩ fun context hstill _ _ =>
      ⟨moves_of_cursorAt hstill.cursors, rfl, rfl⟩
    obtain ⟨hcursor, hlevel⟩ := cursor_compactedFrame (active state.context) summary
      ("context-summary://" ++ createId 0) pending.sourceRef
    exact (congrArg _ hlevel).trans ((cursorAt_active state.context).trans (congrArg some hcursor.symm))
  · exact fun context hcontext _ _ => ⟨releaseFrame_moves hcontext, rfl, rfl⟩

/-- To set the budgets moves no cursor. -/
theorem setBudgets_evolves (createId : ℕ → String) (budget : ContextBudget) :
    Returns (setBudgets budget) (fun _ m => Evolves New state m.state) (state.mutation createId) := by
  simp only [setBudgets, Returns, wp_bind, wp_assign, wp_draft]
  refine wp_mono (cursorAt_putBudgets budget _ _ fun frame hf => mem_cursorAt hf) ?_
    (fun _ _ h => h)
  rintro _ m ⟨hstate, hcursor⟩
  have hm : Still state m.state := ⟨hcursor, by rw [hstate]; rfl, by rw [hstate]; rfl⟩
  cases hpending : m.state.pendingSummary with
  | none => exact hm.evolves
  | some old =>
    simp only [wp_bind, wp_archive, wp_assign]
    exact ⟨moves_of_cursorAt hm.cursors, hm.inbox, hm.limit⟩

end Changes

/-- The operations that move deliveries. -/
def Operation.delivers : Operation → Bool
  | .receive _ | .receiveAvailable _ | .prepare => true
  | _ => false

/-- An operation that moves no deliveries leaves the inbox, and what it does to the cursors is a
move. -/
theorem Operation.Makes.evolves {sha256 : String → String} {state : ContextCheckpoint}
    {op : Operation} {change : Change Unit} {receiptKeys : List String}
    (h : op.Makes sha256 state change receiptKeys) (hop : op.delivers = false)
    (hlower : state.context.Lower) (createId : ℕ → String) :
    Returns change (fun _ m => Evolves (fun id => ∃ k, id = createId k) state m.state)
      (state.mutation createId) := by
  have kept {f : ContextCheckpoint} (hf : Still state f) :
      Evolves (fun id => ∃ k, id = createId k) state f := hf.evolves
  cases h with
  | receive => cases hop
  | receiveAvailable => cases hop
  | prepare => cases hop
  | apply => exact applyRound_evolves createId _ _ _ hlower
  | beginSummaryAttempt =>
    simp only [countAttempt, Returns, wp_bind, wp_draft, wp_lift, wp_assign, implies_true, and_true]
    exact fun _ _ _ _ => kept ⟨rfl, rfl, rfl⟩
  | configureBudget => exact setBudgets_evolves createId _
  | retrySummary =>
    simp only [resetAttempts, Returns, wp_assign]
    exact kept ⟨rfl, rfl, rfl⟩
  | failSummary =>
    simp only [recordFailure, Returns, wp_bind, wp_draft, wp_lift, wp_assign, implies_true,
      and_true]
    exact fun _ _ => kept ⟨rfl, rfl, rfl⟩
  | commitSummaryPhase => exact integrateSummary_evolves createId _ _
  | acknowledgeRound => exact kept ⟨rfl, rfl, rfl⟩
  | commitSummary => exact integrateSummary_evolves createId _ _

end OsAgent.Context
