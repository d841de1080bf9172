import OsAgent.AgentContext.Absorption

/-!
# Where references come from

Summaries refer to records and to what entries refer to. A reference is grounded if it is that of a
committed record, or occurs in an accepted delivery or an applied entry. `Within` says of a state that
every reference it stores is of a kind; every change keeps it as long as the new records and the new
entries are of that kind, since a summary of a model may only use references of the context that it
sums up.
-/

namespace OsAgent.Context

open OsAgent.Library

/-! ## The references of a state -/

/-- The references of a phase. -/
def ContextPhase.refs : ContextPhase → List String
  | .planning (some replan) =>
    replan.previousPlanRef :: replan.partialResult.toList.flatMap ContextSummary.refs
  | _ => []

/-- The references of a frame are all in `R`. -/
structure ContextFrameData.Within (R : String → Prop) (data : ContextFrameData) : Prop where
  history : ∀ ref ∈ data.memory.historyRef, R ref
  summary : ∀ summary ∈ data.memory.summary, ∀ ref ∈ summary.refs, R ref
  lessons : ∀ lesson ∈ data.memory.lessons, ∀ ref ∈ lesson.sourceRefs, R ref
  tasks : ∀ task ∈ data.taskChain.tasks, ∀ ref ∈ task.state.refs, R ref
  phase : ∀ ref ∈ data.taskChain.phase.refs, R ref
  entries : ∀ entry ∈ data.memory.recentEntries, ∀ ref ∈ entry.refs, R ref

/-- The references of a context are within a set. -/
def AgentContext.Within (R : String → Prop) (context : AgentContext) : Prop :=
  ∀ frame ∈ frames context, frame.data.Within R

/-- The references that a state stores are all in `R`. -/
structure ContextCheckpoint.Within (R : String → Prop) (state : ContextCheckpoint) : Prop where
  context : state.context.Within R
  source : ∀ pending ∈ state.pendingSummary, R pending.sourceRef
  allowed : ∀ pending ∈ state.pendingSummary, ∀ ref ∈ pending.allowedRefs, R ref

section Within

variable {R R' : String → Prop}

/-- What is within a set is within a larger one. -/
theorem ContextFrameData.Within.mono {data : ContextFrameData} (h : data.Within R)
    (hR : ∀ ref, R ref → R' ref) : data.Within R' where
  history ref hr := hR ref (h.history ref hr)
  summary s hs ref hr := hR ref (h.summary s hs ref hr)
  lessons l hl ref hr := hR ref (h.lessons l hl ref hr)
  tasks t ht ref hr := hR ref (h.tasks t ht ref hr)
  phase ref hr := hR ref (h.phase ref hr)
  entries e he ref hr := hR ref (h.entries e he ref hr)

/-- A state within a set is within a larger one. -/
theorem ContextCheckpoint.Within.mono {state : ContextCheckpoint} (h : state.Within R)
    (hR : ∀ ref, R ref → R' ref) : state.Within R' where
  context frame hf := (h.context frame hf).mono hR
  source pending hp := hR _ (h.source pending hp)
  allowed pending hp ref hr := hR ref (h.allowed pending hp ref hr)

/-- What is made unique has the same references. -/
theorem mem_uniqueRefs {refs : List String} {ref : String} : ref ∈ uniqueRefs refs ↔ ref ∈ refs := by
  have hfold (seen : List String) :
      ref ∈ refs.foldl (fun seen ref => if ref ∈ seen then seen else seen ++ [ref]) seen ↔
        ref ∈ seen ∨ ref ∈ refs := by
    induction refs generalizing seen with
    | nil => simp
    | cons r refs ih =>
      rw [List.foldl_cons, ih]
      split_ifs with hmem
      · constructor
        · rintro (h | h)
          · exact .inl h
          · exact .inr (List.mem_cons_of_mem r h)
        · rintro (h | h)
          · exact .inl h
          · rcases List.mem_cons.mp h with rfl | h
            · exact .inl hmem
            · exact .inr h
      · rw [List.mem_append, List.mem_singleton, List.mem_cons, or_assoc]
  rw [uniqueRefs, hfold]
  simp

/-- The sources of a summary of a frame are references of the frame. -/
theorem ContextFrameData.Within.sourceRefs {frame : ContextFrame} (h : frame.data.Within R) :
    ∀ ref ∈ sourceRefs frame, R ref := by
  intro ref hmem
  rw [Context.sourceRefs, mem_uniqueRefs] at hmem
  simp only [List.mem_append, List.mem_flatMap, List.mem_filter, Option.mem_toList] at hmem
  rcases hmem with (((hhistory | ⟨s, hs, hr⟩) | ⟨l, hl, hr⟩) | ⟨t, ht, hr⟩) | ⟨e, he, hr⟩
  · exact h.history ref hhistory.1
  · exact h.summary s hs ref hr
  · exact h.lessons l hl ref hr
  · exact h.tasks t ht ref hr
  · exact h.entries e he ref hr

/-- A summary that passes its check refers to what it may refer to. -/
theorem refs_of_validateSummary {summary : ContextSummary} {allowed : List String}
    (h : validateSummary summary (some allowed) = .ok ()) : ∀ ref ∈ summary.refs, ref ∈ allowed := by
  simp only [validateSummary, checkRefs, validateObservation, validateLesson, bind_eq_ok, exists_unit,
    forM_eq_ok, checkIfPresent, requireContext_eq_ok] at h
  obtain ⟨-, -, -, -, -, -, ⟨-, hsource⟩, ⟨-, hartifact⟩, hobs, hles⟩ := h
  intro ref hmem
  simp only [ContextSummary.refs, List.mem_append, List.mem_flatMap] at hmem
  rcases hmem with ((hs | ha) | ⟨o, ho, hr⟩) | ⟨l, hl, hr⟩
  · exact hsource ref hs
  · exact hartifact ref ha
  · exact (hobs o ho).2.1.2 ref hr
  · exact (hles l hl).2.2.2 ref hr

/-! ## Frames and contexts -/

/-- The active frame is within the set of its context. -/
theorem AgentContext.Within.active {context : AgentContext} (h : context.Within R) :
    (active context).data.Within R :=
  h _ (AgentContext.mem_frames_active context)

/-- The frames of a context after one was put are that one and frames that were there. -/
theorem mem_frames_replaceFrame {context context' : AgentContext} {frame f : ContextFrame}
    (hr : Context.replaceFrame context frame = .ok context') (hf : f ∈ frames context') :
    f = frame ∨ f ∈ frames context := by
  cases frame with
  | one f1 =>
    obtain rfl : { context with level1 := f1 } = context' := by simpa [Context.replaceFrame] using hr
    rcases List.mem_cons.mp hf with rfl | hmem
    · exact .inl rfl
    · exact .inr (List.mem_cons_of_mem _ hmem)
  | two f2 =>
    obtain rfl : { context with level2 := some f2 } = context' := by
      simpa [Context.replaceFrame] using hr
    rcases exists_mem_frames_iff.mp ⟨f, hf, rfl⟩ with rfl | ⟨g, hg, rfl⟩ | ⟨g, hg, rfl⟩
    · exact .inr List.mem_cons_self
    · obtain rfl := Option.some.inj hg
      exact .inl rfl
    · have hg : context.level3 = some g := hg
      exact .inr (by simp [frames, hg])
  | three f3 =>
    simp only [Context.replaceFrame, bind_eq_ok, exists_unit, pure_eq_ok] at hr
    obtain ⟨-, rfl⟩ := hr
    rcases exists_mem_frames_iff.mp ⟨f, hf, rfl⟩ with rfl | ⟨g, hg, rfl⟩ | ⟨g, hg, rfl⟩
    · exact .inr List.mem_cons_self
    · have hg : context.level2 = some g := hg
      exact .inr (by simp [frames, hg])
    · obtain rfl := Option.some.inj hg
      exact .inl rfl

/-- A context with other data in a frame. -/
theorem AgentContext.Within.replaceFrame {context context' : AgentContext} {frame : ContextFrame}
    (h : context.Within R) (hframe : frame.data.Within R)
    (hr : Context.replaceFrame context frame = .ok context') : context'.Within R := by
  intro f hf
  rcases mem_frames_replaceFrame hr hf with rfl | hold
  · exact hframe
  · exact h f hold

/-- Entries are appended to a frame. -/
theorem ContextFrameData.Within.withEntries {data : ContextFrameData} (h : data.Within R)
    {entries : List ContextEntry} (he : ∀ entry ∈ entries, ∀ ref ∈ entry.refs, R ref) :
    (data.withEntries entries).Within R where
  history := h.history
  summary := h.summary
  lessons := h.lessons
  tasks := h.tasks
  phase := h.phase
  entries entry hmem := by
    rcases List.mem_append.mp hmem with hold | hnew
    · exact h.entries entry hold
    · exact he entry hnew

/-- A frame gets another chain. -/
theorem ContextFrameData.Within.withChain {data : ContextFrameData} (h : data.Within R)
    {taskChain : ContextTaskChain} (htasks : ∀ task ∈ taskChain.tasks, ∀ ref ∈ task.state.refs, R ref)
    (hphase : ∀ ref ∈ taskChain.phase.refs, R ref) : { data with taskChain }.Within R :=
  ⟨h.history, h.summary, h.lessons, htasks, hphase, h.entries⟩

end Within

/-! ## Changes -/

/-- The state of a mutation is within `R` if the references of its records are. -/
def Mutation.Grounded (R : String → Prop) (m : Mutation) : Prop :=
  (∀ write ∈ m.writes, R write.ref) → m.state.Within R

section Changes

variable {R : String → Prop} {m : Mutation}

/-- The revision does not matter. -/
theorem Mutation.Grounded.withRevision (h : m.Grounded R) (revision : ℕ) :
    { m with state := { m.state with revision } }.Grounded R := fun hw =>
  ⟨(h hw).context, (h hw).source, (h hw).allowed⟩

/-- A frame is put whose references are in `R`. -/
theorem returns_putFrame_grounded {Q : Unit → Mutation → Prop} {frame : ContextFrame}
    (hm : m.Grounded R) (hframe : (∀ write ∈ m.writes, R write.ref) → frame.data.Within R)
    (h : ∀ context, { m with state := { m.state with context } }.Grounded R →
      Q () { m with state := { m.state with context } }) :
    Returns (putFrame frame) Q m := by
  simp only [putFrame, Returns, wp_bind, wp_draft, wp_lift, wp_assignContext, implies_true, and_true]
  intro context hcontext
  refine h context fun hw => ⟨?_, (hm hw).source, (hm hw).allowed⟩
  exact (hm hw).context.replaceFrame (hframe hw) hcontext

/-- New tasks wait. -/
theorem returns_newTasks_waiting {Q : List ContextTask → Mutation → Prop} (objectives : List String)
    (m : Mutation) (h : ∀ tasks created, (∀ task ∈ tasks, task.state = .waiting) →
      Q tasks { m with created }) :
    Returns (newTasks objectives) Q m := by
  induction objectives generalizing m Q with
  | nil => exact h [] m.created (fun _ h => (by cases h))
  | cons objective objectives ih =>
    simp only [newTasks, Returns, wp_bind, wp_nextId, wp_pure]
    refine ih _ fun tasks created htasks => h _ created ?_
    intro task hmem
    rcases List.mem_cons.mp hmem with rfl | hmem
    · rfl
    · exact htasks task hmem

/-- A summary may refer to what the active frame refers to, and to the record of its context. -/
theorem scheduleSummary_grounded (purpose : ContextSummaryPurpose) (reason : String)
    (hm : m.Grounded R) :
    Returns (scheduleSummary purpose reason) (fun _ m' => m'.Grounded R) m := by
  simp only [scheduleSummary, Returns, wp_bind, wp_draft, wp_lift, wp_archive, wp_nextId, wp_assign,
    implies_true, and_true]
  intro _ _ _ _ _ _ _ _ _ _ hw
  have hold := hm fun write hmem => hw write (List.mem_append_left _ hmem)
  have hsource : R ("context-history://" ++ m.createId m.created) :=
    hw _ (List.mem_append_right _ (List.mem_singleton.mpr rfl))
  refine ⟨hold.context, ?_, ?_⟩
  · rintro pending ⟨⟩
    exact hsource
  · rintro pending ⟨⟩ ref hmem
    rcases List.mem_cons.mp hmem with rfl | hmem
    · exact hsource
    · exact hold.context.active.sourceRefs ref hmem

/-- To install a plan keeps within the set. -/
theorem installPlan_grounded {frame : ContextFrame} (objectives : List String)
    (reason : Option String) (hm : m.Grounded R)
    (hframe : (∀ write ∈ m.writes, R write.ref) → frame.data.Within R) :
    Returns (installPlan frame objectives reason) (fun _ m' => m'.Grounded R) m := by
  simp only [installPlan, Returns, wp_bind, wp_archive]
  refine returns_newTasks_waiting objectives _ fun tasks created htasks => ?_
  refine returns_putFrame_grounded ?_ ?_ fun context h => h
  · exact fun hw => hm fun write hmem => hw write (List.mem_append_left _ hmem)
  · intro hw
    have hold := hframe fun write hmem => hw write (List.mem_append_left _ hmem)
    have hplan : R ("context-history://" ++ m.createId m.created) :=
      hw _ (List.mem_append_right _ (List.mem_singleton.mpr rfl))
    simp only [setChain, ContextFrame.withMemory, ContextFrame.data_withData]
    refine ⟨?_, hold.summary, hold.lessons, ?_, ?_, hold.entries⟩
    · rintro ref ⟨⟩
      exact hplan
    · intro task hmem ref hr
      rw [htasks task hmem] at hr
      cases hr
    · intro ref hr
      cases reason with
      | none => cases hr
      | some reason =>
        obtain rfl := List.mem_singleton.mp hr
        exact hplan

/-- To advance a frame keeps within the set. -/
theorem advance_grounded {frame : ContextFrame} (hm : m.Grounded R)
    (hframe : (∀ write ∈ m.writes, R write.ref) → frame.data.Within R) :
    Returns (advance frame) (fun _ m' => m'.Grounded R) m := by
  simp only [advance, Returns, wp_bind, wp_lift, implies_true, and_true]
  intro _ _ next _
  -- The parent notes that its next task runs, and its references are the old ones.
  refine returns_putFrame_grounded hm ?_ fun context hcontext => ?_
  · intro hw
    have hold := hframe hw
    simp only [setChain, ContextFrame.data_withData]
    refine hold.withChain ?_ (fun _ h => (by cases h))
    intro task htask ref hr
    obtain ⟨old, hmem, rfl⟩ := List.mem_map.mp htask
    split_ifs at hr
    · cases hr
    · exact hold.tasks old hmem ref hr
  · simp only [wp_nextId, wp_draft, wp_assignContext]
    intro hw
    have hold := hframe hw
    -- The child starts without references.
    have hchild (id taskId : String) (budget : ContextBudget) :
        (childFrame frame id taskId budget).1.Within R :=
      ⟨hold.history, hold.summary, fun _ h => (by cases h), fun _ h => (by cases h),
        fun _ h => (by cases h), hold.entries⟩
    refine ⟨?_, (hcontext hw).source, (hcontext hw).allowed⟩
    -- The frames are those of the parent, and the child at the level below.
    intro f hf
    cases frame with
    | one f1 =>
      rcases exists_mem_frames_iff.mp ⟨f, hf, rfl⟩ with rfl | ⟨g, hg, rfl⟩ | ⟨g, hg, rfl⟩
      · exact (hcontext hw).context _ List.mem_cons_self
      · obtain rfl := Option.some.inj hg
        exact hchild (m.createId m.created) next.id _
      · cases hg
    | two f2 =>
      rcases exists_mem_frames_iff.mp ⟨f, hf, rfl⟩ with rfl | ⟨g, hg, rfl⟩ | ⟨g, hg, rfl⟩
      · exact (hcontext hw).context _ List.mem_cons_self
      · have hg : context.level2 = some g := hg
        exact (hcontext hw).context _ (by simp [frames, hg])
      · obtain rfl := Option.some.inj hg
        exact hchild (m.createId m.created) next.id _
    | three f3 => exact (hcontext hw).context f hf

/-- A finished step refers to what its frame refers to. -/
theorem completeStep_grounded {frame : ContextFrame} (result : ContextSummary) (hm : m.Grounded R)
    (hframe : (∀ write ∈ m.writes, R write.ref) → frame.data.Within R) :
    Returns (completeStep frame result) (fun _ m' => m'.Grounded R) m := by
  simp only [completeStep, Returns, wp_bind, wp_lift, implies_true, and_true]
  intro _ _ _ hvalid
  refine returns_putFrame_grounded hm ?_ fun context h => h
  intro hw
  have hold := hframe hw
  simp only [setChain, ContextFrame.data_withData]
  refine hold.withChain ?_ (fun _ h => (by cases h))
  intro task htask ref hr
  obtain ⟨old, hmem, rfl⟩ := List.mem_map.mp htask
  split_ifs at hr
  · exact hold.sourceRefs ref (refs_of_validateSummary hvalid ref hr)
  · exact hold.tasks old hmem ref hr

/-- A replaced chain refers to what it referred to. -/
theorem refs_replaced {reason : String} {chain : ContextTaskChain}
    (h : ∀ task ∈ chain.tasks, ∀ ref ∈ task.state.refs, R ref) :
    ∀ task ∈ (chain.replaced reason).tasks, ∀ ref ∈ task.state.refs, R ref := by
  intro task hmem ref hr
  obtain ⟨old, hold, rfl⟩ := List.mem_map.mp hmem
  unfold ContextTask.replaced at hr
  split at hr
  · cases hr
  · cases hr
  · exact h old hold ref hr

/-- To take a decision keeps within the set. -/
theorem takeDecision_grounded {state : ContextCheckpoint} (createId : ℕ → String)
    (decision : ContextDecision) {entries : List ContextEntry} (hs : state.Within R)
    (he : ∀ entry ∈ entries, ∀ ref ∈ entry.refs, R ref) :
    Returns (takeDecision ((active state.context).withData
        ((active state.context).data.withEntries entries)) decision)
      (fun _ m => m.Grounded R) (state.decisionMutation createId entries) := by
  have hdata := hs.context.active.withEntries he
  -- The entries of the round bring references that are grounded.
  have hm : (state.decisionMutation createId entries).Grounded R := by
    refine fun _ => ⟨?_, hs.source, hs.allowed⟩
    intro f hf
    rcases AgentContext.mem_frames_withActive hf with rfl | hold
    · rwa [ContextFrame.data_withData]
    · exact hs.context f hold
  have hframe : ((active state.context).withData
      ((active state.context).data.withEntries entries)).data.Within R := by
    rwa [ContextFrame.data_withData]
  -- By the decision; only a plan and a summary bring further records.
  cases decision with
  | plan objectives =>
    simp only [takeDecision, Returns, wp_bind, wp_lift, implies_true, and_true]
    exact fun _ _ _ _ => installPlan_grounded _ _ hm fun _ => hframe
  | replan objectives reason =>
    simp only [takeDecision, Returns, wp_bind, wp_lift, implies_true, and_true]
    intro _ _ _ _
    refine returns_putFrame_grounded hm ?_ fun context h =>
      installPlan_grounded _ _ h fun _ => hframe
    intro _
    simp only [setChain, ContextFrame.data_withData]
    exact hdata.withChain (refs_replaced hdata.tasks) (fun _ h => (by cases h))
  | advance => exact advance_grounded hm fun _ => hframe
  | stepCompleted result => exact completeStep_grounded result hm fun _ => hframe
  | interrupt reason =>
    simp only [takeDecision, Returns, wp_bind, wp_lift, implies_true, and_true]
    exact fun _ _ => scheduleSummary_grounded _ _ hm
  | complete => exact scheduleSummary_grounded _ _ hm
  | compact => exact scheduleSummary_grounded _ _ hm
  | idle => exact scheduleSummary_grounded _ _ hm
  | finishTurn =>
    simp only [takeDecision, Returns, wp_bind, wp_draft, wp_lift, wp_assign, implies_true, and_true]
    exact fun _ _ hw => ⟨(hm hw).context, (hm hw).source, (hm hw).allowed⟩
  | «continue» =>
    rw [takeDecision, Returns, wp_assign]
    exact fun hw => ⟨(hm hw).context, (hm hw).source, (hm hw).allowed⟩
  | wait =>
    rw [takeDecision, Returns, wp_assign]
    exact fun hw => ⟨(hm hw).context, (hm hw).source, (hm hw).allowed⟩

/-- To apply a round keeps within the set. -/
theorem applyRound_grounded {state : ContextCheckpoint} (createId : ℕ → String)
    (cursor : ContextCursor) (decision : ContextDecision) {entries : List ContextEntry}
    (hlower : state.context.Lower) (hs : state.Within R)
    (he : ∀ entry ∈ entries, ∀ ref ∈ entry.refs, R ref) :
    Returns (applyRound cursor decision entries) (fun _ m => m.Grounded R)
      (state.mutation createId) := by
  simp only [applyRound, Returns, wp_bind, wp_draft, wp_lift, implies_true, and_true]
  intro _ _ _ _
  refine wp_mono (returns_applyDecision decision entries hlower fun _ =>
    takeDecision_grounded createId decision hs he) ?_ (fun _ _ h => h)
  intro _ m h
  simp only [wp_archive, wp_pure]
  intro hw
  have hold := h fun write hmem => hw write (List.mem_append_left _ hmem)
  exact ⟨hold.context, hold.source, hold.allowed⟩

/-! ## The inbox, summaries and budgets -/

/-- A reference to a delivery is no source. -/
theorem refs_staleEntry (sha256 : String → String) (id : String) (delivery : ContextDelivery) :
    (staleEntry sha256 id delivery).refs = [] := by
  simp [staleEntry, ContextEntry.refs, eventRefs]

/-- The entries of a delivery have its references. -/
theorem returns_deliveryEntries_refs {Q : List ContextEntry → Mutation → Prop}
    (sha256 : String → String) (target : Option ContextFrame) {delivery : ContextDelivery}
    (hd : ∀ entry ∈ delivery.entries, ∀ ref ∈ entry.refs, R ref)
    (h : ∀ entries created, (∀ entry ∈ entries, ∀ ref ∈ entry.refs, R ref) →
      Q entries { m with created }) :
    Returns (deliveryEntries sha256 target delivery) Q m := by
  cases target with
  | some frame => exact h delivery.entries m.created hd
  | none =>
    simp only [deliveryEntries, Returns, wp_bind, wp_nextId, wp_pure]
    refine h _ _ fun entry hmem ref hr => ?_
    rw [List.mem_singleton.mp hmem, refs_staleEntry] at hr
    cases hr

/-- To move deliveries into frames keeps within the set. -/
theorem drainDeliveries_grounded (sha256 : String → String) (deliveries : List ContextDelivery)
    (hm : m.Grounded R)
    (hd : ∀ d ∈ deliveries, ∀ entry ∈ d.entries, ∀ ref ∈ entry.refs, R ref) :
    Returns (drainDeliveries sha256 deliveries) (fun _ m' => m'.Grounded R) m := by
  -- Along the deliveries: each adds entries of its own references to one frame.
  induction deliveries generalizing m with
  | nil => exact hm
  | cons delivery rest ih =>
    have hrest := fun d hmem => hd d (List.mem_cons_of_mem delivery hmem)
    simp only [drainDeliveries, Returns, wp_bind, wp_draft, wp_ite]
    split_ifs with hid
    · exact ih hm hrest
    · refine returns_deliveryEntries_refs sha256 _ (hd delivery List.mem_cons_self)
        fun entries created hentries => ?_
      -- The frame is one of the context.
      have hmem : (deliveryTarget m.state.context delivery).getD (.one m.state.context.level1) ∈
          frames m.state.context := by
        cases ht : deliveryTarget m.state.context delivery with
        | some frame => exact (deliveryTarget_eq_some ht).1
        | none => exact List.mem_cons_self
      have hframe (hw : ∀ write ∈ m.writes, R write.ref) :
          (((deliveryTarget m.state.context delivery).getD (.one m.state.context.level1)).withEntries
            entries).data.Within R := by
        simp only [ContextFrame.withEntries, ContextFrame.withMemory, ContextFrame.data_withData]
        exact ((hm hw).context _ hmem).withEntries hentries
      -- It is not absorbed, or it is and the loop ends, or it is and the loop goes on.
      split_ifs with hlarge hcompact
      · simp only [wp_lift, wp_pure, implies_true, and_true]
        exact fun _ _ => scheduleSummary_grounded _ _ hm
      · refine returns_putFrame_grounded hm hframe fun context h => ?_
        simp only [wp_assign, wp_pure]
        exact scheduleSummary_grounded _ _ fun hw => ⟨(h hw).context, (h hw).source, (h hw).allowed⟩
      · refine returns_putFrame_grounded hm hframe fun context h => ?_
        rw [wp_assign]
        exact ih (fun hw => ⟨(h hw).context, (h hw).source, (h hw).allowed⟩) hrest

/-- To drain the inbox keeps within the set. -/
theorem drainInbox_grounded (sha256 : String → String) {state : ContextCheckpoint}
    (createId : ℕ → String) (hs : state.Within R)
    (hd : ∀ d ∈ state.inbox, ∀ entry ∈ d.entries, ∀ ref ∈ entry.refs, R ref) :
    Returns (drainInbox sha256) (fun _ m => m.Grounded R) (state.mutation createId) := by
  simp only [drainInbox, Returns, wp_bind, wp_draft, wp_ite, wp_pure]
  split_ifs
  · exact fun _ => hs
  · refine wp_mono (drainDeliveries_grounded sha256 _ (fun _ => hs) hd) ?_ (fun _ _ h => h)
    intro ended m hm
    split_ifs
    · exact hm
    · exact scheduleSummary_grounded _ _ hm
    · exact hm

/-- A compacted result refers to what it referred to, or to the sealed context. -/
theorem refs_compact {source : String} {task : ContextTask} (hsource : R source)
    (h : ∀ ref ∈ task.state.refs, R ref) : ∀ ref ∈ (task.compact source).state.refs, R ref := by
  have hresult (result : ContextSummary) (hr : ∀ ref ∈ result.refs, R ref) :
      ∀ ref ∈ (compactResult source result).refs, R ref := by
    unfold compactResult
    split_ifs with hshort
    · exact hr
    · intro ref hmem
      simp only [ContextSummary.refs, ContextSummary.only, List.flatMap_nil, List.append_nil,
        List.mem_singleton] at hmem
      rwa [hmem]
  obtain ⟨definition, state⟩ := task
  cases state with
  | completed result => exact hresult result h
  | interrupted reason partialResult =>
    cases partialResult with
    | none => exact h
    | some result => exact hresult result h
  | _ => exact h

/-- A compacted frame is within the set. -/
theorem within_compactedFrame {frame : ContextFrame} {summary : ContextSummary}
    {historyRef source : String} (h : frame.data.Within R) (hsummary : ∀ ref ∈ summary.refs, R ref)
    (hhistory : R historyRef) (hsource : R source) :
    (compactedFrame frame summary historyRef source).data.Within R := by
  -- What compaction keeps of the data was within the set.
  have hdata {data : ContextFrameData} (hd : data.Within R) : ({ data with
      memory := { data.memory with
        summary := some summary, recentEntries := [], historyRef := some historyRef } } :
        ContextFrameData).Within R := by
    refine ⟨?_, ?_, hd.lessons, hd.tasks, hd.phase, fun _ h => (by cases h)⟩
    · rintro ref ⟨⟩
      exact hhistory
    · rintro s ⟨⟩
      exact hsummary
  -- A settled plan is emptied; of another the results of its tasks are shortened.
  by_cases hsettled : frame.data.taskChain.settled = true
  · simp only [compactedFrame, hsettled, if_true, setChain, ContextFrame.withMemory,
      ContextFrame.data_withData]
    have hchain : ({ frame.data with
        taskChain := emptyChain frame.data.taskChain.revision } : ContextFrameData).Within R :=
      h.withChain (by simp [emptyChain]) (by simp [emptyChain, ContextPhase.refs])
    exact hdata hchain
  · simp only [compactedFrame, hsettled, Bool.false_eq_true, if_false, setChain,
      ContextFrame.withMemory, ContextFrame.data_withData]
    have hchain : ({ frame.data with
        taskChain := { frame.data.taskChain with
          tasks := frame.data.taskChain.tasks.map (·.compact source) } } :
        ContextFrameData).Within R := by
      refine h.withChain ?_ h.phase
      intro task hmem
      obtain ⟨old, hold, rfl⟩ := List.mem_map.mp hmem
      exact refs_compact hsource (h.tasks old hold)
    exact hdata hchain

/-- A task ends with a result whose references are in `R`. -/
theorem refs_endTask {taskId : String} {taskState : ContextTaskState}
    {tasks tasks' : List ContextTask} (hstate : ∀ ref ∈ taskState.refs, R ref)
    (h : ∀ task ∈ tasks, ∀ ref ∈ task.state.refs, R ref)
    (hend : endTask taskId taskState tasks = .ok tasks') :
    ∀ task ∈ tasks', ∀ ref ∈ task.state.refs, R ref := by
  induction tasks generalizing tasks' with
  | nil =>
    obtain rfl : [] = tasks' := by simpa [endTask] using hend
    intro _ h
    cases h
  | cons task tasks ih =>
    have hrest (rest : List ContextTask) (hok : endTask taskId taskState tasks = .ok rest) :=
      ih (fun t ht => h t (List.mem_cons_of_mem _ ht)) hok
    rw [endTask] at hend
    split_ifs at hend with hid
    · simp only [bind_eq_ok, pure_eq_ok] at hend
      obtain ⟨_, rfl, rest, hok, rfl⟩ := hend
      exact List.forall_mem_cons.mpr ⟨h _ List.mem_cons_self, hrest rest hok⟩
    · simp only [bind_eq_ok, exists_unit, pure_eq_ok] at hend
      obtain ⟨-, _, rfl, rest, hok, rfl⟩ := hend
      exact List.forall_mem_cons.mpr ⟨hstate, hrest rest hok⟩

/-- A parent that is released is within the set. -/
theorem within_releasedParent {parent : Option ContextFrameData} {task : ContextTaskRef}
    {taskState : ContextTaskState} {data : ContextFrameData}
    (hstate : ∀ ref ∈ taskState.refs, R ref) (h : ∀ p ∈ parent, p.Within R)
    (hr : releasedParent parent task taskState = .ok data) : data.Within R := by
  simp only [releasedParent, bind_eq_ok, requirePresent_eq_ok, pure_eq_ok] at hr
  obtain ⟨old, hold, tasks, htasks, rfl⟩ := hr
  have hdata := h old (Option.eq_some_of_filter_eq_some hold)
  exact hdata.withChain (refs_endTask hstate hdata.tasks htasks) (fun _ h => (by cases h))

/-- A context whose frame was released is within the set. -/
theorem within_releaseFrame {context context' : AgentContext} {frame : ContextFrame}
    {taskState : ContextTaskState} (h : context.Within R) (hstate : ∀ ref ∈ taskState.refs, R ref)
    (hr : releaseFrame context frame taskState = .ok context') : context'.Within R := by
  intro f hf
  cases frame with
  | one f1 => cases hr
  | two f2 =>
    simp only [releaseFrame, bind_eq_ok, pure_eq_ok] at hr
    obtain ⟨data, hdata, rfl⟩ := hr
    have hroot := within_releasedParent hstate (by
      rintro p ⟨⟩
      exact h _ List.mem_cons_self) hdata
    rcases exists_mem_frames_iff.mp ⟨f, hf, rfl⟩ with rfl | ⟨g, hg, rfl⟩ | ⟨g, hg, rfl⟩
    · exact hroot
    · cases hg
    · cases hg
  | three f3 =>
    simp only [releaseFrame, bind_eq_ok, pure_eq_ok] at hr
    obtain ⟨data, hdata, rfl⟩ := hr
    have hparent := within_releasedParent hstate (by
      intro p hp
      obtain ⟨g, hg, rfl⟩ := Option.map_eq_some_iff.mp hp
      exact h (.two g) (by simp [frames, hg])) hdata
    rcases exists_mem_frames_iff.mp ⟨f, hf, rfl⟩ with rfl | ⟨g, hg, rfl⟩ | ⟨g, hg, rfl⟩
    · exact h _ List.mem_cons_self
    · obtain ⟨old, -, rfl⟩ := Option.map_eq_some_iff.mp hg
      exact hparent
    · cases hg

/-- A summary of a model brings no reference of its own. -/
theorem integrateSummary_grounded {state : ContextCheckpoint} (createId : ℕ → String) (id : String)
    (summary : ContextSummary) (hs : state.Within R) :
    Returns (integrateSummary id summary) (fun _ m => m.Grounded R ∧ ∀ ref ∈ summary.refs, R ref)
      (state.mutation createId) := by
  simp only [integrateSummary, Returns, wp_bind, wp_draft, wp_lift, wp_nextId, wp_pushWrite,
    wp_ite, wp_assign, wp_assignContext, requirePresent_eq_ok, implies_true, and_true]
  intro pending hpending _ _ _ hvalid _ _ _ _ _ _
  have hmem : pending ∈ state.pendingSummary := Option.eq_some_of_filter_eq_some hpending
  have hrefs : ∀ ref ∈ summary.refs, R ref := fun ref hr =>
    hs.allowed pending hmem ref (refs_of_validateSummary hvalid ref hr)
  split_ifs
  · refine returns_putFrame_grounded (fun _ => hs) ?_ fun context h _ _ =>
      ⟨fun hw => ⟨(h hw).context, fun _ h => (by cases h), fun _ h => (by cases h)⟩, hrefs⟩
    intro hw
    exact within_compactedFrame hs.context.active hrefs
      (hw _ (List.mem_append_right _ (List.mem_singleton.mpr rfl))) (hs.source pending hmem)
  · intro context hcontext _ _
    refine ⟨fun _ => ⟨within_releaseFrame hs.context ?_ hcontext, fun _ h => (by cases h),
      fun _ h => (by cases h)⟩, hrefs⟩
    unfold ContextSummaryPurpose.outcome
    split_ifs
    · exact hrefs
    · exact hrefs

/-- To set the budgets of frames keeps within the set. -/
theorem putBudgets_grounded (budget : ContextBudget) (fs : List ContextFrame)
    (hm : m.Grounded R) (hf : ∀ frame ∈ fs, frame.data.Within R) :
    Returns (fs.forM fun frame => putFrame (frame.withBudget budget))
      (fun _ m' => m'.Grounded R) m := by
  induction fs generalizing m with
  | nil => exact hm
  | cons frame fs ih =>
    show wp (putFrame (frame.withBudget budget) >>= fun _ =>
      fs.forM fun frame => putFrame (frame.withBudget budget)) _ _ m
    rw [wp_bind]
    refine returns_putFrame_grounded hm (fun _ => ?_) fun context h =>
      ih h fun f hmem => hf f (List.mem_cons_of_mem _ hmem)
    have hold := hf frame List.mem_cons_self
    rw [ContextFrame.withBudget, ContextFrame.data_withData]
    exact ⟨hold.history, hold.summary, hold.lessons, hold.tasks, hold.phase, hold.entries⟩

/-- To set the budgets keeps within the set. -/
theorem setBudgets_grounded {state : ContextCheckpoint} (createId : ℕ → String)
    (budget : ContextBudget) (hs : state.Within R) :
    Returns (setBudgets budget) (fun _ m => m.Grounded R) (state.mutation createId) := by
  simp only [setBudgets, Returns, wp_bind, wp_assign, wp_draft]
  refine wp_mono (putBudgets_grounded budget _ (fun _ => ⟨hs.context, hs.source, hs.allowed⟩)
    fun frame hf => hs.context frame hf) ?_ (fun _ _ h => h)
  intro _ m hm
  cases hpending : m.state.pendingSummary with
  | none => exact hm
  | some old =>
    simp only [wp_bind, wp_archive, wp_assign]
    intro hw
    have hold := hm fun write hmem => hw write (List.mem_append_left _ hmem)
    have hsource : R ("context-history://" ++ m.createId m.created) :=
      hw _ (List.mem_append_right _ (List.mem_singleton.mpr rfl))
    refine ⟨hold.context, ?_, ?_⟩
    · rintro pending ⟨⟩
      exact hsource
    · rintro pending ⟨⟩ ref hmem
      rcases List.mem_append.mp hmem with hmem | hmem
      · exact hold.allowed old hpending ref hmem
      · rw [List.mem_singleton.mp hmem]
        exact hsource

/-- The result of a step brings no reference of its own. -/
theorem applyRound_refs {state : ContextCheckpoint} (createId : ℕ → String) (cursor : ContextCursor)
    (result : ContextSummary) {entries : List ContextEntry} (hlower : state.context.Lower)
    (hs : state.Within R) (he : ∀ entry ∈ entries, ∀ ref ∈ entry.refs, R ref) :
    Returns (applyRound cursor (.stepCompleted result) entries)
      (fun _ _ => ∀ ref ∈ result.refs, R ref) (state.mutation createId) := by
  simp only [applyRound, Returns, wp_bind, wp_draft, wp_lift, implies_true, and_true]
  intro _ _ _ _
  refine wp_mono (returns_applyDecision (.stepCompleted result) entries hlower fun _ => ?_)
    (fun _ _ h => by simpa only [wp_archive, wp_pure] using h) (fun _ _ h => h)
  simp only [takeDecision, completeStep, Returns, wp_bind, wp_lift, implies_true, and_true]
  intro _ _ _ hvalid
  refine returns_putFrame _ fun context ref hr => ?_
  have hdata : ((active state.context).withData
      ((active state.context).data.withEntries entries)).data.Within R := by
    rw [ContextFrame.data_withData]
    exact hs.context.active.withEntries he
  exact hdata.sourceRefs ref (refs_of_validateSummary hvalid ref hr)

/-- Every change of an operation keeps within the set. -/
theorem Operation.Makes.grounded {sha256 : String → String} {state : ContextCheckpoint}
    {op : Operation} {change : Change Unit} {receiptKeys : List String}
    (h : op.Makes sha256 state change receiptKeys) (hlower : state.context.Lower)
    (createId : ℕ → String) (hs : state.Within R)
    (hinbox : ∀ d ∈ state.inbox, ∀ entry ∈ d.entries, ∀ ref ∈ entry.refs, R ref)
    (he : ∀ entry ∈ op.entries, ∀ ref ∈ entry.refs, R ref) :
    Returns change (fun _ m => m.Grounded R) (state.mutation createId) := by
  -- What is accepted is put into the inbox, and not into the context.
  have accept (fresh : List ContextDelivery) : Returns (acceptDeliveries sha256 fresh)
      (fun _ m => m.Grounded R) (state.mutation createId) := by
    simp only [acceptDeliveries, Returns, wp_bind, wp_assign, wp_modify]
    exact fun _ => ⟨hs.context, hs.source, hs.allowed⟩
  -- By the change that the operation makes.
  cases h with
  | receive => exact accept _
  | receiveAvailable => exact accept _
  | prepare => exact drainInbox_grounded sha256 createId hs hinbox
  | apply => exact applyRound_grounded createId _ _ hlower hs he
  | beginSummaryAttempt =>
    simp only [countAttempt, Returns, wp_bind, wp_draft, wp_lift, wp_assign, requirePresent_eq_ok,
      implies_true, and_true]
    intro old hold _ _ _
    exact ⟨hs.context, by rintro _ ⟨⟩; exact hs.source old hold,
      by rintro _ ⟨⟩; exact hs.allowed old hold⟩
  | configureBudget => exact setBudgets_grounded createId _ hs
  | retrySummary =>
    simp only [resetAttempts, Returns, wp_assign]
    refine fun _ => ⟨hs.context, ?_, ?_⟩
    · intro pending hp
      obtain ⟨old, hold, rfl⟩ := Option.map_eq_some_iff.mp hp
      exact hs.source old hold
    · intro pending hp
      obtain ⟨old, hold, rfl⟩ := Option.map_eq_some_iff.mp hp
      exact hs.allowed old hold
  | failSummary =>
    simp only [recordFailure, Returns, wp_bind, wp_draft, wp_lift, wp_assign, requirePresent_eq_ok,
      implies_true, and_true]
    intro old hold _
    have hmem : old ∈ state.pendingSummary := Option.eq_some_of_filter_eq_some hold
    exact ⟨hs.context, by rintro _ ⟨⟩; exact hs.source old hmem,
      by rintro _ ⟨⟩; exact hs.allowed old hmem⟩
  | commitSummaryPhase =>
    exact wp_mono (integrateSummary_grounded createId _ _ hs) (fun _ _ h => h.1) (fun _ _ h => h)
  | acknowledgeRound => exact fun _ => hs
  | commitSummary =>
    exact wp_mono (integrateSummary_grounded createId _ _ hs) (fun _ _ h => h.1) (fun _ _ h => h)

end Changes

/-! ## Runs -/

/-- A reference is that of a committed record, or it occurs in a delivery that was accepted or in an
entry that was applied. -/
inductive Chronicle.Grounds (t : Chronicle) (ref : String) : Prop
  | committed (write : ContextStoreWrite) (h : write ∈ t.session.store.records.entries)
    (href : write.ref = ref)
  | accepted (delivery : ContextDelivery) (h : delivery ∈ t.accepted) (entry : ContextEntry)
    (he : entry ∈ delivery.entries) (href : ref ∈ entry.refs)
  | applied (entry : ContextEntry) (h : entry ∈ t.applied) (href : ref ∈ entry.refs)

/-- The summary of a model that an operation takes. -/
def Operation.summary : Operation → Option ContextSummary
  | .apply _ _ (.stepCompleted result) _ => some result
  | .commitSummaryPhase _ _ summary | .commitSummary _ _ summary => some summary
  | _ => none

section Runs

variable (sha256 : String → String) {allowed : Chronicle → Surroundings → Operation → Prop}

/-- What was grounded stays grounded. -/
theorem Chronicle.Grounds.after {t : Chronicle} {ref : String} (h : t.Grounds ref) (op : Operation)
    {s' : Session} (hrecords : t.session.store.records.entries <+: s'.store.records.entries) :
    (t.after op s').Grounds ref := by
  cases h with
  | committed write h href => exact .committed write (hrecords.subset h) href
  | accepted d h entry he href => exact .accepted d (List.mem_append_left _ h) entry he href
  | applied entry h href => exact .applied entry (List.mem_append_left _ h) href

/-- A commit counts the revision up. -/
theorem Committed.revision {env : Surroundings} {change : Change Unit} {receiptKeys : List String}
    {s s' : Session} (h : Committed env change receiptKeys s s') :
    s'.state.revision = s.state.revision + 1 := by
  obtain ⟨-, m, -, hcommit, hstate⟩ := h
  simp only [Namespace.commit, bind_eq_ok, exists_unit, requireContext_eq_ok, Option.map_some,
    Option.getD_some] at hcommit
  rw [hstate]
  exact hcommit.2.1

/-- The inbox holds what was accepted. -/
theorem grounds_inbox {t : Chronicle} (h : (chronicles sha256 allowed).Reachable t) :
    ∀ d ∈ t.state.inbox, ∀ entry ∈ d.entries, ∀ ref ∈ entry.refs, t.Grounds ref :=
  fun d hd entry he _ hr =>
    .accepted d ((conserved_of_reachable sha256 h).inbox_accepted hd) entry he hr

/-- In every chronicle the references are within what is grounded. -/
theorem within_of_reachable {t : Chronicle} (h : (chronicles sha256 allowed).Reachable t) :
    t.state.Within t.Grounds := by
  -- Along the operations: a new context has no references, and each change is grounded.
  refine TransitionSystem.Reachable.invariant (P := fun t => t.state.Within t.Grounds) ?_ ?_ h
  · rintro _ ⟨env, options, s, hcreate, rfl⟩
    simp only [createAgentContextManager, bind_eq_ok, exists_unit, pure_eq_ok] at hcreate
    obtain ⟨-, -, -, -, -, -, store, -, rfl⟩ := hcreate
    refine ⟨?_, fun _ h => (by cases h), fun _ h => (by cases h)⟩
    intro frame hf
    obtain rfl := List.mem_singleton.mp hf
    exact ⟨fun _ h => (by cases h), fun _ h => (by cases h), fun _ h => (by cases h),
      fun _ h => (by cases h), fun _ h => (by cases h), fun _ h => (by cases h)⟩
  · rintro t _ ht hw (⟨env, op, -, rfl⟩ | ⟨env, s, hrestore, rfl⟩)
    · have hd := durable_session sha256 ht
      refine wp_finalState (P := fun s' : Session => s'.state.Within (t.after op s').Grounds) ?_
      refine wp_mono (wp_and (perform_commits sha256 env op t.session)
        (perform_records sha256 hd env op)) ?_ ?_
      · rintro _ s' ⟨rfl | hc, hrecords⟩
        · exact hw.mono fun ref hr => hr.after op hrecords
        · -- A commit counts the revision, so the records and entries of the operation are noted.
          obtain ⟨change, receiptKeys, hmakes, hcommitted⟩ := hc
          have hne : s'.state.revision ≠ t.state.revision := by
            rw [hcommitted.revision]
            exact Nat.succ_ne_self _
          obtain ⟨-, m, hm, hcommit, hstate⟩ := hcommitted
          have hafter : ∀ ref, t.Grounds ref → (t.after op s').Grounds ref :=
            fun ref hr => hr.after op hrecords
          have hentries : ∀ entry ∈ op.entries, ∀ ref ∈ entry.refs,
              (t.after op s').Grounds ref := by
            intro entry hmem ref hr
            refine .applied entry (List.mem_append_right _ ?_) hr
            rwa [if_neg hne]
          obtain ⟨hgrounded, -⟩ := prepared hm (hmakes.grounded hd.lower env.createId
            (hw.mono hafter)
            (fun d hd entry he ref hr => hafter ref (grounds_inbox sha256 ht d hd entry he ref hr))
            hentries) fun _ revision h => h.withRevision revision
          rw [hstate]
          -- What the change writes is in the store afterwards.
          refine hgrounded fun write hmem => .committed write ?_ rfl
          show write ∈ s'.store.records.entries
          rw [(commit_appended hcommit).records]
          exact List.mem_append_right _ hmem
      · rintro _ s' ⟨rfl, hrecords⟩
        exact hw.mono fun ref hr => hr.after op hrecords
    · rwa [(durable_session sha256 ht).restored hrestore]

/-- A summary that an operation takes refers to nothing but what was grounded before, or occurs in the
entries of the operation. -/
theorem grounds_summary {t : Chronicle} (h : (chronicles sha256 allowed).Reachable t)
    {env : Surroundings} {op : Operation} {s' : Session}
    (hperform : op.perform sha256 env t.session = .ok () s') (hne : s' ≠ t.session) :
    ∀ summary ∈ op.summary, ∀ ref ∈ summary.refs,
      t.Grounds ref ∨ ∃ entry ∈ op.entries, ref ∈ entry.refs := by
  have hs : t.state.Within fun ref => t.Grounds ref ∨ ∃ entry ∈ op.entries, ref ∈ entry.refs :=
    (within_of_reachable sha256 h).mono fun _ hr => .inl hr
  have hlower := (durable_session sha256 h).lower
  obtain ⟨change, receiptKeys, hmakes, -, m, hm, -⟩ :=
    (wp_ok (perform_commits sha256 env op t.session) hperform).resolve_left hne
  intro summary hmem ref hr
  cases hmakes with
  | @apply roundKey cursor decision entries =>
    cases decision with
    | stepCompleted result =>
      obtain rfl := Option.some.inj hmem
      exact (prepared hm (applyRound_refs env.createId cursor result hlower hs
        fun entry he ref hr => .inr ⟨entry, he, hr⟩) fun _ _ h => h).1 ref hr
    | _ => cases hmem
  | commitSummaryPhase =>
    obtain rfl := Option.some.inj hmem
    exact (prepared hm (wp_mono (integrateSummary_grounded env.createId _ _ hs)
      (fun _ _ h => h.2) (fun _ _ h => h)) fun _ _ h => h).1 ref hr
  | commitSummary =>
    obtain rfl := Option.some.inj hmem
    exact (prepared hm (wp_mono (integrateSummary_grounded env.createId _ _ hs)
      (fun _ _ h => h.2) (fun _ _ h => h)) fun _ _ h => h).1 ref hr
  | _ => cases hmem

/-- Every reference that a state stores is grounded, and no summary of a model brings another. -/
theorem grounded_of_reachable {t : Chronicle}
    (h : (chronicles sha256 fun _ _ _ => True).Reachable t) :
    t.state.Within t.Grounds ∧
      ∀ (env : Surroundings) (op : Operation) (s' : Session),
        op.perform sha256 env t.session = .ok () s' → s' ≠ t.session →
          ∀ summary ∈ op.summary, ∀ ref ∈ summary.refs,
            t.Grounds ref ∨ ∃ entry ∈ op.entries, ref ∈ entry.refs :=
  ⟨within_of_reachable sha256 h,
    fun _ _ _ hperform hne => grounds_summary sha256 h hperform hne⟩

end Runs

/-- The references of two frames with plans and messages are grounded. -/
theorem grounded_crossing : ∃ s, spacious = .ok s ∧
    ((Chronicle.begin s).run crossing).state.Within ((Chronicle.begin s).run crossing).Grounds := by
  obtain ⟨s, hcreated, -⟩ := exists_of_ifCreated crossed
  exact ⟨s, hcreated,
    (grounded_of_reachable id (reachable_run (.of_init ⟨_, _, s, hcreated, rfl⟩))).1⟩

end OsAgent.Context
