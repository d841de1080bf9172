import OsAgent.AgentContext.Decisions
import OsAgent.AgentContext.Validity

/-!
# Replacing the active frame

Decisions and deliveries change the active frame only. `withActive` is the context with other data in
its active frame, and `WellFormed.withActive` says what new data must satisfy for the context to stay
well-formed: the checks of the frame itself, the same identities, and a size within the budget.
`archivedContext` is the context that a plan archives before it replaces the chain; it is well-formed
exactly if the archived frame is within its budget.
-/

namespace OsAgent.Context

open OsAgent.Library

namespace AgentContext

/-- There is a third level only below a second one. -/
def Lower (context : AgentContext) : Prop := context.level2.isSome ∨ context.level3.isNone

/-- The context with other data in its active frame. -/
def withActive (context : AgentContext) (data : ContextFrameData) : AgentContext :=
  match context.level3, context.level2 with
  | some frame, _ => { context with level3 := some { frame with toContextFrameData := data } }
  | none, some frame => { context with level2 := some { frame with toContextFrameData := data } }
  | none, none => { context with level1 := { context.level1 with toContextFrameData := data } }

/-- The active frame has the data that it was given. -/
@[simp]
theorem active_withActive (context : AgentContext) (data : ContextFrameData) :
    active (context.withActive data) = (active context).withData data := by
  rcases context with ⟨f1, _ | f2, _ | f3⟩ <;> rfl

/-- Only the last data of the active frame count. -/
@[simp]
theorem withActive_withActive (context : AgentContext) (data data' : ContextFrameData) :
    (context.withActive data).withActive data' = context.withActive data' := by
  rcases context with ⟨f1, _ | f2, _ | f3⟩ <;> rfl

/-- Other data of the active frame leave the levels below as they are. -/
theorem Lower.withActive {context : AgentContext} (h : context.Lower) (data : ContextFrameData) :
    (context.withActive data).Lower := by
  rcases context with ⟨f1, _ | f2, _ | f3⟩ <;>
    simp_all [Lower, AgentContext.withActive]

/-- Replacing the active frame by itself with other data. -/
theorem replaceFrame_active {context : AgentContext} (h : context.Lower) (data : ContextFrameData) :
    replaceFrame context ((active context).withData data) = .ok (context.withActive data) := by
  rcases context with ⟨f1, _ | f2, _ | f3⟩ <;>
    simp_all [Lower, AgentContext.withActive, active, replaceFrame, ContextFrame.withData,
      requireContext, require, bind, Except.bind, pure, Except.pure]

/-- The active frame is one of the frames. -/
theorem mem_frames_active (context : AgentContext) : active context ∈ frames context := by
  rcases context with ⟨f1, _ | f2, _ | f3⟩ <;> simp [active, frames]

/-- The frames of the context with other data in the active one are that one and frames that were
there. -/
theorem mem_frames_withActive {context : AgentContext} {data : ContextFrameData}
    {frame : ContextFrame} (h : frame ∈ frames (context.withActive data)) :
    frame = (active context).withData data ∨ frame ∈ frames context := by
  rcases context with ⟨f1, _ | f2, _ | f3⟩ <;>
    simp only [frames, AgentContext.withActive, active, Option.toList, List.map_cons, List.map_nil,
      List.mem_cons, List.append_nil, List.nil_append, List.cons_append, ContextFrame.withData,
      List.not_mem_nil, or_false] at h ⊢ <;> tauto

/-- Identities stay if those of the active frame do. -/
theorem flatMap_ids_withActive {context : AgentContext} {data : ContextFrameData}
    (hid : data.id = (active context).data.id)
    (htasks : data.taskChain.ids = (active context).data.taskChain.ids) :
    (frames (context.withActive data)).flatMap ContextFrame.ids =
      (frames context).flatMap ContextFrame.ids := by
  rcases context with ⟨f1, _ | f2, _ | f3⟩ <;>
    simp_all [frames, AgentContext.withActive, active, ContextFrame.ids, ContextFrame.taskIds,
      ContextFrame.data]

/-- A frame below the active one does not exist, so the active frame's data is no frame's parent. -/
theorem objective_withActive {context : AgentContext} {data : ContextFrameData}
    (h : ∀ frame ∈ frames context, ∃ o, objective context frame = .ok o) :
    ∀ frame ∈ frames (context.withActive data),
      ∃ o, objective (context.withActive data) frame = .ok o := by
  rcases context with ⟨f1, _ | f2, _ | f3⟩ <;>
    simp_all [frames, AgentContext.withActive, objective]

namespace WellFormed

variable {context : AgentContext}

/-- The data of the active frame pass their checks. -/
theorem active_data (h : context.WellFormed) : (active context).data.Ok :=
  h.data _ (mem_frames_active context)

/-- The active frame is within its budget. -/
theorem active_fits (h : context.WellFormed) : (active context).Fits :=
  h.fits _ (mem_frames_active context)

/-- The active frame runs a task only if it is of the third level. -/
theorem executing_active (h : context.WellFormed) :
    (active context).data.executing = false ∨ (active context).level = .three := by
  have h2 := h.second
  have h3 := h.third
  rcases context with ⟨f1, _ | f2, _ | f3⟩ <;>
    simp_all [active, ContextFrame.data, ContextFrame.level]

/-- New data in the active frame. -/
theorem withActive {data : ContextFrameData} (h : context.WellFormed) (hdata : data.Ok)
    (hid : data.id = (active context).data.id)
    (htasks : data.taskChain.ids = (active context).data.taskChain.ids)
    (hexec : data.executing = false ∨ (active context).level = .three)
    (hfits : ((active context).withData data).Fits) : (context.withActive data).WellFormed where
  data := by
    -- A frame is the active one with its new data, or one of those above.
    intro frame hf
    rcases mem_frames_withActive hf with rfl | hf
    · rwa [ContextFrame.data_withData]
    · exact h.data frame hf
  task := by
    intro frame hf
    rcases mem_frames_withActive hf with rfl | hf
    · have := h.task _ (mem_frames_active context)
      cases hact : active context <;> rw [hact] at this <;> exact this
    · exact h.task frame hf
  ids := by
    rw [flatMap_ids_withActive hid htasks]
    exact h.ids
  lower := Lower.withActive h.lower data
  linked := objective_withActive h.linked
  second := by
    have := h.second
    rcases context with ⟨f1, _ | f2, _ | f3⟩ <;>
      simp_all [AgentContext.withActive, active, ContextFrame.level]
  third := by
    have := h.third
    rcases context with ⟨f1, _ | f2, _ | f3⟩ <;>
      simp_all [AgentContext.withActive, active, ContextFrame.level]
  fits := by
    intro frame hf
    rcases mem_frames_withActive hf with rfl | hf
    · exact hfits
    · exact h.fits frame hf

end WellFormed

end AgentContext

/-! ## What a plan archives -/

/-- The data of the active frame that a decision archives before it replaces the chain. -/
def archivedData (decision : ContextDecision) (entries : List ContextEntry)
    (data : ContextFrameData) : ContextFrameData :=
  { data with
    memory := { data.memory with recentEntries := data.memory.recentEntries ++ entries }
    taskChain :=
      match decision with
      | .replan _ reason => data.taskChain.replaced reason
      | _ => data.taskChain }

/-- The context that a decision archives before it replaces the chain. -/
def archivedContext (decision : ContextDecision) (entries : List ContextEntry)
    (context : AgentContext) : AgentContext :=
  context.withActive (archivedData decision entries (active context).data)

/-- A replaced chain has the identities of the old one. -/
theorem ids_replaced (reason : String) (chain : ContextTaskChain) :
    (chain.replaced reason).ids = chain.ids := by
  simp only [ContextTaskChain.ids, ContextTaskChain.replaced, List.map_map]
  refine List.map_congr_left fun task _ => ?_
  simp only [Function.comp, ContextTask.replaced]
  split <;> rfl

/-- No task of a replaced chain runs or waits. -/
theorem settled_replaced (reason : String) (task : ContextTask) :
    (task.replaced reason).settled = true := by
  unfold ContextTask.replaced
  split <;> simp_all [ContextTask.settled]

/-- A task that is replaced passes its checks. -/
theorem ContextTask.Ok.replaced {reason : String} {task : ContextTask} (h : task.Ok)
    (hreason : text reason = .ok ()) : (task.replaced reason).Ok := by
  unfold ContextTask.replaced
  split
  · refine ⟨h.1, h.2.1, ?_⟩
    simp [validateTaskState, hreason]
  · exact ⟨h.1, h.2.1, rfl⟩
  · exact h

/-- A chain that is replaced passes its checks. -/
theorem ContextTaskChain.Ok.replaced {reason : String} {chain : ContextTaskChain} (h : chain.Ok)
    (hreason : text reason = .ok ()) : (chain.replaced reason).Ok where
  revision := h.revision
  tasks := by
    intro task hmem
    obtain ⟨old, hold, rfl⟩ := List.mem_map.mp hmem
    exact (h.tasks old hold).replaced hreason
  installed := by simpa [ContextTaskChain.replaced] using h.installed
  phaseMatches := by
    have hnone : (chain.replaced reason).running = [] := by
      simp only [ContextTaskChain.running, ContextTaskChain.replaced, List.map_eq_nil_iff,
        List.filter_eq_nil_iff, List.mem_map, decide_eq_true_eq]
      rintro _ ⟨task, -, rfl⟩ hrun
      have := settled_replaced reason task
      simp [ContextTask.settled, hrun] at this
    simp only [ContextTaskChain.phaseMatches, ContextTaskChain.replaced] at *
    exact decide_eq_true hnone
  replan := by simp [ContextTaskChain.replaced, ContextPhase.replan]

/-- Entries that pass their check may be appended to a memory that does. -/
theorem validateMemory_append {memory : ContextMemory} {entries : List ContextEntry}
    (h : validateMemory memory = .ok ()) (he : ∀ e ∈ entries, validateEntry e = .ok ()) :
    validateMemory { memory with recentEntries := memory.recentEntries ++ entries } = .ok () := by
  simp only [validateMemory, bind_eq_ok, exists_unit, forM_eq_ok] at h ⊢
  refine ⟨h.1, h.2.1, ?_, h.2.2.2⟩
  intro e hmem
  rcases List.mem_append.mp hmem with hold | hnew
  · exact h.2.2.1 e hold
  · exact he e hnew

/-- The decisions that replace a chain, with the reason that a replan gives. -/
def ContextDecision.replaces : ContextDecision → Option (Option String)
  | .plan _ => some none
  | .replan _ reason => some (some reason)
  | _ => none

/-- Of the archived context, only its size is in question. -/
theorem wellFormed_archivedContext {decision : ContextDecision} {entries : List ContextEntry}
    {context : AgentContext} (h : context.WellFormed)
    (he : ∀ e ∈ entries, validateEntry e = .ok ())
    (hreason : ∀ objectives reason, decision = .replan objectives reason → text reason = .ok ()) :
    (archivedContext decision entries context).WellFormed ↔
      (active (archivedContext decision entries context)).size ≤
        (active context).data.budget.maxTokens := by
  have hdata := h.active_data
  have hmemory := validateMemory_append hdata.memory he
  -- The size decides, in both directions.
  have hsize : ∀ f : (active (archivedContext decision entries context)).Fits,
      (active (archivedContext decision entries context)).size ≤
        (active context).data.budget.maxTokens := by
    intro f
    simpa [archivedContext, archivedData] using f.size
  refine ⟨fun hw => hsize hw.active_fits, fun hle => ?_⟩
  rw [archivedContext, AgentContext.active_withActive] at hle
  have htasks := h.active_fits.tasks
  -- Everything but the size follows from the old context.
  refine h.withActive ?_ rfl ?_ ?_ ⟨?_, ?_⟩
  · refine ⟨hdata.id, hdata.budget, hmemory, ?_⟩
    -- Only a new plan changes the chain.
    cases decision with
    | replan objectives reason => exact hdata.chain.replaced (hreason objectives reason rfl)
    | _ => exact hdata.chain
  · cases decision with
    | replan objectives reason => exact ids_replaced reason _
    | _ => rfl
  · cases decision with
    | replan objectives reason => exact .inl rfl
    | _ => exact h.executing_active
  · rw [ContextFrame.data_withData]
    exact hle
  · rw [ContextFrame.data_withData]
    cases decision with
    | replan objectives reason =>
      simpa [archivedData, ContextTaskChain.replaced] using htasks
    | _ => exact htasks

end OsAgent.Context
