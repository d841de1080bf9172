import OsAgent.AgentContext.Changes
import OsAgent.Library.JsonSize

/-!
# The room for a summary

The room that a summary is said to have is found with an empty summary, and with a reference that stands
for the one the summary will get. The check of a summary is of the frame as it then is. The two agree,
since the text of a frame is as long as its parts (`size_compactedFrame`), if the reference takes as many
bytes as the one that stood for it.
-/

namespace OsAgent.Context

open OsAgent.Library

/-! ## The parts of a frame -/

/-- The size of a frame is that of its text. -/
theorem size_eq (frame : ContextFrame) : frame.size = jsonSize frame.toJson := rfl

/-- The memory of a frame counts for itself. -/
theorem size_withMemory (frame : ContextFrame) (memory memory' : ContextMemory) :
    (frame.withMemory memory).size + jsonSize memory'.toJson =
      (frame.withMemory memory').size + jsonSize memory.toJson := by
  rw [size_eq, size_eq]
  cases frame with
  | one f =>
    show jsonSize (.object _) + _ = jsonSize (.object _) + _
    rw [jsonSize_object (by simp [ContextFrameData.properties]),
      jsonSize_object (by simp [ContextFrameData.properties])]
    simp only [ContextFrameData.properties, List.map_append, List.map_cons, List.map_nil, List.sum_append,
      List.sum_cons, propertySize, ContextFrame.data]
    omega
  | two f =>
    show jsonSize (.object _) + _ = jsonSize (.object _) + _
    rw [jsonSize_object (by simp [ContextFrameData.properties]),
      jsonSize_object (by simp [ContextFrameData.properties])]
    simp only [ContextFrameData.properties, List.map_cons, List.map_nil, List.sum_cons, propertySize,
      ContextFrame.data]
    omega
  | three f =>
    show jsonSize (.object _) + _ = jsonSize (.object _) + _
    rw [jsonSize_object (by simp [ContextFrameData.properties]),
      jsonSize_object (by simp [ContextFrameData.properties])]
    simp only [ContextFrameData.properties, List.map_cons, List.map_nil, List.sum_cons, propertySize,
      ContextFrame.data]
    omega

/-- Two compacted frames differ by their summaries and by the references to them. -/
theorem size_compactedFrame (frame : ContextFrame) (summary summary' : ContextSummary)
    (ref ref' sealedSourceRef : String) :
    (compactedFrame frame summary ref sealedSourceRef).size + jsonSize summary'.toJson + textSize ref' =
      (compactedFrame frame summary' ref' sealedSourceRef).size + jsonSize summary.toJson + textSize ref := by
  let updated :=
    if frame.data.taskChain.settled then setChain frame (emptyChain frame.data.taskChain.revision)
    else setChain frame { frame.data.taskChain with
      tasks := frame.data.taskChain.tasks.map (·.compact sealedSourceRef) }
  let memory : ContextMemory :=
    { updated.data.memory with summary := some summary, recentEntries := [], historyRef := some ref }
  let memory' : ContextMemory :=
    { updated.data.memory with summary := some summary', recentEntries := [], historyRef := some ref' }
  have hframes : (updated.withMemory memory).size + jsonSize memory'.toJson =
      (updated.withMemory memory').size + jsonSize memory.toJson := size_withMemory _ _ _
  have hmemory : jsonSize memory.toJson + jsonSize summary'.toJson + textSize ref' =
      jsonSize memory'.toJson + jsonSize summary.toJson + textSize ref := by
    unfold ContextMemory.toJson
    rw [jsonSize_object (by simp), jsonSize_object (by simp)]
    simp only [List.map_cons, List.map_nil, List.sum_cons, propertySize, memory, memory', jsonOrNull,
      jsonSize_string]
    omega
  have hsize : (compactedFrame frame summary ref sealedSourceRef).size = (updated.withMemory memory).size :=
    rfl
  have hsize' : (compactedFrame frame summary' ref' sealedSourceRef).size =
    (updated.withMemory memory').size := rfl
  omega

/-! ## The room -/

/-- The reference that stands for the one of a summary. -/
def projectedRef : String := "context-summary://00000000-0000-0000-0000-000000000000"

/-- The room that is announced is what an empty summary leaves of the target. -/
theorem maxSummaryBytes_eq {checkpoint : ContextCheckpoint} {pending : PendingContextSummary}
    {capacity : SummaryCapacity} (hpending : checkpoint.pendingSummary = some pending)
    (h : summaryCapacity checkpoint = .ok capacity) :
    capacity.maxSummaryBytes = (active checkpoint.context).data.budget.targetTokens -
      (((compactedFrame (active checkpoint.context) (.only "") projectedRef pending.sourceRef).size : ℤ) -
        jsonSize (ContextSummary.only "").toJson) := by
  unfold summaryCapacity at h
  rw [hpending] at h
  obtain ⟨_, hp, h⟩ := bind_eq_ok.mp h
  obtain rfl := Option.some.inj (requirePresent_eq_ok.mp hp)
  obtain ⟨_, _, h⟩ := bind_eq_ok.mp h
  rw [← pure_eq_ok.mp h]
  rfl

/-- A compacted frame is within its target exactly if its summary is within the room that was
announced. -/
theorem size_le_target_iff {checkpoint : ContextCheckpoint} {pending : PendingContextSummary}
    {capacity : SummaryCapacity} (hpending : checkpoint.pendingSummary = some pending)
    (h : summaryCapacity checkpoint = .ok capacity) {summaryRef : String}
    (href : textSize summaryRef = textSize projectedRef) (summary : ContextSummary) :
    (compactedFrame (active checkpoint.context) summary summaryRef pending.sourceRef).size ≤
        (active checkpoint.context).data.budget.targetTokens ↔
      (estimateContextTokens summary.toJson : ℤ) ≤ capacity.maxSummaryBytes := by
  have hsize := size_compactedFrame (active checkpoint.context) summary (.only "") summaryRef projectedRef
    pending.sourceRef
  have hestimate : estimateContextTokens summary.toJson = jsonSize summary.toJson := rfl
  rw [maxSummaryBytes_eq hpending h, hestimate]
  omega

/-! ## Other errors -/

/-- If a computation fails, then not since a summary is too large. -/
def FailsOtherwise {α : Type} (x : Except Fault α) : Prop :=
  ∀ message, x ≠ .error (.context .summaryTooLarge message)

section

variable {α β : Type}

/-- What returns does not fail. -/
theorem failsOtherwise_pure (a : α) : FailsOtherwise (pure a) := fun _ => pure_ne_error

/-- One computation after another does not fail because of size, if neither does. -/
theorem FailsOtherwise.bind {x : Except Fault α} {f : α → Except Fault β} (hx : FailsOtherwise x)
    (hf : ∀ a, FailsOtherwise (f a)) : FailsOtherwise (x >>= f) := by
  intro message h
  rcases bind_eq_error.mp h with h | ⟨a, -, h⟩
  · exact hx message h
  · exact hf a message h

/-- A requirement with another error fails otherwise. -/
theorem failsOtherwise_requireContext {c : Prop} [Decidable c] {message : String} {code : ContextErrorCode}
    (hcode : code ≠ .summaryTooLarge) : FailsOtherwise (requireContext c message code) := by
  intro message' h
  have hfault := (require_eq_error.mp h).2
  exact hcode (Fault.context.inj hfault).1

/-- A value that is required with another error fails otherwise. -/
theorem failsOtherwise_requirePresent {o : Option α} {message : String} {code : ContextErrorCode}
    (hcode : code ≠ .summaryTooLarge) : FailsOtherwise (requirePresent o message code) := by
  intro message' h
  cases o with
  | some a => cases h
  | none => exact hcode (Fault.context.inj (Except.error.inj h)).1

/-- Checks fail otherwise, if each does. -/
theorem failsOtherwise_forM {check : α → Except Fault Unit} (h : ∀ a, FailsOtherwise (check a)) (l : List α) :
    FailsOtherwise (l.forM check) := by
  induction l with
  | nil => exact failsOtherwise_pure ()
  | cons a l ih => exact (h a).bind fun _ => ih

/-- To end a task fails otherwise. -/
theorem failsOtherwise_endTask (taskId : String) (state : ContextTaskState) (tasks : List ContextTask) :
    FailsOtherwise (endTask taskId state tasks) := by
  induction tasks with
  | nil =>
    intro message h
    cases h
  | cons task tasks ih =>
    unfold endTask
    dsimp only
    split_ifs
    · exact (failsOtherwise_pure _).bind fun _ => ih.bind fun _ => failsOtherwise_pure _
    · apply FailsOtherwise.bind
      · exact failsOtherwise_requireContext (by decide)
      · exact fun _ => ih.bind fun _ => failsOtherwise_pure _

/-- To release a parent fails otherwise. -/
theorem failsOtherwise_releasedParent (parent : Option ContextFrameData) (task : ContextTaskRef)
    (state : ContextTaskState) : FailsOtherwise (releasedParent parent task state) :=
  (failsOtherwise_requirePresent (by decide)).bind fun _ =>
    (failsOtherwise_endTask _ _ _).bind fun _ => failsOtherwise_pure _

/-- To release a frame fails otherwise. -/
theorem failsOtherwise_releaseFrame (context : AgentContext) (frame : ContextFrame)
    (state : ContextTaskState) : FailsOtherwise (releaseFrame context frame state) := by
  cases frame with
  | one f =>
    intro message h
    cases h
  | two f => exact (failsOtherwise_releasedParent _ _ _).bind fun _ => failsOtherwise_pure _
  | three f => exact (failsOtherwise_releasedParent _ _ _).bind fun _ => failsOtherwise_pure _

/-- To replace a frame fails otherwise. -/
theorem failsOtherwise_replaceFrame (context : AgentContext) (frame : ContextFrame) :
    FailsOtherwise (replaceFrame context frame) := by
  cases frame with
  | one f =>
    intro message h
    cases h
  | two f =>
    intro message h
    cases h
  | three f => exact (failsOtherwise_requireContext (by decide)).bind fun _ => failsOtherwise_pure _

/-- The check of the budgets fails otherwise. -/
theorem failsOtherwise_assertBudgets (context : AgentContext) : FailsOtherwise (assertBudgets context) :=
  failsOtherwise_forM (fun _ => (failsOtherwise_requireContext (by decide)).bind fun _ =>
    failsOtherwise_requireContext (by decide)) _

end

/-! ## The check of a summary -/

/-- The summary that a mutation gets is too large exactly if it does not fit in the room that was
announced. Whatever else is wrong with it is found before, or has nothing to do with its size. -/
theorem wp_integrateSummary {m : Mutation} {pending : PendingContextSummary} {capacity : SummaryCapacity}
    {summary : ContextSummary} (hpending : m.state.pendingSummary = some pending)
    (hcapacity : summaryCapacity m.state = .ok capacity)
    (hcursor : assertCursor (active m.state.context) pending.toContextCursor = .ok ())
    (hvalid : validateSummary summary (some pending.allowedRefs) = .ok ())
    (hcites : pending.sourceRef ∈ summary.sourceRefs) {fits : Prop}
    (hfits : (compactedFrame (active m.state.context) summary
        ("context-summary://" ++ m.createId m.created) pending.sourceRef).size ≤
          (active m.state.context).data.budget.targetTokens ↔ fits) :
    wp (integrateSummary pending.id summary) (fun _ _ => fits)
      (fun e _ => (∃ message, e = .context .summaryTooLarge message) ↔ ¬ fits) m := by
  -- The pending summary is the one that is asked for, and it is cited.
  have hpresent : requirePresent (m.state.pendingSummary.filter (·.id = pending.id)) "总结凭据已失效。"
      .staleContext = .ok pending := by
    rw [requirePresent_eq_ok, hpending]
    simp
  have hcites' : requireContext (pending.sourceRef ∈ summary.sourceRefs) "总结必须引用本次封存历史。"
      .invalidInput = .ok () := requireContext_eq_ok.mpr hcites
  -- Where the summary fits, every other failure is another one.
  have other {α : Type} {x : Except Fault α} (hx : FailsOtherwise x) (hfit : fits) :
      ∀ e, x = .error e → ((∃ message, e = .context .summaryTooLarge message) ↔ ¬ fits) := by
    intro e he
    constructor
    · rintro ⟨message, rfl⟩
      exact absurd he (hx message)
    · exact fun hnot => absurd hfit hnot
  unfold integrateSummary
  simp only [wp_bind, wp_draft, wp_lift, wp_nextId, wp_pushWrite, wp_ite, wp_assign, wp_assignContext,
    hpresent, hcites', hcursor, hvalid, hcapacity, Except.ok.injEq, forall_eq', reduceCtorEq,
    IsEmpty.forall_iff, implies_true, and_true]
  intro _ _ _ _ _ _
  constructor
  · intro _ hsize
    -- The one check of the size is the one of the room.
    have hfit : fits := hfits.mp (requireContext_eq_ok.mp hsize)
    split_ifs
    · unfold putFrame
      simp only [wp_bind, wp_draft, wp_lift, wp_assignContext]
      exact ⟨fun context _ => ⟨fun _ _ => hfit, other (failsOtherwise_assertBudgets _) hfit⟩,
        other (failsOtherwise_replaceFrame _ _) hfit⟩
    · exact ⟨fun context _ => ⟨fun _ _ => hfit, other (failsOtherwise_assertBudgets _) hfit⟩,
        other (failsOtherwise_releaseFrame _ _ _) hfit⟩
  · -- Where the check of the size throws, the summary does not fit.
    intro e he
    obtain ⟨hlarge, rfl⟩ := require_eq_error.mp he
    exact iff_of_true ⟨_, rfl⟩ fun hfit => hlarge (hfits.mpr hfit)

/-! ## The room that is announced -/

/-- A text that takes a byte for each of its characters. -/
def Plain (s : String) : Prop := ∀ c ∈ s.toList, quoteChar c = [c] ∧ c.utf8Size = 1

instance (s : String) : Decidable (Plain s) := decidable_of_iff _ List.forall_iff_forall_mem

/-- The reference to a summary takes as many bytes as the one that stood for it, if its identity takes
as many as a UUID. -/
theorem textSize_summaryRef {id : String} (hlength : id.toList.length = 36) (hplain : Plain id) :
    textSize ("context-summary://" ++ id) = textSize projectedRef := by
  have hscheme : Plain "context-summary://" := by decide
  have hprojected : Plain projectedRef := by decide
  have hprojectedLength : projectedRef.toList.length = 54 := rfl
  have hschemeLength : "context-summary://".toList.length = 18 := rfl
  have href : Plain ("context-summary://" ++ id) := by
    intro c hc
    rw [String.toList_append] at hc
    rcases List.mem_append.mp hc with hc | hc
    · exact hscheme c hc
    · exact hplain c hc
  rw [textSize_of_plain href, textSize_of_plain hprojected, String.toList_append, List.length_append,
    hprojectedLength, hschemeLength, hlength]

/-- A summary passes the check of its size exactly if it fits in the room that was announced. -/
theorem integrateSummary_fits_iff {m : Mutation} {pending : PendingContextSummary}
    {capacity : SummaryCapacity} (hpending : m.state.pendingSummary = some pending)
    (hcapacity : summaryCapacity m.state = .ok capacity)
    (hlength : (m.createId m.created).toList.length = 36) (hplain : Plain (m.createId m.created))
    (summary : ContextSummary) :
    ((compactedFrame (active m.state.context) summary ("context-summary://" ++ m.createId m.created)
        pending.sourceRef).size ≤ (active m.state.context).data.budget.targetTokens ↔
      (estimateContextTokens summary.toJson : ℤ) ≤ capacity.maxSummaryBytes) ∧
    (assertCursor (active m.state.context) pending.toContextCursor = .ok () →
      validateSummary summary (some pending.allowedRefs) = .ok () →
      pending.sourceRef ∈ summary.sourceRefs →
      ((∃ message m', integrateSummary pending.id summary m =
          .error (.context .summaryTooLarge message) m') ↔
        capacity.maxSummaryBytes < estimateContextTokens summary.toJson)) := by
  have hfits := size_le_target_iff hpending hcapacity (textSize_summaryRef hlength hplain) summary
  refine ⟨hfits, ?_⟩
  intro hcursor hvalid hcites
  have hwp := wp_integrateSummary hpending hcapacity hcursor hvalid hcites hfits
  constructor
  · -- An error of the size is raised only when the summary is too large.
    rintro ⟨message, m', hrun⟩
    have hnot := (wp_error hwp hrun).mp ⟨message, rfl⟩
    omega
  · -- A summary that is too large is not integrated, and what is raised is that error.
    intro hlarge
    cases hrun : integrateSummary pending.id summary m with
    | ok _ m' =>
      have hfit := wp_ok hwp hrun
      omega
    | error e m' =>
      have hnot : ¬ (estimateContextTokens summary.toJson : ℤ) ≤ capacity.maxSummaryBytes := by omega
      obtain ⟨message, rfl⟩ := (wp_error hwp hrun).mpr hnot
      exact ⟨message, m', rfl⟩

/-! ## Identities of more bytes -/

/-- A root frame without work. -/
def roomFrame : LevelOneContext where
  id := "f"
  memory := emptyMemory
  budget := ⟨900, 800, 530, 4⟩
  taskChain := emptyChain 0
  instructions := []
  currentTask := ⟨"t", "o"⟩

/-- A summary is pending for the small frame. -/
def roomPending : PendingContextSummary where
  frameId := "f"
  planRevision := 0
  id := "p"
  purpose := .compact
  reason := ""
  sourceRef := "s"
  allowedRefs := ["s"]
  attempts := 0
  lastError := none

/-- A state with a frame that has little room. -/
def roomState : ContextCheckpoint where
  revision := 0
  context := ⟨roomFrame, none, none⟩
  policy := ⟨fun _ => roomFrame.budget, 3, 8, 100⟩
  runnable := true
  pendingSummary := some roomPending
  inbox := []

/-- The mutation, with one identity. -/
def roomMutation (id : String) : Mutation := ⟨roomState, [], fun _ => id, 0⟩

/-- A summary for the small frame. -/
def roomSummary : ContextSummary := { ContextSummary.only "o" with sourceRefs := ["s"] }

/-- The capacity of the small frame. -/
def roomCapacity : SummaryCapacity := ⟨530, 373, 157, 1⟩

/-- The capacity is what is left of the small frame. -/
theorem summaryCapacity_room (id : String) : summaryCapacity (roomMutation id).state = .ok roomCapacity := by
  show summaryCapacity roomState = .ok roomCapacity
  decide +kernel

/-- The summary passes its check. -/
theorem validateSummary_room : validateSummary roomSummary (some roomPending.allowedRefs) = .ok () := by
  decide +kernel

/-- The summary is pending before the change too. -/
theorem pendingSummary_room (id : String) : (roomMutation id).state.pendingSummary = some roomPending := rfl

/-- With a UUID the summary, which fits, passes. -/
theorem integrateSummary_fits_iff_room :
    ¬ ∃ message m', integrateSummary "p" roomSummary (roomMutation "00000000-0000-0000-0000-000000000001") =
      .error (.context .summaryTooLarge message) m' := by
  have hfits := integrateSummary_fits_iff (pendingSummary_room "00000000-0000-0000-0000-000000000001")
    (summaryCapacity_room _) (by decide) (by decide) roomSummary
  have hroom : ¬ roomCapacity.maxSummaryBytes < estimateContextTokens roomSummary.toJson := by
    decide +kernel
  intro hlarge
  exact hroom ((hfits.2 rfl validateSummary_room (by decide)).mp hlarge)

/-- An identity of 36 characters that take more than a byte each. -/
def accentedId : String := String.ofList (List.replicate 36 'é')

/-- The summary fits in the room that was announced, and is too large. -/
theorem not_fits_accented : accentedId.toList.length = 36 ∧
    summaryCapacity (roomMutation accentedId).state = .ok roomCapacity ∧
    (estimateContextTokens roomSummary.toJson : ℤ) ≤ roomCapacity.maxSummaryBytes ∧
    ∃ message m', integrateSummary "p" roomSummary (roomMutation accentedId) =
      .error (.context .summaryTooLarge message) m' := by
  have hlarge : ¬ (compactedFrame (active (roomMutation accentedId).state.context) roomSummary
      ("context-summary://" ++ accentedId) "s").size ≤ 530 := by decide +kernel
  have hwp := wp_integrateSummary (pendingSummary_room accentedId) (summaryCapacity_room accentedId) rfl
    validateSummary_room (by decide) (iff_false_intro hlarge)
  refine ⟨by decide, summaryCapacity_room _, by decide +kernel, ?_⟩
  cases hrun : integrateSummary "p" roomSummary (roomMutation accentedId) with
  | ok _ m' => exact (wp_ok hwp hrun).elim
  | error e m' =>
    obtain ⟨message, rfl⟩ := (wp_error hwp hrun).mpr id
    exact ⟨message, m', rfl⟩

end OsAgent.Context
