import OsAgent.AgentContext.Checkpoint
import Mathlib.Data.List.Nodup

/-!
# What the checks of a context require

The checks carry the identities that they have seen and throw at the first fault. Here each check is
stated as what it requires of the value alone, so that the check of a checkpoint and that of an
archived context can be compared: `validateRecord` accepts an archived context exactly if it is
`WellFormed`, and every checkpoint that is accepted has such a context.
-/

namespace OsAgent.Context

open OsAgent.Library

/-- What the checks require of a task, apart from its identity being new. -/
def ContextTask.Ok (task : ContextTask) : Prop :=
  text task.id = .ok () ∧ text task.objective = .ok () ∧ validateTaskState task.state = .ok ()

/-- The identities of the tasks of a chain. -/
def ContextTaskChain.ids (chain : ContextTaskChain) : List String := chain.tasks.map fun t => t.id

/-- What the checks require of a chain, apart from new identities. -/
structure ContextTaskChain.Ok (chain : ContextTaskChain) : Prop where
  revision : integer chain.revision 0 = .ok ()
  tasks : ∀ task ∈ chain.tasks, task.Ok
  installed : 0 < chain.revision ∨ chain.tasks.length = 0
  phaseMatches : chain.phaseMatches = true
  replan : ∀ replan ∈ chain.phase.replan, validateReplan replan = .ok ()

/-- What the checks require of the data of a frame, apart from new identities. -/
structure ContextFrameData.Ok (data : ContextFrameData) : Prop where
  id : text data.id = .ok ()
  budget : validateBudget data.budget = .ok ()
  memory : validateMemory data.memory = .ok ()
  chain : data.taskChain.Ok

namespace ContextFrame

/-- What the checks require of the current task of a frame and of the root's instructions. -/
def TaskOk : ContextFrame → Prop
  | .one frame => text frame.currentTask.id = .ok () ∧ text frame.currentTask.objective = .ok () ∧
      strings frame.instructions = .ok ()
  | .two frame => validateTaskRef frame.currentTask = .ok ()
  | .three frame => validateTaskRef frame.currentTask = .ok ()

/-- The identity of the root's task. -/
def taskIds : ContextFrame → List String
  | .one frame => [frame.currentTask.id]
  | .two _ => []
  | .three _ => []

/-- The identities that a frame brings in. -/
def ids (frame : ContextFrame) : List String :=
  frame.data.id :: (frame.taskIds ++ frame.data.taskChain.ids)

/-- The frame's budget is the one that the policy has for its level. -/
def Budgeted (budgets : ContextLevel → ContextBudget) (frame : ContextFrame) : Prop :=
  stringify frame.data.budget.toJson = stringify (budgets frame.level).toJson

/-- The frame fits its budget. -/
structure Fits (frame : ContextFrame) : Prop where
  size : frame.size ≤ frame.data.budget.maxTokens
  tasks : frame.data.taskChain.tasks.length ≤ frame.data.budget.maxTasks

end ContextFrame

/-- What the checks require of a context, whatever the policy. -/
structure AgentContext.WellFormed (context : AgentContext) : Prop where
  data : ∀ frame ∈ frames context, frame.data.Ok
  task : ∀ frame ∈ frames context, frame.TaskOk
  ids : ((frames context).flatMap ContextFrame.ids).Nodup
  lower : context.level2.isSome ∨ context.level3.isNone
  linked : ∀ frame ∈ frames context, ∃ o, objective context frame = .ok o
  second : context.level1.executing = false ∨ context.level2.isSome
  third : (∀ frame ∈ context.level2, frame.executing = false) ∨ context.level3.isSome
  fits : ∀ frame ∈ frames context, frame.Fits

/-! ## The checks -/

/-- A new item keeps a list without repetitions. -/
theorem nodup_concat {l : List String} {a : String} (h : l.Nodup) (ha : a ∉ l) :
    (l ++ [a]).Nodup := by
  rw [List.nodup_append]
  refine ⟨h, List.nodup_singleton a, ?_⟩
  rintro x hx y hy rfl
  rw [List.mem_singleton.mp hy] at hx
  exact ha hx

/-- An item is not in what is before it. -/
theorem not_mem_of_nodup_append_cons {l m : List String} {a : String}
    (h : (l ++ a :: m).Nodup) : a ∉ l :=
  fun ha => (List.disjoint_of_nodup_append h) ha List.mem_cons_self

/-- An identity is new exactly if it is not among the others. -/
theorem freshId_eq_ok {ids ids' : List String} {id message : String} :
    freshId ids id message = .ok ids' ↔ id ∉ ids ∧ ids' = ids ++ [id] := by
  simp only [freshId, bind_eq_ok, exists_unit, requireContext_eq_ok, pure_eq_ok]
  exact and_congr_right fun _ => eq_comm

/-- The tasks pass their checks if each does and their identities are new. -/
theorem validateTasks_eq_ok {tasks : List ContextTask} {ids ids' : List String} (h : ids.Nodup) :
    validateTasks ids tasks = .ok ids' ↔
      (∀ task ∈ tasks, task.Ok) ∧ (ids ++ tasks.map fun t => t.id).Nodup ∧
        ids' = ids ++ tasks.map fun t => t.id := by
  induction tasks generalizing ids with
  | nil => simp [validateTasks, h, eq_comm]
  | cons task tasks ih =>
    simp only [validateTasks, bind_eq_ok, exists_unit, freshId_eq_ok, List.forall_mem_cons,
      List.map_cons]
    have happ : ids ++ task.id :: tasks.map (fun t => t.id) =
        (ids ++ [task.id]) ++ tasks.map (fun t => t.id) := by simp
    constructor
    · rintro ⟨hid, _, ⟨hnew, rfl⟩, hobj, hstate, hrest⟩
      obtain ⟨htasks, hnd, rfl⟩ := (ih (nodup_concat h hnew)).mp hrest
      exact ⟨⟨⟨hid, hobj, hstate⟩, htasks⟩, happ ▸ hnd, happ ▸ rfl⟩
    · rintro ⟨⟨⟨hid, hobj, hstate⟩, htasks⟩, hnd, hids⟩
      have hnew := not_mem_of_nodup_append_cons hnd
      rw [happ] at hnd hids
      exact ⟨hid, _, ⟨hnew, rfl⟩, hobj, hstate,
        (ih (nodup_concat h hnew)).mpr ⟨htasks, hnd, hids⟩⟩

/-- A chain passes its checks if it is in order and its identities are new. -/
theorem validateChain_eq_ok {chain : ContextTaskChain} {ids ids' : List String} (h : ids.Nodup) :
    validateChain ids chain = .ok ids' ↔
      chain.Ok ∧ (ids ++ chain.ids).Nodup ∧ ids' = ids ++ chain.ids := by
  simp only [validateChain, bind_eq_ok, exists_unit, validateTasks_eq_ok h,
    requireContext_eq_ok, checkIfPresent_eq_ok, pure_eq_ok]
  constructor
  · rintro ⟨hrev, _, ⟨htasks, hnd, rfl⟩, hinst, hphase, hreplan, rfl⟩
    exact ⟨⟨hrev, htasks, hinst, hphase, hreplan⟩, hnd, rfl⟩
  · rintro ⟨hc, hnd, rfl⟩
    exact ⟨hc.revision, _, ⟨hc.tasks, hnd, rfl⟩, hc.installed, hc.phaseMatches, hc.replan, rfl⟩

/-- The task of a frame passes its checks if its identities are new. -/
theorem validateCurrentTask_eq_ok {frame : ContextFrame} {ids ids' : List String} (h : ids.Nodup) :
    validateCurrentTask ids frame = .ok ids' ↔
      frame.TaskOk ∧ (ids ++ frame.taskIds).Nodup ∧ ids' = ids ++ frame.taskIds := by
  cases frame with
  | one frame =>
    simp only [validateCurrentTask, bind_eq_ok, exists_unit, freshId_eq_ok, pure_eq_ok,
      ContextFrame.TaskOk, ContextFrame.taskIds]
    constructor
    · rintro ⟨hid, hobj, _, ⟨hnew, rfl⟩, hins, rfl⟩
      exact ⟨⟨hid, hobj, hins⟩, nodup_concat h hnew, rfl⟩
    · rintro ⟨⟨hid, hobj, hins⟩, hnd, rfl⟩
      exact ⟨hid, hobj, _, ⟨not_mem_of_nodup_append_cons hnd, rfl⟩, hins, rfl⟩
  | two frame =>
    simp only [validateCurrentTask, bind_eq_ok, exists_unit, pure_eq_ok, ContextFrame.TaskOk,
      ContextFrame.taskIds, List.append_nil, h, true_and]
    exact and_congr_right fun _ => eq_comm
  | three frame =>
    simp only [validateCurrentTask, bind_eq_ok, exists_unit, pure_eq_ok, ContextFrame.TaskOk,
      ContextFrame.taskIds, List.append_nil, h, true_and]
    exact and_congr_right fun _ => eq_comm

/-- A frame passes its checks if it is in order and its identities are new. -/
theorem validateFrame_eq_ok {budgets : ContextLevel → ContextBudget} {frame : ContextFrame}
    {ids ids' : List String} (h : ids.Nodup) :
    validateFrame budgets ids frame = .ok ids' ↔
      (frame.data.Ok ∧ frame.TaskOk ∧ frame.Budgeted budgets) ∧ (ids ++ frame.ids).Nodup ∧
        ids' = ids ++ frame.ids := by
  have happ : ids ++ frame.ids =
      ((ids ++ [frame.data.id]) ++ frame.taskIds) ++ frame.data.taskChain.ids := by
    simp [ContextFrame.ids]
  simp only [validateFrame, bind_eq_ok, exists_unit, freshId_eq_ok, requireContext_eq_ok]
  constructor
  · rintro ⟨hid, _, ⟨hnew, rfl⟩, hbudget, heq, _, ht, hmem, hc⟩
    obtain ⟨htask, hnd, rfl⟩ := (validateCurrentTask_eq_ok (nodup_concat h hnew)).mp ht
    obtain ⟨hchain, hnd', rfl⟩ := (validateChain_eq_ok hnd).mp hc
    exact ⟨⟨⟨hid, hbudget, hmem, hchain⟩, htask, heq⟩, happ ▸ hnd', happ ▸ rfl⟩
  · rintro ⟨⟨hdata, htask, heq⟩, hnd, rfl⟩
    have hnew : frame.data.id ∉ ids := not_mem_of_nodup_append_cons hnd
    rw [happ] at hnd ⊢
    have hnd' := (List.nodup_append.mp hnd).1
    exact ⟨hdata.id, _, ⟨hnew, rfl⟩, hdata.budget, heq, _,
      (validateCurrentTask_eq_ok (nodup_concat h hnew)).mpr ⟨htask, hnd', rfl⟩, hdata.memory,
      (validateChain_eq_ok hnd').mpr ⟨hdata.chain, hnd, rfl⟩⟩

/-- The frames pass their checks if each does and their identities are new. -/
theorem validateFrames_eq_ok {budgets : ContextLevel → ContextBudget} {fs : List ContextFrame}
    {ids : List String} (h : ids.Nodup) :
    validateFrames budgets ids fs = .ok () ↔
      (∀ frame ∈ fs, frame.data.Ok ∧ frame.TaskOk ∧ frame.Budgeted budgets) ∧
        (ids ++ fs.flatMap ContextFrame.ids).Nodup := by
  induction fs generalizing ids with
  | nil => simp [validateFrames, h]
  | cons frame fs ih =>
    have happ : ids ++ (frame :: fs).flatMap ContextFrame.ids =
        (ids ++ frame.ids) ++ fs.flatMap ContextFrame.ids := by simp
    simp only [validateFrames, bind_eq_ok, validateFrame_eq_ok h, List.forall_mem_cons]
    constructor
    · rintro ⟨_, ⟨hframe, hnd, rfl⟩, hrest⟩
      obtain ⟨hframes, hnd'⟩ := (ih hnd).mp hrest
      exact ⟨⟨hframe, hframes⟩, happ ▸ hnd'⟩
    · rintro ⟨⟨hframe, hframes⟩, hnd⟩
      rw [happ] at hnd
      have hnd' := (List.nodup_append.mp hnd).1
      exact ⟨_, ⟨hframe, hnd', rfl⟩, (ih hnd').mpr ⟨hframes, hnd⟩⟩

/-- A frame passes the check of its budget exactly if it fits. -/
theorem assertBudget_eq_ok {frame : ContextFrame} {u : Unit} :
    assertBudget frame = .ok u ↔ frame.Fits := by
  simp only [assertBudget, check_bind_eq_ok, requireContext_eq_ok]
  exact ⟨fun h => ⟨h.1, h.2⟩, fun h => ⟨h.1, h.2⟩⟩

/-- A context passes its checks exactly if it is well formed and budgeted. -/
theorem validateContext_eq_ok {budgets : ContextLevel → ContextBudget} {context : AgentContext} :
    validateContext budgets context = .ok () ↔
      context.WellFormed ∧ ∀ frame ∈ frames context, frame.Budgeted budgets := by
  simp only [validateContext, bind_eq_ok, exists_unit, validateFrames_eq_ok List.nodup_nil,
    requireContext_eq_ok, forM_eq_ok, pure_eq_ok, assertBudgets, assertBudget_eq_ok,
    List.nil_append, and_true]
  constructor
  · rintro ⟨⟨hframes, hids⟩, hlower, hlinked, hsecond, hthird, hfits⟩
    exact ⟨⟨fun f hf => (hframes f hf).1, fun f hf => (hframes f hf).2.1, hids, hlower, hlinked,
      hsecond, hthird, hfits⟩, fun f hf => (hframes f hf).2.2⟩
  · rintro ⟨h, hb⟩
    exact ⟨⟨fun f hf => ⟨h.data f hf, h.task f hf, hb f hf⟩, h.ids⟩, h.lower, h.linked, h.second,
      h.third, h.fits⟩

/-! ## Checkpoints and records -/

/-- A checkpoint that is accepted has a well-formed context. -/
theorem wellFormed_of_validateCheckpoint {c : ContextCheckpoint}
    (h : validateCheckpoint c = .ok ()) : c.context.WellFormed := by
  simp only [validateCheckpoint, check_bind_eq_ok, validateContext_eq_ok] at h
  exact h.2.2.2.1.1

/-- A checkpoint that is accepted has no more in its inbox than its policy allows, each with a key of its
own. -/
theorem inbox_of_validateCheckpoint {c : ContextCheckpoint} (h : validateCheckpoint c = .ok ()) :
    c.inbox.length ≤ c.policy.maxInbox ∧ (c.inbox.map ContextDelivery.key).Nodup := by
  simp only [validateCheckpoint, validateInbox, check_bind_eq_ok, requireContext_eq_ok] at h
  tauto

/-- Every frame has its own budget. -/
theorem budgeted_ownBudgets (context : AgentContext) :
    ∀ frame ∈ frames context, frame.Budgeted (ownBudgets context) := by
  intro frame hf
  rcases context with ⟨f1, o2, o3⟩
  cases o2 <;> cases o3 <;> simp_all [frames, ContextFrame.Budgeted, ownBudgets,
    ContextFrame.level, ContextFrame.data] <;> aesop

/-- The budgets of a well-formed context pass their check. -/
theorem validateBudget_ownBudgets {context : AgentContext} (h : context.WellFormed)
    (level : ContextLevel) : validateBudget (ownBudgets context level) = .ok () := by
  have hdata := h.data
  rcases context with ⟨f1, o2, o3⟩
  have hroot := (hdata (.one f1) (by simp [frames])).budget
  cases level with
  | one => exact hroot
  | two =>
    cases o2 with
    | none => exact hroot
    | some f => exact (hdata (.two f) (by simp [frames])).budget
  | three =>
    cases o3 with
    | none => exact hroot
    | some f => exact (hdata (.three f) (by simp [frames])).budget

/-- An archived context is accepted exactly if it is well-formed. -/
theorem validateRecord_frame {context : AgentContext} :
    validateRecord (.frame context) = .ok () ↔ context.WellFormed := by
  constructor
  · exact fun h => wellFormed_of_validateCheckpoint h
  · intro h
    simp only [validateRecord, validateCheckpoint, recordCheckpoint, check_bind_eq_ok,
      validateContext_eq_ok, validatePolicy, validateBudget_ownBudgets h]
    simp [integer, validateInbox, h, maxSafeInteger]
    exact budgeted_ownBudgets context

end OsAgent.Context
