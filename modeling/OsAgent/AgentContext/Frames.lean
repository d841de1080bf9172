import OsAgent.AgentContext.Types
import OsAgent.Library.Check

/-!
# Frames and the checks of their parts

`agent-context/internal/validation.ts` and the part of `internal/frames.ts` that reads or replaces
frames. The checks of the source take untyped JSON; here the types say what `object`, `keys`, `json`
and the comparisons with `typeof` check, and the checks that remain are those of values.
-/

namespace OsAgent.Context

open OsAgent.Library

/-- Throw an `AgentContextError` unless the condition holds. -/
def requireContext (condition : Prop) [Decidable condition] (message : String)
    (code : ContextErrorCode) : Except Fault Unit :=
  require condition (.context code message)

/-- A requirement passes exactly if it holds. -/
@[simp]
theorem requireContext_eq_ok {c : Prop} [Decidable c] {message : String}
    {code : ContextErrorCode} {u : Unit} : requireContext c message code = .ok u ↔ c :=
  require_eq_ok

/-- A value that must be there. -/
def requirePresent {α : Type} (value : Option α) (message : String) (code : ContextErrorCode) :
    Except Fault α :=
  match value with
  | some a => .ok a
  | none => .error (.context code message)

/-- A value that is required is there. -/
@[simp]
theorem requirePresent_eq_ok {α : Type} {value : Option α} {message : String}
    {code : ContextErrorCode} {a : α} : requirePresent value message code = .ok a ↔ value = some a := by
  cases value <;> simp [requirePresent]

/-! ## Values -/

/-- A text has to be more than white space. -/
def text (value : String) : Except Fault Unit :=
  requireContext (isBlank value = false) "字符串不能为空。" .invalidInput

/-- A number has to be safe and not below a minimum. -/
def integer (value minimum : ℕ) : Except Fault Unit :=
  requireContext (value ≤ maxSafeInteger ∧ minimum ≤ value)
    ("数值必须为不小于 " ++ toString minimum ++ " 的安全整数。") .invalidInput

/-- Texts have to be more than white space. -/
def strings (value : List String) : Except Fault Unit := value.forM text

/-- The bytes of the JSON text of a value. -/
def estimateContextTokens (value : JsonValue) : ℕ := byteLength (stringify value)

/-- The limits of a budget are positive and in order. -/
def validateBudget (value : ContextBudget) : Except Fault Unit := do
  integer value.maxTokens 1
  integer value.compactAtTokens 1
  integer value.targetTokens 1
  integer value.maxTasks 1
  requireContext (value.targetTokens < value.compactAtTokens ∧
      value.compactAtTokens < value.maxTokens)
    "预算必须满足 target < compactAt < max。" .invalidInput

/-- `checkRefs`: with no allowed references, every reference is allowed. -/
def checkRefs (allowedRefs : Option (List String)) (refs : List String) : Except Fault Unit := do
  strings refs
  checkIfPresent (fun allowed : List String =>
    requireContext (∀ ref ∈ refs, ref ∈ allowed) "总结引用不属于封存来源。" .invalidInput) allowedRefs

/-- An observation has a statement and sources. -/
def validateObservation (allowedRefs : Option (List String)) (item : ContextObservation) :
    Except Fault Unit := do
  text item.statement
  checkRefs allowedRefs item.sourceRefs
  requireContext (item.kind ≠ .fact ∨ 0 < item.sourceRefs.length) "事实必须带来源。" .invalidInput

/-- A lesson has a statement, a scope and sources. -/
def validateLesson (allowedRefs : Option (List String)) (item : ContextLesson) :
    Except Fault Unit := do
  text item.statement
  text item.scope
  checkRefs allowedRefs item.sourceRefs

/-- A summary has an outcome, and cites what it may. -/
def validateSummary (value : ContextSummary) (allowedRefs : Option (List String)) :
    Except Fault Unit := do
  text value.outcome
  strings value.decisions
  strings value.artifactRefs
  strings value.unresolved
  strings value.nextResponsibilities
  strings value.sourceRefs
  checkRefs allowedRefs value.sourceRefs
  checkRefs allowedRefs value.artifactRefs
  value.observations.forM (validateObservation allowedRefs)
  value.lessonCandidates.forM (validateLesson allowedRefs)

/-- A summary with only an outcome, as the checks of lessons and observations and `summaryCapacity`
build it. -/
def ContextSummary.only (outcome : String) : ContextSummary where
  outcome
  observations := []
  decisions := []
  artifactRefs := []
  unresolved := []
  nextResponsibilities := []
  lessonCandidates := []
  sourceRefs := []

/-- An entry has an identity, a time and content that passes its check. -/
def validateEntry (value : ContextEntry) : Except Fault Unit := do
  text value.id
  integer value.createdAt 0
  match value.content with
  | .message _ content attachmentRefs =>
    text content
    checkIfPresent strings attachmentRefs
  | .event name _ => text name
  | .toolCall callId toolName _ => do
    text callId
    text toolName
  | .toolResult callId toolName _ => do
    text callId
    text toolName
  | .observation observation =>
    validateSummary { ContextSummary.only "观察校验" with observations := [observation] } none

/-! ## Frames -/

/-- The innermost frame. -/
def active (context : AgentContext) : ContextFrame :=
  match context.level3, context.level2 with
  | some frame, _ => .three frame
  | none, some frame => .two frame
  | none, none => .one context.level1

/-- The frames, from the root down. -/
def frames (context : AgentContext) : List ContextFrame :=
  .one context.level1 :: (context.level2.toList.map .two ++ context.level3.toList.map .three)

/-- Replaces the frame of a level. -/
def replaceFrame (context : AgentContext) : ContextFrame → Except Fault AgentContext
  | .one frame => .ok { context with level1 := frame }
  | .two frame => .ok { context with level2 := some frame }
  | .three frame => do
    requireContext (context.level2.isSome) "第三层不能脱离第二层。" .invalidState
    return { context with level3 := some frame }

/-- `{ ...frame, memory }`. -/
def ContextFrame.withMemory (frame : ContextFrame) (memory : ContextMemory) : ContextFrame :=
  frame.withData { frame.data with memory }

/-- `{ ...frame, budget }`. -/
def ContextFrame.withBudget (frame : ContextFrame) (budget : ContextBudget) : ContextFrame :=
  frame.withData { frame.data with budget }

/-- The chain of a frame keeps its target, so `setChain` always accepts it. -/
def setChain (frame : ContextFrame) (chain : ContextTaskChain) : ContextFrame :=
  frame.withData { frame.data with taskChain := chain }

/-- A chain that is to be planned. -/
def emptyChain (revision : ℕ) : ContextTaskChain where
  revision
  tasks := []
  phase := .planning none

/-- A memory of nothing. -/
def emptyMemory : ContextMemory where
  summary := none
  lessons := []
  recentEntries := []
  historyRef := none

/-- The frame with entries appended to its recent ones. -/
def ContextFrame.withEntries (frame : ContextFrame) (entries : List ContextEntry) : ContextFrame :=
  frame.withMemory { frame.data.memory with
    recentEntries := frame.data.memory.recentEntries ++ entries }

/-- The size of a frame. -/
def ContextFrame.size (frame : ContextFrame) : ℕ := estimateContextTokens frame.toJson

/-- Where a result for the frame's present plan is to go. -/
def ContextFrame.cursor (frame : ContextFrame) : ContextCursor where
  frameId := frame.data.id
  planRevision := frame.data.taskChain.revision

/-- The cursor has to be that of the frame. -/
def assertCursor (frame : ContextFrame) (cursor : ContextCursor) : Except Fault Unit :=
  requireContext (frame.data.id = cursor.frameId ∧
      frame.data.taskChain.revision = cursor.planRevision)
    "上下文或计划版本已变化。" .staleContext

/-- The check of the size of one frame, and of how many tasks it has. -/
def assertBudget (frame : ContextFrame) : Except Fault Unit := do
  requireContext (frame.size ≤ frame.data.budget.maxTokens)
    ("第 " ++ toString frame.level.toNat ++ " 层超过硬容量上限；请缩短内容或使用存储引用。") .budgetExceeded
  requireContext (frame.data.taskChain.tasks.length ≤ frame.data.budget.maxTasks)
    "任务数量超过层级上限。" .budgetExceeded

/-- Every frame is within its budget. -/
def assertBudgets (context : AgentContext) : Except Fault Unit :=
  (frames context).forM assertBudget

/-- The objective of the task of the parent to which a frame refers. The task must be the one that
the parent runs. -/
def parentObjective (parent : Option ContextFrameData) (task : ContextTaskRef) :
    Except Fault String := do
  let parent ← requirePresent
    (parent.filter fun p => p.id = task.frameId ∧ p.taskChain.revision = task.planRevision)
    "父任务引用已失效。" .staleContext
  let found ← requirePresent
    ((parent.taskChain.tasks.find? fun t => t.id = task.taskId).filter fun t =>
      t.state = .running ∧ parent.taskChain.phase = .executing t.id)
    "子层必须指向父层当前运行的任务。" .staleContext
  return found.objective

/-- What a frame is for. -/
def objective (context : AgentContext) : ContextFrame → Except Fault String
  | .one frame => .ok frame.currentTask.objective
  | .two frame => parentObjective (some context.level1.toContextFrameData) frame.currentTask
  | .three frame =>
    parentObjective (context.level2.map (·.toContextFrameData)) frame.currentTask

end OsAgent.Context
