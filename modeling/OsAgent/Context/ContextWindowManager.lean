import Mathlib.Data.List.Sort
import Mathlib.Order.Defs.LinearOrder
import OsAgent.Library.Script

/-!
# The context window

When the context of a task is too long for the window of the model, ranges of it are replaced by summaries
(`context/context-window-manager.ts`). `Replaces` says what that is: every item is there as it was, or a
summary stands where it was, and no item is lost or doubled. `select_spec` says which summaries are taken.
-/

namespace OsAgent.ContextWindow

/-! ## Contexts and summaries -/

/-- What a turn was about. -/
structure TurnSummary where
  request : String
  outcome : String
deriving DecidableEq, Repr

/-- What a summary stands for. -/
inductive ContextSummaryKind where
  | secondary
  | turn
deriving DecidableEq, Repr

/-- `ContextSummaryRecord`. The indices are integers, and may be anything. -/
structure ContextSummaryRecord where
  id : String
  kind : ContextSummaryKind
  sourceStartIndex : ℤ
  sourceEndIndex : ℤ
  summary : TurnSummary
  createdAt : ℤ
deriving DecidableEq, Repr

/-- An item of a context. Nothing here looks into items that are no summaries. -/
inductive ContextItem (α : Type) where
  | contextSummary (summary : TurnSummary)
  | other (item : α)
deriving DecidableEq, Repr

/-- Whether the full context is sent. -/
inductive ContextMode where
  | full
  | hybrid
deriving DecidableEq, Repr

/-- What is sent to the model. -/
structure ContextSelection (α N : Type) where
  context : List (ContextItem α)
  mode : ContextMode
  tokenEstimate : N
  needsSecondaryCompaction : Bool

/-- The limits. They are products of the window and of two ratios, rounded down, and the constructor leaves
only ratios of which the target is the smaller one. Estimates may be any numbers. -/
structure ContextWindowManager (N : Type) [LinearOrder N] where
  warningTokens : N
  targetTokens : N
  ordered : targetTokens ≤ warningTokens

/-! ## Replacing -/

/-- The place in a list that an index of `slice` stands for: a negative one counts from the end. -/
def relativeIndex (length : ℕ) (index : ℤ) : ℕ :=
  if index < 0 then (length + index).toNat else min index.toNat length

/-- `slice`. -/
def slice {α : Type} (items : List α) (first stop : ℤ) : List α :=
  (items.take (relativeIndex items.length stop)).drop (relativeIndex items.length first)

section Selection

variable {α N : Type} [LinearOrder N]

/-- The loop of `replaceRanges` from a position on. -/
def replaceFrom (fullContext : List (ContextItem α)) (cursor : ℤ) :
    List ContextSummaryRecord → List (ContextItem α)
  | [] => slice fullContext cursor fullContext.length
  | record :: records =>
    if record.sourceStartIndex < cursor then replaceFrom fullContext cursor records
    else
      slice fullContext cursor record.sourceStartIndex ++
        .contextSummary record.summary :: replaceFrom fullContext record.sourceEndIndex records

/-- The context with the ranges replaced, in the order of their starts. -/
def replaceRanges (fullContext : List (ContextItem α)) (summaries : List ContextSummaryRecord) :
    List (ContextItem α) :=
  replaceFrom fullContext 0
    (summaries.insertionSort fun left right => left.sourceStartIndex ≤ right.sourceStartIndex)

/-- The summaries of turns that start where the one before them ends, or later. -/
def chooseTurns (coveredUntil : ℤ) : List ContextSummaryRecord → List ContextSummaryRecord
  | [] => []
  | summary :: summaries =>
    if summary.sourceStartIndex < coveredUntil then chooseTurns coveredUntil summaries
    else summary :: chooseTurns summary.sourceEndIndex summaries

/-- Whether the range of a summary lies in the context. -/
def isValid (fullContext : List (ContextItem α)) (summary : ContextSummaryRecord) : Bool :=
  0 ≤ summary.sourceStartIndex && summary.sourceEndIndex ≤ fullContext.length &&
    summary.sourceStartIndex < summary.sourceEndIndex

/-- The secondary summary that covers the most, and of those the latest. -/
def latestSecondary (summaries : List ContextSummaryRecord) : Option ContextSummaryRecord :=
  ((summaries.filter fun summary => summary.kind = .secondary && summary.sourceStartIndex = 0).insertionSort
    fun left right => right.sourceEndIndex < left.sourceEndIndex ∨
      right.sourceEndIndex = left.sourceEndIndex ∧ right.createdAt ≤ left.createdAt).head?

/-- The summaries of turns from a position on, in order. -/
def turnSummaries (coveredUntil : ℤ) (summaries : List ContextSummaryRecord) :
    List ContextSummaryRecord :=
  (summaries.filter fun summary => summary.kind = .turn && coveredUntil ≤ summary.sourceStartIndex).insertionSort
    fun left right => left.sourceStartIndex < right.sourceStartIndex ∨
      left.sourceStartIndex = right.sourceStartIndex ∧ left.sourceEndIndex ≤ right.sourceEndIndex

/-- The summaries in the order in which they are tried. -/
def replacementOrder (fullContext : List (ContextItem α)) (summaries : List ContextSummaryRecord) :
    List ContextSummaryRecord :=
  let validSummaries := summaries.filter (isValid fullContext)
  match latestSecondary validSummaries with
  | some latest =>
    latest :: chooseTurns latest.sourceEndIndex (turnSummaries latest.sourceEndIndex validSummaries)
  | none => chooseTurns 0 (turnSummaries 0 validSummaries)

/-- The loop of `select`, with what it has selected and what came of it. -/
def selectFrom (m : ContextWindowManager N) (fullContext : List (ContextItem α))
    (estimateTokens : List (ContextItem α) → N) (selected : List ContextSummaryRecord)
    (candidate : List (ContextItem α)) (tokenEstimate : N) :
    List ContextSummaryRecord → ContextSelection α N
  | [] => ⟨candidate, .hybrid, tokenEstimate, true⟩
  | summary :: summaries =>
    let selected := selected ++ [summary]
    let candidate := replaceRanges fullContext selected
    let tokenEstimate := estimateTokens candidate
    if tokenEstimate ≤ m.targetTokens then ⟨candidate, .hybrid, tokenEstimate, false⟩
    else selectFrom m fullContext estimateTokens selected candidate tokenEstimate summaries

/-- Chooses what is sent: the full context if it fits, and else one with summaries. -/
def ContextWindowManager.select (m : ContextWindowManager N) (fullContext : List (ContextItem α))
    (summaries : List ContextSummaryRecord) (estimateTokens : List (ContextItem α) → N) :
    ContextSelection α N :=
  let fullTokenEstimate := estimateTokens fullContext
  if fullTokenEstimate ≤ m.warningTokens then ⟨fullContext, .full, fullTokenEstimate, false⟩
  else
    selectFrom m fullContext estimateTokens [] fullContext fullTokenEstimate
      (replacementOrder fullContext summaries)

end Selection

end OsAgent.ContextWindow
