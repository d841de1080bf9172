import Mathlib.Data.Finset.Basic
import OsAgent.Library.Check
import OsAgent.Library.Number
import OsAgent.Library.Rotation
import OsAgent.Library.Transition

/-!
# The ready queue

Tasks that are ready wait for their turn (`scheduler/ready-queue.ts`). The turns go round a schedule
that gives every depth some slots. A task is a candidate for the slots of its effective depth, which
grows with the time that it has waited, and is the greatest for a parent that was woken up. Among the
candidates for a slot such parents come first, and then those that were enqueued first. Times are exact
numbers. The threshold of aging is whatever has the type of a number, as long as it is not zero or
negative: under an infinite one nothing ages, and if it is no number, neither is the effective depth of
an entry that has to age.
-/

namespace OsAgent.Scheduler

open OsAgent.Library

/-- `MAX_SCHEDULING_DEPTH`. -/
def maxSchedulingDepth : ℕ := 3

/-- What the queue reads of a task's control block. -/
structure QueueTask where
  id : String
  depth : ℕ
  status : String := "READY"
deriving DecidableEq, Repr

/-- A task that waits. -/
structure QueueEntry where
  task : QueueTask
  order : ℕ
  enqueuedAt : ℚ
  parentWakeupBoost : Bool
deriving DecidableEq, Repr

/-- The slots of each depth in a turn of the schedule, and the time in which an entry rises by one. -/
structure ReadyQueuePolicy where
  depthWeights : ℕ → ℚ
  agingThresholdMs : Number

/-- The default policy. -/
def ReadyQueuePolicy.standard : ReadyQueuePolicy where
  depthWeights depth := match depth with
    | 1 => 1
    | 2 => 2
    | _ => 4
  agingThresholdMs := .finite 60000

/-- The queue. The set of the identities is the source's own, besides the entries. -/
structure ReadyQueue where
  policy : ReadyQueuePolicy
  schedule : List ℕ
  taskIds : Finset String := ∅
  entries : List QueueEntry := []
  nextOrder : ℕ := 0
  peakSize : ℕ := 0
  scheduleCursor : ℕ := 0

/-- The slots of one depth. -/
def depthSlots (weights : ℕ → ℚ) (depth : ℕ) : Except String (List ℕ) := do
  require ((weights depth).den = 1 ∧ 0 < weights depth)
    ("Ready queue weight for depth " ++ toString depth ++ " must be a positive integer.")
  pure (List.replicate (weights depth).num.toNat depth)

/-- The slots of one turn of the schedule, those of the greatest depth first. -/
def buildSchedule (weights : ℕ → ℚ) : Except String (List ℕ) := do
  let leaves ← depthSlots weights 3
  let middle ← depthSlots weights 2
  let roots ← depthSlots weights 1
  pure (leaves ++ middle ++ roots)

/-- The constructor. -/
def ReadyQueue.create (policy : ReadyQueuePolicy) : Except String ReadyQueue := do
  require (¬policy.agingThresholdMs ≤ .finite 0)
    "Ready queue aging threshold must be greater than zero."
  let schedule ← buildSchedule policy.depthWeights
  pure { policy, schedule }

/-- The depths by which an entry has risen. There are none under an infinite threshold, and what is
divided by no number is none. -/
def agingBoost (threshold : Number) (waited : ℚ) : Option ℕ :=
  match threshold with
  | .finite threshold => some ⌊waited / threshold⌋₊
  | .posInfinity => some 0
  | .negInfinity => some 0
  | .nan => none

/-- The depth for whose slots an entry is a candidate, if that is a number. -/
def effectiveDepth (policy : ReadyQueuePolicy) (entry : QueueEntry) (now : ℚ) : Option ℕ :=
  if entry.parentWakeupBoost then some maxSchedulingDepth
  else
    (agingBoost policy.agingThresholdMs (max 0 (now - entry.enqueuedAt))).map fun agingBoost =>
      min maxSchedulingDepth (entry.task.depth + agingBoost)

/-- The order among the candidates for a slot. -/
def servedBefore (left right : QueueEntry) : Bool :=
  if left.parentWakeupBoost = right.parentWakeupBoost then left.order ≤ right.order
  else left.parentWakeupBoost

namespace ReadyQueue

variable (s : ReadyQueue)

/-- Puts a task at the end of the queue. -/
def enqueue (now : ℚ) (task : QueueTask) (parentWakeupBoost : Bool) : Except String ReadyQueue := do
  require (task.status = "READY")
    ("Only READY tasks can be queued; " ++ task.id ++ " is " ++ task.status)
  require (¬(task.depth < 1 ∨ maxSchedulingDepth < task.depth))
    ("Task " ++ task.id ++ " has unsupported scheduling depth " ++ toString task.depth ++ ".")
  require (task.id ∉ s.taskIds) ("Task is already in the ready queue: " ++ task.id)
  pure { s with
    entries := s.entries ++ [{ task, order := s.nextOrder, enqueuedAt := now, parentWakeupBoost }]
    nextOrder := s.nextOrder + 1
    taskIds := insert task.id s.taskIds
    peakSize := max s.peakSize (s.entries.length + 1) }

/-- The entries of a depth with their indices, the one to be served first in front. -/
def candidates (now : ℚ) (desiredDepth : ℕ) : List (QueueEntry × ℕ) :=
  (s.entries.zipIdx.filter fun e => effectiveDepth s.policy e.1 now = some desiredDepth).mergeSort
    fun left right => servedBefore left.1 right.1

/-- What a turn selects: an entry, its index, and the distance of the slot from the cursor. -/
structure Selection where
  entry : QueueEntry
  entryIndex : ℕ
  offset : ℕ
deriving DecidableEq, Repr

/-- The candidate to be served in the slot at some distance from the cursor. -/
def selectAt (now : ℚ) (offset : ℕ) : Option Selection := do
  let desiredDepth ← slotAt s.schedule s.scheduleCursor offset
  let selected ← (s.candidates now desiredDepth).head?
  pure ⟨selected.1, selected.2, offset⟩

/-- What the next turn selects: the slots are tried one after the other, from the cursor on. -/
def selectNextEntry (now : ℚ) : Option Selection :=
  if s.entries.length = 0 then none
  else (List.range s.schedule.length).findSome? (s.selectAt now)

/-- Takes the selected entry out of the queue. -/
def take (selected : Selection) : ReadyQueue :=
  { s with
    entries := s.entries.eraseIdx selected.entryIndex
    taskIds := s.taskIds.erase selected.entry.task.id
    scheduleCursor := nextCursor s.schedule s.scheduleCursor selected.offset }

/-- Takes the task of the next turn out of the queue. -/
def dequeue (now : ℚ) : Option QueueTask × ReadyQueue :=
  match s.selectNextEntry now with
  | none => (none, s)
  | some selected => (some selected.entry.task, s.take selected)

/-- Takes a task out of the queue that is not to be run. -/
def remove (taskId : String) : Bool × ReadyQueue :=
  match s.entries.findIdx? fun entry => entry.task.id = taskId with
  | none => (false, s)
  | some entryIndex =>
    (true, { s with
      entries := s.entries.eraseIdx entryIndex
      taskIds := s.taskIds.erase taskId })

end ReadyQueue

/-! ## Runs -/

/-- The calls of the queue, with what the clock shows. -/
inductive QueueCall where
  | enqueue (now : ℚ) (task : QueueTask) (parentWakeupBoost : Bool)
  | dequeue (now : ℚ)
  | remove (taskId : String)
deriving DecidableEq, Repr

namespace QueueCall

/-- The reading of the clock, if the call reads it. -/
def time? : QueueCall → Option ℚ
  | .enqueue now _ _ => some now
  | .dequeue now => some now
  | .remove _ => none

/-- The call takes a turn. -/
def isDequeue : QueueCall → Bool
  | .dequeue _ => true
  | _ => false

end QueueCall

namespace ReadyQueue

variable (s : ReadyQueue)

/-- The queue after a call. An enqueue that throws leaves it as it was. -/
def after : QueueCall → ReadyQueue
  | .enqueue now task parentWakeupBoost =>
    match s.enqueue now task parentWakeupBoost with
    | .ok s' => s'
    | .error _ => s
  | .dequeue now => (s.dequeue now).2
  | .remove taskId => (s.remove taskId).2

/-- The task that a call takes out of the queue to be run. -/
def served : QueueCall → Option QueueTask
  | .dequeue now => (s.dequeue now).1
  | _ => none

/-- The call enqueues a parent that was woken up. -/
def boosts : QueueCall → Bool
  | .enqueue now task true => (s.enqueue now task true).isOk
  | _ => false

/-- The queue after some calls. -/
def afterAll : List QueueCall → ReadyQueue := List.foldl ReadyQueue.after s

/-- The tasks that some calls take out of the queue, in their order. -/
def servedAll (s : ReadyQueue) : List QueueCall → List QueueTask
  | [] => []
  | call :: calls => (s.served call).toList ++ (s.after call).servedAll calls

/-- How many of some calls enqueue a parent that was woken up. -/
def boostsAll (s : ReadyQueue) : List QueueCall → ℕ
  | [] => 0
  | call :: calls => (if s.boosts call then 1 else 0) + (s.after call).boostsAll calls

end ReadyQueue

/-- The number of dequeues among some calls. -/
def dequeues (calls : List QueueCall) : ℕ := calls.countP QueueCall.isDequeue

/-- The clock does not go back during some calls. -/
def Forward : ℚ → List QueueCall → Prop
  | _, [] => True
  | clock, call :: calls =>
    (∀ now, call.time? = some now → clock ≤ now) ∧ Forward (call.time?.getD clock) calls

/-- A queue, and the latest reading of its clock. -/
structure QueueRun where
  queue : ReadyQueue
  clock : ℚ

/-- The runs of a new queue. -/
def queueSystem (policy : ReadyQueuePolicy) : TransitionSystem QueueRun where
  init r := ReadyQueue.create policy = .ok r.queue
  step r r' := ∃ call : QueueCall, Forward r.clock [call] ∧
    r' = ⟨r.queue.after call, call.time?.getD r.clock⟩

end OsAgent.Scheduler
