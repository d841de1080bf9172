import Mathlib.Data.Finset.Card
import Mathlib.Data.Finset.Insert
import OsAgent.Library.Check
import OsAgent.Library.Program
import OsAgent.Library.Transition

/-!
# The agent pool

The pool counts the live agents and the slots that are reserved for children which are still to be
created (`scheduler/agent-pool.ts`). A reservation is settled once: its holder commits the children,
or closes it. Both give its slots back. The pool's methods throw, and keep what was written before.

A run of the pool is a sequence of calls. `Run` keeps what each call found and what it left, so that
the children that were ever committed can be counted.
-/

namespace OsAgent.Scheduler

open OsAgent.Library

/-- `MAX_AGENT_DEPTH`. -/
def maxAgentDepth : ℕ := 3

/-- The limits of a pool. -/
structure AgentPoolPolicy where
  maxDepth : ℕ
  maxLiveAgents : ℕ
  maxSpawnedPerRoot : ℕ
deriving DecidableEq, Repr

/-- Where a task stands in its tree. -/
structure Lineage where
  parentTaskId : Option String
  rootTaskId : String
  depth : ℕ
deriving DecidableEq, Repr

/-- What the pool reads of a task's control block. -/
structure PoolTask extends Lineage where
  id : String
  terminated : Bool := false
deriving DecidableEq, Repr

/-- Why no agents are reserved. -/
inductive SpawnRejectionReason where
  | livePoolExhausted
  | maxDepthExceeded
  | parentNotLive
  | rootSpawnLimitExceeded
deriving DecidableEq, Repr

/-- A number of slots that are held for the children of a task. -/
structure SpawnReservation where
  count : ℕ
  parent : PoolTask
  settled : Bool := false
deriving DecidableEq, Repr

/-- The pool, with the reservations that it has handed out, oldest first. -/
structure AgentPool where
  policy : AgentPoolPolicy
  liveTaskIds : Finset String := ∅
  restoredTaskIds : Finset String := ∅
  parentByChild : String → Option String := fun _ => none
  childrenByParent : String → List String := fun _ => []
  spawnedByRoot : String → Option ℤ := fun _ => none
  reservedByRoot : String → Option ℤ := fun _ => none
  reservedLiveSlots : ℤ := 0
  peakLiveCount : ℤ := 0
  reservations : List SpawnReservation := []

/-- The constructor. -/
def AgentPool.create (policy : AgentPoolPolicy) : Except String AgentPool := do
  require (0 < policy.maxDepth ∧ policy.maxDepth ≤ maxAgentDepth ∧ 0 < policy.maxLiveAgents)
    ("Agent pool limits must be valid integers and maxDepth must be between 1 and " ++
      toString maxAgentDepth ++ ".")
  pure { policy }

/-- `Set.prototype.add` on the insertion order. -/
def addTo (ids : List String) (id : String) : List String := if id ∈ ids then ids else ids ++ [id]

namespace AgentPool

variable (s : AgentPool)

/-- The agents that are live. -/
def liveCount : ℤ := s.liveTaskIds.card

/-- The agents that may still become live. -/
def availableLiveSlots : ℤ :=
  max 0 (s.policy.maxLiveAgents - s.liveTaskIds.card - s.reservedLiveSlots)

/-- Whether a task is live. -/
def isLive (taskId : String) : Bool := taskId ∈ s.liveTaskIds

/-- The children of a task. -/
def childrenOf (parentTaskId : String) : List String := s.childrenByParent parentTaskId

/-- The agents that were spawned in a tree. -/
def spawnedCount (rootTaskId : String) : ℤ := (s.spawnedByRoot rootTaskId).getD 0

/-- The slots that are reserved in the tree of a root. -/
def reservedCount (rootTaskId : String) : ℤ := (s.reservedByRoot rootTaskId).getD 0

/-- Notes how many agents were live at most. -/
def updatePeakLiveCount : AgentPool :=
  { s with peakLiveCount := max s.peakLiveCount s.liveTaskIds.card }

/-- The number of children spawned in the tree of a root. -/
def setSpawned (rootTaskId : String) (count : ℤ) : AgentPool :=
  { s with spawnedByRoot := Function.update s.spawnedByRoot rootTaskId (some count) }

/-- A task is live from now on. -/
def addLive (taskId : String) : AgentPool :=
  { s with liveTaskIds := insert taskId s.liveTaskIds }

/-- Lists a child under its parent. -/
def addChild (parentTaskId childTaskId : String) : AgentPool :=
  { s with
    parentByChild := Function.update s.parentByChild childTaskId (some parentTaskId)
    childrenByParent := Function.update s.childrenByParent parentTaskId
      (addTo (s.childrenByParent parentTaskId) childTaskId) }

/-- Some reservations of a tree end. -/
def decrementRootReservation (rootTaskId : String) (count : ℤ) : AgentPool :=
  let remaining := s.reservedCount rootTaskId - count
  { s with
    reservedByRoot := Function.update s.reservedByRoot rootTaskId
      (if remaining ≤ 0 then none else some remaining) }

/-- The closure `release` of a reservation. -/
def giveBack (reservation : SpawnReservation) : AgentPool :=
  { s with reservedLiveSlots := s.reservedLiveSlots - reservation.count }.decrementRootReservation
    reservation.parent.rootTaskId reservation.count

/-- The reservation at an index has been settled. -/
def settle (index : ℕ) : AgentPool :=
  { s with
    reservations := s.reservations.modify index fun reservation =>
      { reservation with settled := true } }

end AgentPool

/-- The methods of the pool, and of the reservations that it hands out. -/
abbrev PoolM := EStateM String AgentPool

/-- Registers the root of a tree. -/
def registerRoot (task : PoolTask) : PoolM Unit := do
  let s ← get
  if task.parentTaskId ≠ none ∨ task.depth ≠ 1 then
    throw ("Task " ++ task.id ++ " is not a root task.")
  else if task.id ∈ s.liveTaskIds then
    throw ("Root task is already live: " ++ task.id)
  else if s.availableLiveSlots ≤ 0 then
    throw "Agent pool has no free live slots for a root task."
  else
    set ((s.addLive task.id).updatePeakLiveCount.setSpawned task.rootTaskId 0)

/-- Starts to count the children in the tree of a root, unless they are counted already. -/
def AgentPool.openTree (s : AgentPool) (rootTaskId : String) : AgentPool :=
  if s.spawnedByRoot rootTaskId = none then s.setSpawned rootTaskId 0 else s

/-- Counts a restored task against its root, once. -/
def AgentPool.countRestored (s : AgentPool) (task : PoolTask) : AgentPool :=
  let s := { s with restoredTaskIds := insert task.id s.restoredTaskIds }.openTree task.rootTaskId
  if task.parentTaskId = none then s
  else s.setSpawned task.rootTaskId (s.spawnedCount task.rootTaskId + 1)

/-- Registers a task that was saved, once. -/
def registerRestored (task : PoolTask) : PoolM Unit := do
  let s ← get
  if task.id ∈ s.restoredTaskIds then pure ()
  else if task.terminated = false ∧ s.availableLiveSlots ≤ 0 then
    throw ("Agent pool cannot restore task " ++ task.id ++ ": pool is full.")
  else if task.terminated then
    set (s.countRestored task)
  else
    let s := ((s.countRestored task).addLive task.id).updatePeakLiveCount
    match task.parentTaskId with
    | none => set s
    | some parentTaskId => set (s.addChild parentTaskId task.id)

/-- Reserves slots for the children of a task, and returns the index of the reservation. A count that
is no integer is rejected as zero is. -/
def tryReserveChildren (parent : PoolTask) (count : ℕ) :
    PoolM (Except SpawnRejectionReason ℕ) := do
  let s ← get
  if parent.id ∉ s.liveTaskIds then
    return .error .parentNotLive
  else if s.policy.maxDepth ≤ parent.depth then
    return .error .maxDepthExceeded
  else if count = 0 then
    throw "Spawn count must be a positive integer."
  else if s.availableLiveSlots < count then
    return .error .livePoolExhausted
  else if s.policy.maxSpawnedPerRoot <
      s.spawnedCount parent.rootTaskId + s.reservedCount parent.rootTaskId + count then
    return .error .rootSpawnLimitExceeded
  else
    set { s with
      reservedLiveSlots := s.reservedLiveSlots + count
      reservedByRoot := Function.update s.reservedByRoot parent.rootTaskId
        (some (s.reservedCount parent.rootTaskId + count))
      reservations := s.reservations ++ [SpawnReservation.mk count parent false] }
    return .ok s.reservations.length

/-- The loop that checks the children: each has the lineage that was reserved for, and none is
live. -/
def checkChildren (parent : PoolTask) (liveTaskIds : Finset String) (childTasks : List PoolTask) :
    Except String Unit := do
  require (childTasks.map (·.id)).Nodup "Spawned child task IDs must be unique."
  childTasks.forM fun child => do
    require (child.parentTaskId = some parent.id ∧ child.rootTaskId = parent.rootTaskId ∧
      child.depth = parent.depth + 1)
      ("Child task " ++ child.id ++ " does not match its reserved lineage.")
    require (child.id ∉ liveTaskIds) ("Child task is already live: " ++ child.id)

/-- The loop that adds the children. -/
def AgentPool.addChildren (s : AgentPool) (parentTaskId : String) (childTasks : List PoolTask) :
    AgentPool :=
  childTasks.foldl (fun s child => (s.addLive child.id).addChild parentTaskId child.id) s

/-- The closure `commitReservation`. -/
def commitReservation (reservation : SpawnReservation) (childTasks : List PoolTask) :
    PoolM Unit := do
  modify (·.giveBack reservation)
  checkChildren reservation.parent (← get).liveTaskIds childTasks
  modify fun s => (s.addChildren reservation.parent.id childTasks).updatePeakLiveCount
  modify fun s => s.setSpawned reservation.parent.rootTaskId
    (s.spawnedCount reservation.parent.rootTaskId + reservation.count)

/-- `SpawnReservation.commit`, on the reservation at an index. -/
def commit (index : ℕ) (reservation : SpawnReservation) (childTasks : List PoolTask) :
    PoolM Unit := do
  if reservation.settled then
    throw "Spawn reservation has already been settled."
  else if childTasks.length ≠ reservation.count then
    throw ("Spawn reservation expected " ++ toString reservation.count ++ " children, received " ++
      toString childTasks.length ++ ".")
  else
    modify (·.settle index)
    commitReservation reservation childTasks

/-- `SpawnReservation.close`, on the reservation at an index. -/
def close (index : ℕ) (reservation : SpawnReservation) : PoolM Unit := do
  if reservation.settled then pure ()
  else
    modify (·.settle index)
    modify (·.giveBack reservation)

/-- `release`: a task is no longer live, and its parent does not list it any more. -/
def release (taskId : String) : PoolM Bool := do
  let s ← get
  if taskId ∉ s.liveTaskIds then return false
  else
    let s := { s with liveTaskIds := s.liveTaskIds.erase taskId }
    match s.parentByChild taskId with
    | none => set s
    | some parentTaskId =>
      set { s with
        parentByChild := Function.update s.parentByChild taskId none
        childrenByParent := Function.update s.childrenByParent parentTaskId
          ((s.childrenByParent parentTaskId).filter (· ≠ taskId)) }
    return true

/-! ## Runs -/

/-- A call of the pool or of a reservation. -/
inductive PoolCall where
  | registerRoot (task : PoolTask)
  | registerRestored (task : PoolTask)
  | tryReserveChildren (parent : PoolTask) (count : ℕ)
  | commit (index : ℕ) (childTasks : List PoolTask)
  | close (index : ℕ)
  | release (taskId : String)
deriving DecidableEq, Repr

/-- The method of a reservation that the pool has handed out. -/
def withReservation (index : ℕ) (method : SpawnReservation → PoolM Unit) : PoolM Unit := do
  match (← get).reservations[index]? with
  | none => pure ()
  | some reservation => method reservation

/-- What a call runs. -/
def PoolCall.perform : PoolCall → PoolM Unit
  | .registerRoot task => Scheduler.registerRoot task
  | .registerRestored task => Scheduler.registerRestored task
  | .tryReserveChildren parent count => do
    let _ ← Scheduler.tryReserveChildren parent count
  | .commit index childTasks => withReservation index fun reservation =>
    Scheduler.commit index reservation childTasks
  | .close index => withReservation index fun reservation => Scheduler.close index reservation
  | .release taskId => do
    let _ ← Scheduler.release taskId

/-- A call of a reservation is one of a reservation that was handed out. -/
def PoolCall.Enabled (s : AgentPool) : PoolCall → Prop
  | .commit index _ | .close index => index < s.reservations.length
  | _ => True

/-- A call that was made: whether it returned, and the pool before and after it. -/
structure PoolEvent where
  call : PoolCall
  returned : Bool
  before : AgentPool
  after : AgentPool

/-- What a call does to a pool. -/
def PoolCall.event (call : PoolCall) (s : AgentPool) : PoolEvent :=
  match call.perform s with
  | .ok () s' => ⟨call, true, s, s'⟩
  | .error _ s' => ⟨call, false, s, s'⟩

/-- A pool and the calls that led to it, oldest first. -/
structure PoolRun where
  pool : AgentPool
  history : List PoolEvent

/-- A run of calls on a pool that was created with a policy. -/
def poolSystem (policy : AgentPoolPolicy) : TransitionSystem PoolRun where
  init s := AgentPool.create policy = .ok s.pool ∧ s.history = []
  step s s' := ∃ call : PoolCall, call.Enabled s.pool ∧
    s' = ⟨(call.event s.pool).after, s.history ++ [call.event s.pool]⟩

end OsAgent.Scheduler
