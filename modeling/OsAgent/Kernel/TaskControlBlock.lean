import OsAgent.Kernel.WorkGraph
import OsAgent.Library.Program
import OsAgent.Library.Search

/-!
# The task control block

The state of a task in the kernel (`kernel/task-control-block.ts`): the scheduling state, the context,
the table of asynchronous work, and the work graph. Its methods throw, and keep what was written before.
The events that the methods record are left out: no method reads them.
-/

namespace OsAgent.Kernel

open OsAgent.Library OsAgent.Capability

/-! ## The state -/

/-- The scheduling state of a task, with what the methods here read of it. -/
inductive TaskState where
  | ready (enteredAt : Timestamp)
  | running (enteredAt : Timestamp)
  | blocked (enteredAt : Timestamp) (reason : String) (waitingFor : List String)
  | terminated (enteredAt : Timestamp) (termination : Termination)
deriving Repr

/-- `TaskStatus`. -/
inductive TaskStatus where
  | ready
  | running
  | blocked
  | terminated
deriving DecidableEq, Repr

/-- The status of a state. -/
def TaskState.status : TaskState → TaskStatus
  | .ready _ => .ready
  | .running _ => .running
  | .blocked .. => .blocked
  | .terminated .. => .terminated

/-- The word for a status. -/
def TaskStatus.text : TaskStatus → String
  | .ready => "READY"
  | .running => "RUNNING"
  | .blocked => "BLOCKED"
  | .terminated => "TERMINATED"

/-- `LEGAL_TRANSITIONS`. -/
def legalTransitions : TaskStatus → List TaskStatus
  | .ready => [.running, .terminated]
  | .running => [.blocked, .ready, .terminated]
  | .blocked => [.ready, .terminated]
  | .terminated => []

/-- What is kept of a node of a graph that was replaced. -/
structure RevisedNode where
  «alias» : String
  kind : AgentWorkNodeKind
  status : AgentWorkNodeStatus
  result : Option JsonValue
  error : Option String
deriving Repr

/-- An item of the context. The items that the methods here do not write are known by their type. -/
inductive ContextItem where
  | asyncWorkUpdate (update : AsyncWorkUpdate)
  | workGraphRevision (revision : ℕ) (goal : String) (completionCriteria : List String)
      (nodes : List RevisedNode)
  | other (type : String)
deriving Repr

/-- What is kept of a task. -/
structure TaskControlBlock where
  state : TaskState
  context : List ContextItem := []
  asyncWorkGenerations : List AsyncWorkGeneration := []
  workGraph : Option AgentWorkGraph := none
deriving Repr

/-- A method of the control block. -/
abbrev TaskM := EStateM String TaskControlBlock

/-! ## Asynchronous work -/

namespace TaskControlBlock

variable (s : TaskControlBlock)

/-- All work that was ever registered. -/
def works : List AsyncWorkRecord := s.asyncWorkGenerations.flatMap AsyncWorkGeneration.work

/-- The open generation. -/
def activeAsyncWorkGeneration : Option AsyncWorkGeneration :=
  findLast? AsyncWorkGeneration.isOpen s.asyncWorkGenerations

/-- Changes the open generation that `p` is about. -/
def modifyGeneration (p : AsyncWorkGeneration → Bool)
    (change : AsyncWorkGeneration → AsyncWorkGeneration) : TaskControlBlock :=
  { s with asyncWorkGenerations := modifyLast p change s.asyncWorkGenerations }

/-- A generation of its own for work that is registered when none is open. -/
def withOpenGeneration (generationId : String) (now : Timestamp) : TaskControlBlock :=
  match s.activeAsyncWorkGeneration with
  | some _ => s
  | none =>
    { s with
      asyncWorkGenerations := s.asyncWorkGenerations ++
        [{ generationId, createdAt := now, work := [] }] }

end TaskControlBlock

/-- Work as it is registered. -/
def AsyncWorkRegistration.start (registration : AsyncWorkRegistration) (now : Timestamp) :
    AsyncWorkRecord :=
  { registration with status := .running, startedAt := now }

/-- `registerAsyncWork`, with the identity that a new generation would get. -/
def registerAsyncWork (registrations : List AsyncWorkRegistration) (generationId : String)
    (now : Timestamp) : TaskM Unit := do
  let s ← get
  let registrationIds := registrations.map AsyncWorkRegistration.workId
  if registrations = [] then throw "At least one asynchronous work item is required."
  if ¬ registrationIds.Nodup then throw "Asynchronous work IDs must be unique."
  match registrationIds.find? (· ∈ s.works.map fun work => work.workId) with
  | some reusedWorkId => throw ("Asynchronous work ID has already been used: " ++ reusedWorkId)
  | none =>
    set ((s.withOpenGeneration generationId now).modifyGeneration AsyncWorkGeneration.isOpen
      fun generation =>
        { generation with
          work := generation.work ++ registrations.map fun registration => registration.start now })

/-- The generation is open and has a work of this id. -/
def AsyncWorkGeneration.holds (workId : String) (generation : AsyncWorkGeneration) : Bool :=
  generation.isOpen && generation.work.any fun work => work.workId = workId

/-- The work is that of a child. -/
def AsyncWorkRecord.isOfChild (childTaskId : String) (work : AsyncWorkRecord) : Bool :=
  work.kind = .subagent && work.childTaskId = some childTaskId

/-- The generation is open and has the work of a child. -/
def AsyncWorkGeneration.holdsChild (childTaskId : String) (generation : AsyncWorkGeneration) :
    Bool :=
  generation.isOpen && generation.work.any (AsyncWorkRecord.isOfChild childTaskId)

/-- Changes the first work of a generation that `p` is about. -/
def AsyncWorkGeneration.modifyWork (p : AsyncWorkRecord → Bool)
    (change : AsyncWorkRecord → AsyncWorkRecord) (generation : AsyncWorkGeneration) :
    AsyncWorkGeneration :=
  { generation with work := modifyFirst p change generation.work }

/-- Completes work of the open generation. -/
def completeAsyncWork (workId : String) (status : AsyncWorkStatus) (now : Timestamp)
    (output : Option JsonValue) (termination : Option Termination) (error : Option String) :
    TaskM Unit := do
  let s ← get
  match findLast? (AsyncWorkGeneration.holds workId) s.asyncWorkGenerations with
  | none => throw ("Asynchronous work is not active: " ++ workId)
  | some generation =>
    match generation.work.find? fun work => work.workId = workId with
    | none => throw ("Asynchronous work is already terminal: " ++ workId)
    | some work =>
      if work.terminal then throw ("Asynchronous work is already terminal: " ++ workId)
      else
        set (s.modifyGeneration (AsyncWorkGeneration.holds workId)
          (AsyncWorkGeneration.modifyWork (fun work => work.workId = workId)
            fun work => work.finish status now output termination error))

/-- A tool returned. -/
def completeToolWork (workId : String) (output : JsonValue) (now : Timestamp) : TaskM Unit :=
  completeAsyncWork workId .completed now (some output) none none

/-- A tool failed. -/
def failToolWork (workId error : String) (now : Timestamp) : TaskM Unit :=
  completeAsyncWork workId .failed now none none (some error)

/-- The status of the work of a child that has ended. -/
def Termination.workStatus : Termination → AsyncWorkStatus
  | .failed _ => .failed
  | .cancelled _ => .cancelled
  | .completed _ => .completed
  | .needsParentAction .. => .completed

/-- A child ended. -/
def completeSubagentWork (workId : String) (termination : Termination) (now : Timestamp) :
    TaskM Unit :=
  completeAsyncWork workId termination.workStatus now none (some termination) none

/-- Changes the work of a child in an open generation, if `allowed` says that it may be changed. -/
def modifySubagentWork (childTaskId : String) (allowed : AsyncWorkRecord → Except String Unit)
    (missing : String) (change : AsyncWorkRecord → AsyncWorkRecord) : TaskM Unit := do
  let s ← get
  match findLast? (AsyncWorkGeneration.holdsChild childTaskId) s.asyncWorkGenerations with
  | none => throw ("Subagent work is not active for child: " ++ childTaskId)
  | some generation =>
    match generation.work.find? (AsyncWorkRecord.isOfChild childTaskId) with
    | none => throw missing
    | some work =>
      allowed work
      set (s.modifyGeneration (AsyncWorkGeneration.holdsChild childTaskId)
        (AsyncWorkGeneration.modifyWork (AsyncWorkRecord.isOfChild childTaskId) change))

/-- A child waits for a capability. -/
def markSubagentWaitingForCapability (childTaskId requestRef : String)
    (requests : List CapabilityRequest) (now : Timestamp) : TaskM Unit :=
  modifySubagentWork childTaskId
    (fun work => do
      require (work.terminal = false) ("Subagent work is not running: " ++ childTaskId)
      require work.blocker.isNone
        ("Subagent work already has a capability blocker: " ++ childTaskId))
    ("Subagent work is not running: " ++ childTaskId)
    fun work =>
      { work with
        blocker := some { requestRef, requests, blockedAt := now }
        status := .waitingForCapability }

/-- A request of a child was resolved. -/
def clearSubagentCapabilityBlocker (childTaskId requestRef : String) : TaskM Unit :=
  modifySubagentWork childTaskId
    (fun work => require (work.status = .waitingForCapability ∧
        work.blocker.map AsyncWorkCapabilityBlocker.requestRef = some requestRef)
      ("Subagent capability blocker is not active: " ++ requestRef))
    ("Subagent capability blocker is not active: " ++ requestRef)
    fun work => { work with status := .running, blocker := none }

/-- The task has been told of a blocker, and has not decided on it. -/
def AsyncWorkRecord.toldOfBlocker (work : AsyncWorkRecord) : Bool :=
  work.status = .waitingForCapability && work.blocker.any fun blocker => blocker.deliveredAt.isSome

/-- The blockers of the open generation are to be delivered again. -/
def requeueActiveCapabilityBlockers : TaskM ℕ := do
  let s ← get
  match s.activeAsyncWorkGeneration with
  | none => pure 0
  | some generation =>
    set (s.modifyGeneration AsyncWorkGeneration.isOpen fun generation =>
      { generation with work := generation.work.map AsyncWorkRecord.requeueBlocker })
    pure (generation.work.countP AsyncWorkRecord.toldOfBlocker)

/-- The open generation has brought what was not seen of it into the context. -/
def TaskControlBlock.claim (s : TaskControlBlock) (update : AsyncWorkUpdate) (now : Timestamp) :
    TaskControlBlock :=
  { s with
    asyncWorkGenerations := modifyLast AsyncWorkGeneration.isOpen
      (fun generation => generation.claimed now) s.asyncWorkGenerations
    context := s.context ++ [ContextItem.asyncWorkUpdate update] }

/-- Delivers what is new of the open generation, which is closed when all of it is over. -/
def claimAsyncWorkUpdate (now : Timestamp) : TaskM (Option AsyncWorkUpdate) := do
  let s ← get
  match s.activeAsyncWorkGeneration with
  | none => pure none
  | some generation =>
    if generation.work.filter AsyncWorkRecord.undelivered = [] ∧
        generation.work.filter AsyncWorkRecord.newlyBlocked = [] then pure none
    else
      let update := generation.update now
      set (s.claim update now)
      pure (some update)

/-! ## The work graph -/

/-- What the context keeps of a node of a graph that is replaced. -/
def AgentWorkNode.revised (node : AgentWorkNode) : RevisedNode where
  «alias» := node.alias
  kind := node.kind
  status := node.status
  result := node.result
  error := node.error

/-- Changes the first node with an alias. -/
def AgentWorkGraph.modifyNode (graph : AgentWorkGraph) (name : String)
    (change : AgentWorkNode → AgentWorkNode) : AgentWorkGraph :=
  { graph with nodes := modifyFirst (fun node => node.alias = name) change graph.nodes }

/-- Writes the work graph. -/
def setWorkGraph (graph : AgentWorkGraph) : TaskM Unit :=
  modify fun s => { s with workGraph := some graph }

/-- Replaces the graph while it is planned. -/
def replaceWorkGraph (proposal : AgentWorkGraphProposal) (now : Timestamp) : TaskM Unit := do
  let s ← get
  if agentWorkGraphMode s.workGraph ≠ .plan then
    throw "Agent work graph can only be replaced in plan mode."
  match s.workGraph with
  | none => pure ()
  | some graph =>
    set { s with
      context := s.context ++ [ContextItem.workGraphRevision graph.revision graph.goal
        graph.completionCriteria (graph.nodes.map AgentWorkNode.revised)] }
  let revision := (s.workGraph.map AgentWorkGraph.revision).getD 0 + 1
  let graph ← createAgentWorkGraph proposal revision now
  setWorkGraph graph

/-- The graph, which has to be there. -/
def requireWorkGraph : TaskM AgentWorkGraph := do
  match (← get).workGraph with
  | none => throw "Agent work graph has not been created."
  | some graph => pure graph

/-- A node of the graph, which has to be there. -/
def requireWorkGraphNode (graph : AgentWorkGraph) (name : String) : TaskM AgentWorkNode :=
  match graph.nodes.find? fun node => node.alias = name with
  | none => throw ("Agent work node is not registered: " ++ name)
  | some node => pure node

/-- A node has to be ready before it is begun. -/
def assertWorkGraphNodeReady (graph : AgentWorkGraph) (node : AgentWorkNode) : TaskM Unit :=
  if (readyAgentWorkNodes graph).any fun candidate => candidate.alias = node.alias then pure ()
  else throw ("Agent work node is not ready: " ++ node.alias)

/-- A node that starts now, unless it has started before. -/
def AgentWorkNode.started (node : AgentWorkNode) (now : Timestamp) : AgentWorkNode :=
  { node with startedAt := some (node.startedAt.getD now) }

/-- Begins a node that the agent does itself. -/
def activateSelfWorkGraphNode (name : String) (now : Timestamp) : TaskM Unit := do
  let graph ← requireWorkGraph
  match graph.currentNodeAlias with
  | some current => throw ("Agent work graph already has an active self node: " ++ current)
  | none =>
    let node ← requireWorkGraphNode graph name
    if node.assignee ≠ .self then throw ("Agent work node is not assigned to self: " ++ name)
    assertWorkGraphNodeReady graph node
    setWorkGraph
      { graph.modifyNode name fun node => { node.started now with status := .ready } with
        currentNodeAlias := some name, updatedAt := now }

/-- A node that waits for a child. -/
def AgentWorkNode.delegated (node : AgentWorkNode) (childTaskId : String) (now : Timestamp) :
    AgentWorkNode :=
  { node.started now with
    childTaskId := some childTaskId
    blockedReason := some "waiting_for_subagent"
    waitingFor := some [childTaskId]
    status := .blocked }

/-- Begins a node that a child does. -/
def bindDelegatedWorkGraphNode (name childTaskId : String) (now : Timestamp) : TaskM Unit := do
  let graph ← requireWorkGraph
  let node ← requireWorkGraphNode graph name
  if node.assignee = .self then throw ("Agent work node is not assigned to a character: " ++ name)
  assertWorkGraphNodeReady graph node
  setWorkGraph
    { graph.modifyNode name fun node => node.delegated childTaskId now with updatedAt := now }

/-- A node whose work is done. -/
def AgentWorkNode.completed (node : AgentWorkNode) (output : JsonValue) (now : Timestamp) :
    AgentWorkNode :=
  { node with
    result := some output
    completedAt := some now
    blockedReason := none
    waitingFor := none
    status := .completed }

/-- Completes the node at hand. -/
def completeCurrentWorkGraphNode (output : JsonValue) (now : Timestamp) : TaskM Unit := do
  let graph ← requireWorkGraph
  match graph.currentNodeAlias with
  | none => throw "Agent work graph has no active self node."
  | some name =>
    let _ ← requireWorkGraphNode graph name
    setWorkGraph
      { graph.modifyNode name fun node => node.completed output now with
        currentNodeAlias := none, updatedAt := now }

/-- A node that shows that the plan has to change. -/
def AgentWorkNode.outdated (node : AgentWorkNode) (reason : String) (now : Timestamp)
    (partialOutput : Option JsonValue) : AgentWorkNode :=
  { node with
    blockedReason := some "needs_replan"
    error := some reason
    result := partialOutput.orElse fun _ => node.result
    completedAt := some now
    status := .failed }

/-- Gives up the node at hand and asks for a new plan. -/
def requestCurrentWorkGraphReplan (reason : String) (now : Timestamp)
    (partialOutput : Option JsonValue) : TaskM Unit := do
  let graph ← requireWorkGraph
  match graph.currentNodeAlias with
  | none => throw "Agent work graph has no active self node."
  | some name =>
    let _ ← requireWorkGraphNode graph name
    setWorkGraph
      { graph.modifyNode name fun node => node.outdated reason now partialOutput with
        currentNodeAlias := none, phase := .planning, updatedAt := now }

/-- Goes back to planning. -/
def enterWorkGraphPlan (now : Timestamp) : TaskM Unit := do
  let graph ← requireWorkGraph
  if graph.currentNodeAlias ≠ none then
    throw "Cannot enter plan while a self graph node is active."
  setWorkGraph { graph with phase := .planning, updatedAt := now }

/-- The termination as data: the result of the node of a child. -/
def Termination.toJson : Termination → JsonValue
  | .completed output => .object [("kind", .string "completed"), ("output", output)]
  | .failed error => .object [("kind", .string "failed"), ("error", .string error)]
  | .cancelled reason => .object [("kind", .string "cancelled"), ("reason", .string reason)]
  | .needsParentAction requiredWork partialOutput =>
    .object ([("kind", .string "needs_parent_action"), ("requiredWork", .string requiredWork)] ++
      JsonValue.optional "partialOutput" partialOutput)

/-- A node whose child has ended. -/
def AgentWorkNode.ended (node : AgentWorkNode) (termination : Termination) (now : Timestamp) :
    AgentWorkNode :=
  let node := { node with
    completedAt := some now
    result := some termination.toJson
    waitingFor := none }
  let failed (error : String) :=
    { node with blockedReason := some "subagent_failed", error := some error, status := .failed }
  match termination with
  | .completed _ => { node with blockedReason := none, status := .completed }
  | .failed error => failed error
  | .cancelled reason => failed reason
  | .needsParentAction requiredWork _ => failed requiredWork

/-- Completes the node of a child that ended. -/
def completeDelegatedWorkGraphNode (childTaskId : String) (termination : Termination)
    (now : Timestamp) : TaskM Unit := do
  match (← get).workGraph with
  | none => pure ()
  | some graph =>
    match graph.nodes.find? fun node => node.childTaskId = some childTaskId with
    | none => pure ()
    | some node =>
      if node.status ≠ .blocked then pure ()
      else
        setWorkGraph { graph with
          nodes := modifyFirst (fun node => node.childTaskId = some childTaskId)
            (fun node => node.ended termination now) graph.nodes
          updatedAt := now }

/-- A node that could not be started. -/
def AgentWorkNode.undispatched (node : AgentWorkNode) (error : String) (now : Timestamp) :
    AgentWorkNode :=
  { node with
    completedAt := some now
    error := some error
    blockedReason := some "dispatch_failed"
    waitingFor := none
    status := .failed }

/-- A node failed before its child began. -/
def failWorkGraphNode (name error : String) (now : Timestamp) : TaskM Unit := do
  let graph ← requireWorkGraph
  let node ← requireWorkGraphNode graph name
  if node.status = .completed ∨ node.status = .abandoned ∨ node.status = .failed then pure ()
  else
    setWorkGraph
      { graph.modifyNode name fun node => node.undispatched error now with
        currentNodeAlias :=
          if graph.currentNodeAlias = some name then none else graph.currentNodeAlias
        updatedAt := now }

/-! ## Transitions -/

/-- `termination.kind`. -/
def Termination.kind : Termination → String
  | .completed _ => "completed"
  | .failed _ => "failed"
  | .cancelled _ => "cancelled"
  | .needsParentAction .. => "needs_parent_action"

/-- The current node follows the state of the task. -/
def AgentWorkNode.follow (node : AgentWorkNode) : TaskState → AgentWorkNode
  | .ready _ => { node with status := .ready, blockedReason := none, waitingFor := none }
  | .running enteredAt => { node.started enteredAt with status := .running }
  | .blocked _ reason waitingFor =>
    { node with blockedReason := some reason, waitingFor := some waitingFor, status := .blocked }
  | .terminated enteredAt termination =>
    if node.status = .completed then node
    else
      { node with
        completedAt := some enteredAt
        error := some ("Agent terminated with " ++ termination.kind ++ ".")
        status := .failed }

/-- The node at hand follows the state of the task. -/
def syncCurrentWorkGraphNode (state : TaskState) : TaskM Unit := do
  match (← get).workGraph with
  | none => pure ()
  | some graph =>
    match graph.currentNodeAlias with
    | none => pure ()
    | some name =>
      if name = "" then pure ()
      else
        let _ ← requireWorkGraphNode graph name
        setWorkGraph (graph.modifyNode name fun node => node.follow state)

/-- Changes the state, where that is legal. -/
def transition (next : TaskState) : TaskM Unit := do
  let s ← get
  if next.status ∉ legalTransitions s.state.status then
    throw ("Invalid task state transition: " ++ s.state.status.text ++ " -> " ++ next.status.text)
  set { s with state := next }
  syncCurrentWorkGraphNode next

/-- The task is restored from its own snapshot, which is checked. -/
def restore : TaskM Unit := do
  match (← get).workGraph with
  | none => pure ()
  | some graph => validateAgentWorkGraph graph

end OsAgent.Kernel
