import OsAgent.Library.Program
import OsAgent.Authority.Tasks

/-!
# Capabilities in a tree of tasks

How the task scheduler gives authority to its tasks (`scheduler/task-scheduler.ts`): the host submits a
root, a task spawns children, a task asks for more than it holds, and a human or the parents along a
planned path answer. Every method here runs up to where it first waits. What is left of it then is a
`Continuation`, and other methods may run before that is taken up. The methods throw, and keep what was
written before.

The clock and the generators of identifiers are the host's: they are the sequences of what they return,
and the tree counts how many were taken. What the agent pool says is an argument.
-/

namespace OsAgent.Authority

open OsAgent.Library OsAgent.Capability OsAgent.Kernel

/-! ## The tree -/

/-- What a request to create a task asks for, as far as its authority goes. -/
structure CreateAgentRequest where
  id : Option String := none
  goal : String := ""
  characterId : Option String := none
  capabilities : List CapabilityInput := []
deriving DecidableEq, Repr

/-- What is left of a method that waits until a task is saved. -/
inductive Continuation where
  /-- The grantor of the current hop is told of the request. -/
  | publishHop (taskId requestId : String)
  /-- The current hop was granted. -/
  | advance (taskId requestId : String) (reason : Option String)
deriving DecidableEq, Repr

/-- How many readings of the clock and how many identifiers were taken. -/
structure Taken where
  readings : ℕ := 0
  taskIds : ℕ := 0
  requestIds : ℕ := 0
  grantIds : ℕ := 0
deriving DecidableEq, Repr

/-- The tasks, and what was taken from the generators. -/
structure TaskTree where
  tasks : OrderedMap SchedulerTask.id := .empty
  /-- The children that are registered, and that neither have been sent nor have failed to be. -/
  unsent : List String := []
  continuations : List Continuation := []
  taken : Taken := {}

/-- The scheduler, with what it was created with. -/
structure TaskScheduler where
  capabilityManager : CapabilityManager
  characterRegistry : CharacterRegistry
  /-- `agentPool.policy.maxDepth`. -/
  maxDepth : ℕ
  taskIdGenerator : ℕ → String
  clock : ℕ → Timestamp

/-- A method of the scheduler. -/
abbrev TreeM := EStateM CapabilityError TaskTree

/-- The message of an error. -/
def errorMessage : CapabilityError → String
  | .error message => message
  | .delegation _ message => message

namespace TaskTree

/-- The tree with a task in place of the one of its identifier. -/
def setTask (tree : TaskTree) (task : SchedulerTask) : TaskTree :=
  { tree with tasks := tree.tasks.insert task }

/-- The first task that has a request of this route that waits. -/
def findPendingCapabilityRequest (tree : TaskTree) (requestId : String)
    (route : CapabilityApprovalRoute) : Option (SchedulerTask × CapabilityRequestRecord) :=
  tree.tasks.entries.findSome? fun task =>
    (task.capabilityRequests.find? fun record =>
      record.requestId = requestId && record.route = route && record.status = .pending).map (task, ·)

/-- The loop of `capabilityAncestors`, which never takes as many passes as there are tasks, and one
more. It ends below a task that is gone or that has ended. -/
def ancestorsFrom (tree : TaskTree) : ℕ → List String → Option String →
    Except CapabilityError (List SchedulerTask)
  | _, _, none => .ok []
  | 0, _, some _ => .error (.error "Capability ancestry contains a cycle.")
  | passes + 1, visited, some parentTaskId =>
    if parentTaskId ∈ visited then .error (.error "Capability ancestry contains a cycle.")
    else
      match tree.tasks.get? parentTaskId with
      | none => .ok []
      | some parent =>
        if parent.block.state.status = .terminated then .ok []
        else do
          let ancestors ← ancestorsFrom tree passes (parentTaskId :: visited) parent.parentTaskId
          pure (parent :: ancestors)

/-- The ancestors of a task, from its parent on. -/
def capabilityAncestors (tree : TaskTree) (task : SchedulerTask) :
    Except CapabilityError (List SchedulerTask) :=
  tree.ancestorsFrom (tree.tasks.size + 1) [task.id] task.parentTaskId

end TaskTree

/-! ## Reading and writing the tree -/

/-- The task of an identifier, which has to be there. -/
def requireTask (taskId : String) : TreeM SchedulerTask := do
  match (← get).tasks.get? taskId with
  | some task => pure task
  | none => throw (.error ("Task is not registered: " ++ taskId))

/-- A method of a task. What it has written stays when it throws. -/
def onTask {α : Type} (taskId : String)
    (method : SchedulerTask → Except CapabilityError α × SchedulerTask) : TreeM α := do
  let task ← requireTask taskId
  modify fun tree => tree.setTask (method task).2
  (method task).1

/-- A method of the rest of a task's control block. -/
def onBlock {α : Type} (taskId : String) (method : TaskM α) : TreeM α :=
  onTask taskId fun task =>
    match method task.block with
    | .ok a block => (.ok a, task.withBlock block)
    | .error e block => (.error (.error e), task.withBlock block)

/-- Something is awaited, and goes on later. -/
def await (continuation : Continuation) : TreeM Unit :=
  modify fun tree => { tree with continuations := tree.continuations ++ [continuation] }

/-- Takes identifiers of grants. -/
def issue {α : Type} (x : Issue α) : TreeM α := do
  let (a, grantIds) ← x.run (← get).taken.grantIds
  modify fun tree => { tree with taken := { tree.taken with grantIds } }
  pure a

/-- The loops that ask a generator until it gives an identifier that is not used. -/
def untilUnused (next : TreeM String) (used : TaskTree → String → Bool) (message : String) :
    ℕ → TreeM String
  | 0 => throw (.error message)
  | attempts + 1 => do
    let id ← next
    if used (← get) id then untilUnused next used message attempts else pure id

namespace TaskScheduler

variable (scheduler : TaskScheduler)

/-- Reads the clock. -/
def now : TreeM Timestamp := modifyGet fun tree =>
  (scheduler.clock tree.taken.readings,
    { tree with taken := { tree.taken with readings := tree.taken.readings + 1 } })

/-- Takes an identifier of a task from the generator. -/
def nextTaskId : TreeM String := do
  let tree ← get
  set { tree with taken := { tree.taken with taskIds := tree.taken.taskIds + 1 } }
  let taskId := trim (scheduler.taskIdGenerator tree.taken.taskIds)
  if taskId = "" then throw (.error "Task ID generator returned an empty ID.")
  pure taskId

/-- Takes identifiers of tasks until one is unused. -/
def generateTaskId (excludedIds : List String) : TreeM String :=
  untilUnused scheduler.nextTaskId
    (fun tree taskId => tree.tasks.has taskId || taskId ∈ excludedIds)
    "Task ID generator could not produce a unique ID." 100

/-- Takes an identifier of a request from the generator. -/
def nextRequestId : TreeM String := do
  let tree ← get
  set { tree with taken := { tree.taken with requestIds := tree.taken.requestIds + 1 } }
  let (requestId, _) ← scheduler.capabilityManager.nextRequestId.run tree.taken.requestIds
  pure requestId

/-- Takes identifiers of requests until one is unused. -/
def generateCapabilityRequestId : TreeM String :=
  untilUnused scheduler.nextRequestId
    (fun tree requestId => tree.tasks.entries.any fun task =>
      task.capabilityRequests.any fun record => record.requestId = requestId)
    "Capability request ID generator could not produce a unique ID." 100

/-! ## Creating tasks -/

/-- The check of a character's ceiling that `createAgent` makes. -/
def checkCharacter (characterId : Option String) (capabilities : List CapabilityInput) :
    Except CapabilityError Unit :=
  match characterId with
  | none => .ok ()
  | some characterId => do
    let _ ← scheduler.characterRegistry.get characterId
    let requested ← scheduler.capabilityManager.normalizeRequests capabilities
    let outside ← scheduler.characterRegistry.capabilityOutsideCeiling (some characterId) requested
    match outside with
    | some capability =>
      throw (.error ("Character " ++ characterId ++ " cannot hold capability " ++ capability ++ "."))
    | none => pure ()

/-- The grants that a new task starts with: the host's for a root, and the parent's for a child. -/
def startingGrants (parent : Option SchedulerTask) (taskId : String)
    (capabilities : List CapabilityInput) (issuedAt : Timestamp) : Issue (List CapabilityGrant) :=
  match parent with
  | none => scheduler.capabilityManager.issueRootGrants taskId capabilities issuedAt
  | some parent =>
    scheduler.capabilityManager.delegate parent.id parent.capabilityGrants taskId capabilities issuedAt

/-- `createAgent` of the scheduler, for a root or below a parent. -/
def createAgent (request : CreateAgentRequest) (parent : Option SchedulerTask)
    (excludedIds : List String) : TreeM SchedulerTask := do
  match parent with
  | none => pure ()
  | some parent =>
    require (parent.depth < scheduler.maxDepth)
      (CapabilityError.error ("Task depth " ++ toString parent.depth ++ " reached max depth " ++
        toString scheduler.maxDepth ++ "."))
  let taskId ← match parent, request.id with
    | none, some taskId => pure taskId
    | _, _ => scheduler.generateTaskId excludedIds
  let issuedAt ← scheduler.now
  scheduler.checkCharacter request.characterId request.capabilities
  let grants ← issue (scheduler.startingGrants parent taskId request.capabilities issuedAt)
  SchedulerTask.createAgent taskId request.characterId parent issuedAt grants

/-- Submits a root, up to where it is prepared for the queue. `registerRoot` is what the pool says. -/
def submit (request : CreateAgentRequest) (registerRoot : Except CapabilityError Unit) :
    TreeM Unit := do
  let task ← scheduler.createAgent request none []
  if (← get).tasks.has task.id then
    throw (.error ("Task ID has already been used: " ++ task.id))
  registerRoot
  modify fun tree => tree.setTask task

/-- Why a task could not spawn. -/
inductive SpawnRejection where
  | capabilityEscalation (message : String)
  | invalidParentState (message : String)
  | invalidSpawnRequest (message : String)
  | noReservation (message : String)
deriving DecidableEq, Repr

/-- The parent must be able to pass on what a child is to hold. -/
def checkDelegation (parent : SchedulerTask) (options : CreateAgentRequest) :
    TreeM (Option SpawnRejection) := do
  let now ← scheduler.now
  match ← scheduler.capabilityManager.validateDelegation parent.capabilityGrants
      options.capabilities now with
  | .denied _ reason => pure (some (.capabilityEscalation reason))
  | .allowed _ => pure none

/-- The checks of a child that a parent wants to create. -/
def checkChild (parent : SchedulerTask) (options : CreateAgentRequest) :
    TreeM (Option SpawnRejection) := do
  match options.characterId with
  | none =>
    if parent.characterId.isSome then
      return some (.invalidSpawnRequest
        "A parent with a Character must assign a Character to every child Agent.")
  | some characterId =>
    if ¬ (← scheduler.characterRegistry.canCreateChild parent.characterId characterId) then
      return some (.capabilityEscalation ("Character " ++ parent.characterId.getD "root" ++
        " cannot create child character " ++ characterId ++ "."))
    let requests ← scheduler.capabilityManager.normalizeRequests options.capabilities
    match ← scheduler.characterRegistry.capabilityOutsideCeiling (some characterId) requests with
    | some capability =>
      return some (.capabilityEscalation ("Character " ++ characterId ++ " cannot hold capability " ++
        capability ++ "."))
    | none => pure ()
  scheduler.checkDelegation parent options

/-- The checks of the children one after the other, up to the first that fails. -/
def checkChildren (parent : SchedulerTask) : List CreateAgentRequest → TreeM (Option SpawnRejection)
  | [] => pure none
  | options :: childOptions => do
    match ← scheduler.checkChild parent options with
    | some rejection => pure (some rejection)
    | none => checkChildren parent childOptions

/-- Creates the children, none of which gets the identifier of another. -/
def createChildren (parent : SchedulerTask) :
    List CreateAgentRequest → List String → TreeM (List SchedulerTask)
  | [], _ => pure []
  | options :: childOptions, allocatedIds => do
    let child ← scheduler.createAgent options (some parent) allocatedIds
    let children ← createChildren parent childOptions (child.id :: allocatedIds)
    pure (child :: children)

/-- The work of a child in the table of its parent, and the node of the parent's graph that it is for. -/
def childWork (graphNodeAlias : Option String) (options : CreateAgentRequest) (child : SchedulerTask) :
    AsyncWorkRegistration where
  workId := child.id
  kind := .subagent
  label := options.goal
  graphNodeAlias
  childTaskId := some child.id

/-- The work of the children. -/
def childrenWork (graphNodeAliases : Option (List String)) (childOptions : List CreateAgentRequest)
    (children : List SchedulerTask) : List AsyncWorkRegistration :=
  (childOptions.zip children).mapIdx fun index created =>
    childWork (graphNodeAliases.bind fun aliases => aliases[index]?) created.1 created.2

/-- Binds the nodes of the parent's graph to the children that were created for them. -/
def bindChildren (graphNodeAliases : Option (List String)) (children : List SchedulerTask)
    (now : Timestamp) : TaskM Unit :=
  ((graphNodeAliases.getD []).zip children).forM fun bound =>
    bindDelegatedWorkGraphNode bound.1 bound.2.id now

/-- Registers the children, which are sent one after the other when the parent has been settled. -/
def registerChildren (children : List SchedulerTask) (tree : TaskTree) : TaskTree :=
  { tree with
    tasks := tree.tasks.insertAll children
    unsent := tree.unsent ++ children.map SchedulerTask.id }

/-- `startAsyncWork`, up to where the parent is settled. `tools` are the calls that are started with the
children, which were found to be allowed; `reservation` is what the pool says. -/
def startAsyncWork (parentTaskId : String) (tools : List AsyncWorkRegistration)
    (childOptions : List CreateAgentRequest) (graphNodeAliases : Option (List String))
    (generationId : String) (reservation : Except String Unit) : TreeM (Option SpawnRejection) := do
  let parent ← requireTask parentTaskId
  if parent.block.state.status ≠ .running then
    return some (.invalidParentState ("Task " ++ parent.id ++ " cannot spawn from " ++
      parent.block.state.status.text ++ "."))
  if childOptions = [] ∧ tools = [] then
    return some (.invalidSpawnRequest "At least one asynchronous work item is required.")
  if graphNodeAliases.any fun aliases => aliases.length ≠ childOptions.length then
    return some (.invalidSpawnRequest "Graph node aliases must match the delegated child count.")
  let requestedWorkIds := tools.map AsyncWorkRegistration.workId
  let usedWorkIds := parent.block.works.map fun work => work.workId
  if ¬ requestedWorkIds.Nodup ∨ requestedWorkIds.any (· ∈ usedWorkIds) then
    return some (.invalidSpawnRequest
      "Asynchronous work IDs must be unique and must not be reused.")
  match ← scheduler.checkChildren parent childOptions with
  | some rejection => return some rejection
  | none =>
    match reservation with
    | .error message => return some (.noReservation message)
    | .ok () =>
      let children ← scheduler.createChildren parent childOptions (usedWorkIds ++ requestedWorkIds)
      let now ← scheduler.now
      onBlock parent.id do
        bindChildren graphNodeAliases children now
        registerAsyncWork (tools ++ childrenWork graphNodeAliases childOptions children)
          generationId now
      modify (registerChildren children)
      return none

/-- Sends a child. When that fails, the child is taken back, and its work has failed. -/
def sendSpawnedChild (childTaskId : String) (failure : Option String) : TreeM Unit := do
  if childTaskId ∉ (← get).unsent then
    throw (.error ("Task is not registered: " ++ childTaskId))
  let child ← requireTask childTaskId
  modify fun tree => { tree with unsent := tree.unsent.filter (· ≠ childTaskId) }
  match failure, child.parentTaskId with
  | some error, some parentTaskId =>
    modify fun tree => { tree with tasks := tree.tasks.delete childTaskId }
    let parent ← requireTask parentTaskId
    if parent.block.state.status = .terminated then return
    let termination := Termination.failed ("Failed to send subagent: " ++ error)
    let now ← scheduler.now
    onBlock parentTaskId do
      completeSubagentWork childTaskId termination now
      completeDelegatedWorkGraphNode childTaskId termination now
  | _, _ => pure ()

/-! ## Asking for capabilities -/

/-- `CapabilityRequestResultContextItem`. -/
structure CapabilityRequestResult where
  requestRef : String
  status : CapabilityRequestStatus
  capabilities : List (String × ResourceScope)
  reason : Option String
deriving DecidableEq, Repr

/-- The result of a request is brought into the context of the task. -/
def tellResult (taskId : String) (result : CapabilityRequestResult) :
    TreeM (Option CapabilityRequestResult) := do
  onBlock taskId (modify fun block =>
    { block with context := block.context ++ [.other "capability_request_result"] })
  pure (some result)

/-- A request that is answered at once leaves the task ready. -/
def answerAtOnce (taskId : String) (result : CapabilityRequestResult) :
    TreeM (Option CapabilityRequestResult) := do
  let result ← tellResult taskId result
  let now ← scheduler.now
  onBlock taskId (transition (.ready now))
  pure result

/-- A request that has to wait blocks the task. -/
def registerRequest (taskId : String) (record : CapabilityRequestRecord) : TreeM Unit := do
  onTask taskId fun task =>
    match task.registerCapabilityRequest record with
    | .ok task => (.ok (), task)
    | .error e => (.error e, task)
  let now ← scheduler.now
  let reason := match record.route with
    | .human => "human_approval"
    | .parent => "capability_request"
  onBlock taskId (transition (.blocked now reason [record.requestId]))

/-- `requestCapabilities`, from where it is known what the task lacks: the request is denied, or a route
is planned for it. -/
def requestMissing (task : SchedulerTask) (requestId : String) (missing : List CapabilityRequest) :
    TreeM (Option CapabilityRequestResult) := do
  let deny (reason : String) := scheduler.answerAtOnce task.id
    ⟨requestId, .denied, missing.map CapabilityRequest.target, some reason⟩
  match ← scheduler.characterRegistry.requestableCapabilityOutsidePolicy task.characterId missing with
  | some capability =>
    deny ("Character " ++ task.characterId.getD "undefined" ++ " cannot request capability " ++
      capability ++ ".")
  | none =>
    let ancestors ← (← get).capabilityAncestors task
    let authorityChain := if task.parentTaskId = none then [task] else ancestors
    let route ← scheduler.capabilityManager.planRequest task.id
      (authorityChain.map fun ancestor => ⟨ancestor.id, ancestor.capabilityGrants⟩)
      (missing.map .request) (← scheduler.now)
    match route with
    | .rejected reason => deny reason
    | .human =>
      scheduler.registerRequest task.id
        { requestId, requests := missing, route := .human, status := .pending
          createdAt := ← scheduler.now }
      pure none
    | .parent path =>
      scheduler.registerRequest task.id
        { requestId, requests := missing, route := .parent, status := .pending
          createdAt := ← scheduler.now, delegationPath := some path, currentHopIndex := some 0 }
      await (.publishHop task.id requestId)
      pure none

/-- `requestCapabilities`, up to where the task is saved. -/
def requestCapabilities (taskId : String) (requestedInputs : List CapabilityInput) :
    TreeM (Option CapabilityRequestResult) := do
  let m := scheduler.capabilityManager
  let task ← requireTask taskId
  if task.block.state.status ≠ .running then
    throw (.error ("Agent cannot request capabilities from " ++ task.block.state.status.text ++ "."))
  let requested ← m.normalizeRequests requestedInputs
  let check ← m.check task.capabilityGrants (requested.map .request) (← scheduler.now)
  let requestId ← scheduler.generateCapabilityRequestId
  match check with
  | .allowed _ =>
    scheduler.answerAtOnce taskId ⟨requestId, .granted, requested.map CapabilityRequest.target,
      some "Agent already holds the requested capabilities."⟩
  | .missing missing => scheduler.requestMissing task requestId missing

/-- `publishCurrentCapabilityHop`: the grantor sees in its table of work that the grantee waits. -/
def publishCurrentCapabilityHop (taskId requestId : String) : TreeM Unit := do
  let requester ← requireTask taskId
  match requester.findRequest requestId, requester.currentCapabilityDelegationHop requestId with
  | some record, some hop =>
    let grantor ← requireTask hop.grantorTaskId
    let now ← scheduler.now
    onBlock grantor.id (markSubagentWaitingForCapability hop.granteeTaskId requestId record.requests now)
  | _, _ => throw (.error ("Capability request has no pending delegation hop: " ++ requestId))

/-! ## Answering requests -/

/-- The task is blocked by a request. -/
def waitsForApproval : TaskState → Bool
  | .blocked _ reason _ => reason = "capability_request" || reason = "human_approval"
  | _ => false

/-- `finishCapabilityRequest`, up to where the task is prepared for the queue. -/
def finishCapabilityRequest (taskId : String) (record : CapabilityRequestRecord)
    (status : CapabilityRequestStatus) (grants : List CapabilityGrant) (reason : Option String)
    (resolvedAt : Timestamp) : TreeM (Option CapabilityRequestResult) := do
  let task ← requireTask taskId
  if ¬ waitsForApproval task.block.state then
    throw (.error ("Capability requester is not waiting for approval: " ++ taskId))
  onTask taskId fun task =>
    task.resolveCapabilityRequest record.requestId status grants reason resolvedAt
  let result ← tellResult taskId
    ⟨record.requestId, status, record.requests.map CapabilityRequest.target, reason⟩
  onBlock taskId (transition (.ready resolvedAt))
  pure result

/-- What a human decides. -/
inductive Decision where
  | approve
  | deny
deriving DecidableEq, Repr

/-- A human decides about a request. -/
def resolveHumanCapabilityRequest (requestId : String) (decision : Decision)
    (reason : Option String) : TreeM (Option CapabilityRequestResult) := do
  match (← get).findPendingCapabilityRequest requestId .human with
  | none => throw (.error ("Pending human capability request was not found: " ++ requestId))
  | some (task, record) =>
    let now ← scheduler.now
    match decision with
    | .approve =>
      let grants ← issue (scheduler.capabilityManager.grantByHuman task.id requestId record.requests now)
      finishCapabilityRequest task.id record .granted grants reason now
    | .deny => finishCapabilityRequest task.id record .denied [] reason now

/-- What a parent gives on a hop: its grants, or the reason why it gives none. -/
def decideHop (parent : SchedulerTask) (granteeTaskId : String) (record : CapabilityRequestRecord)
    (decision : Decision) (reason : Option String) :
    TreeM (Except (Option String) (List CapabilityGrant)) :=
  match decision with
  | .deny => pure (.error reason)
  | .approve =>
    tryCatch
      (do
        let now ← scheduler.now
        let grants ← issue (scheduler.capabilityManager.grantByParent parent.id parent.capabilityGrants
          granteeTaskId record.requests now)
        pure (.ok grants))
      fun error => pure (.error (some (errorMessage error)))

/-- `resolveParentCapabilityRequest`, up to where the grantee is saved. -/
def resolveParentCapabilityRequest (parentTaskId requestRef : String) (decision : Decision)
    (reason : Option String) : TreeM (Option CapabilityRequestResult) := do
  let parent ← requireTask parentTaskId
  let tree ← get
  let pending := tree.findPendingCapabilityRequest requestRef .parent
  match pending, pending.bind fun pending => pending.1.currentCapabilityDelegationHop requestRef with
  | some (task, record), some hop =>
    if hop.grantorTaskId ≠ parent.id then
      throw (.error ("Capability request is not pending for this parent: " ++ requestRef))
    let grantee ← requireTask hop.granteeTaskId
    let resolution ← scheduler.decideHop parent grantee.id record decision reason
    onBlock parent.id (clearSubagentCapabilityBlocker grantee.id requestRef)
    match resolution with
    | .ok grants =>
      onTask grantee.id fun grantee => grantee.addCapabilityGrants grants
      await (.advance task.id requestRef reason)
      pure none
    | .error reason =>
      let now ← scheduler.now
      finishCapabilityRequest task.id record .denied [] reason now
  | _, _ => throw (.error ("Capability request is not pending for this parent: " ++ requestRef))

/-- What follows when the grantee of a hop has been saved: the next hop, or the end of the path. -/
def advanceHop (taskId requestRef : String) (reason : Option String) :
    TreeM (Option CapabilityRequestResult) := do
  let task ← requireTask taskId
  match task.findRequest requestRef with
  | none => throw (.error ("Capability delegation is not active: " ++ requestRef))
  | some record =>
    let next ← onTask taskId fun task =>
      match task.advanceCapabilityDelegation requestRef with
      | .ok (task, next) => (.ok next, task)
      | .error e => (.error e, task)
    match next with
    | some _ =>
      await (.publishHop taskId requestRef)
      pure none
    | none =>
      let now ← scheduler.now
      finishCapabilityRequest taskId record .granted [] reason now

/-- Takes up what is left of a method. -/
def resume (index : ℕ) : TreeM Unit := do
  let tree ← get
  match tree.continuations[index]? with
  | none => pure ()
  | some continuation =>
    set { tree with continuations := tree.continuations.eraseIdx index }
    match continuation with
    | .publishHop taskId requestId => scheduler.publishCurrentCapabilityHop taskId requestId
    | .advance taskId requestId reason => do
      let _ ← scheduler.advanceHop taskId requestId reason

/-! ## Using grants, and the rest of a task -/

/-- `executeResolvedTool`, up to where the task is saved. -/
def executeResolvedTool (taskId : String) (call : ToolCallRequest)
    (validation : Except String Unit) (required : List CapabilityRequest) : TreeM Unit := do
  let now ← scheduler.now
  onTask taskId fun task =>
    match task.authorizeTool scheduler.capabilityManager call validation required now with
    | (.ok _, task) => (.ok (), task)
    | (.error (.error message), task) => (.error (.error message), task)
    | (.error (.capability e), task) => (.error e, task)

/-- `terminateTask`, up to where the task is saved. -/
def terminateTask (taskId : String) (termination : Termination) : TreeM Unit := do
  let task ← requireTask taskId
  if task.block.state.status = .terminated then return
  let now ← scheduler.now
  onTask taskId fun task =>
    (.ok (), task.denyPendingCapabilityRequests ("Task terminated with " ++ termination.kind ++ ".") now)
  let now ← scheduler.now
  onBlock taskId (transition (.terminated now termination))

/-- What the scheduler does with a task that was sent, apart from its authority: it is dispatched, works,
waits, and is woken. -/
def runTask (taskId : String) (call : TaskCall) : TreeM Unit := do
  if taskId ∈ (← get).unsent then throw (.error ("Task is not ready: " ++ taskId))
  onBlock taskId call.perform

end TaskScheduler

end OsAgent.Authority
