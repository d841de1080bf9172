import OsAgent.Capability.Issued
import OsAgent.Capability.Plans
import OsAgent.Kernel.GraphRuns
import OsAgent.Scheduler.AgentPool

/-!
# The tasks of a tree and their capabilities

What a task keeps of its authority (`kernel/task-control-block.ts`): the grants that it holds, and its
requests for more, with the paths along which they are granted. The rest of its control block is
`Kernel.TaskControlBlock`. A character bounds what a task may hold and what it may ask for
(`character/character-registry.ts`).
-/

namespace OsAgent.Authority

open OsAgent.Library OsAgent.Capability OsAgent.Kernel

/-! ## Characters -/

/-- A character, and what agents of it may do. -/
structure CharacterDefinition where
  id : String
  capabilityCeiling : List String
  requestableCapabilities : List String
  allowedChildCharacters : List String
deriving DecidableEq, Repr

/-- `ANY_CAPABILITY`. -/
def anyCapability : String := "*"

/-- Whether a ceiling has a capability. -/
def characterAllowsCapability (ceiling : List String) (capability : String) : Bool :=
  anyCapability ∈ ceiling || capability ∈ ceiling

/-- The first capability that a character may not have. -/
def findCapabilityOutsideCeiling (ceiling : List String) (requests : List CapabilityRequest) :
    Option String :=
  (requests.find? fun request => !characterAllowsCapability ceiling request.capability).map
    CapabilityRequest.capability

/-- The registered characters. None may ask for what it may not hold. -/
structure CharacterRegistry where
  characters : OrderedMap CharacterDefinition.id
  requestable : ∀ definition ∈ characters.entries, ∀ capability ∈ definition.requestableCapabilities,
    characterAllowsCapability definition.capabilityCeiling capability = true

namespace CharacterRegistry

variable (registry : CharacterRegistry)

/-- The character of an identifier, which has to be registered. -/
def get (characterId : String) : Except CapabilityError CharacterDefinition :=
  match registry.characters.get? characterId with
  | some definition => .ok definition
  | none => .error (.error ("Character is not registered: " ++ characterId))

/-- A parent without a character may create children of every character. -/
def canCreateChild (parentCharacterId : Option String) (childCharacterId : String) :
    Except CapabilityError Bool :=
  if registry.characters.has childCharacterId then
    match parentCharacterId with
    | none => .ok true
    | some parentCharacterId => do
      let definition ← registry.get parentCharacterId
      pure (decide (childCharacterId ∈ definition.allowedChildCharacters))
  else .ok false

/-- The loop that both bounds of a character are checked by. A task without a character has neither. -/
def outside (bound : CharacterDefinition → List String) (characterId : Option String)
    (requests : List CapabilityRequest) : Except CapabilityError (Option String) :=
  match characterId with
  | none => .ok none
  | some characterId => do
    let definition ← registry.get characterId
    pure (findCapabilityOutsideCeiling (bound definition) requests)

/-- The first capability that is outside the ceiling of a character. -/
def capabilityOutsideCeiling (characterId : Option String) (requests : List CapabilityRequest) :
    Except CapabilityError (Option String) :=
  registry.outside CharacterDefinition.capabilityCeiling characterId requests

/-- The first capability for which a character may not ask. -/
def requestableCapabilityOutsidePolicy (characterId : Option String)
    (requests : List CapabilityRequest) : Except CapabilityError (Option String) :=
  registry.outside CharacterDefinition.requestableCapabilities characterId requests

end CharacterRegistry

/-! ## Requests -/

/-- How far a request is. -/
inductive CapabilityRequestStatus where
  | denied
  | granted
  | pending
deriving DecidableEq, Repr

/-- A request for capabilities, as the task keeps it that made it. -/
structure CapabilityRequestRecord where
  requestId : String
  requests : List CapabilityRequest
  route : CapabilityApprovalRoute
  status : CapabilityRequestStatus
  delegationPath : Option (List CapabilityDelegationHop) := none
  currentHopIndex : Option ℕ := none
  createdAt : Timestamp
  resolvedAt : Option Timestamp := none
  resolutionReason : Option String := none
deriving DecidableEq, Repr

namespace CapabilityRequestRecord

variable (record : CapabilityRequestRecord)

/-- The step of a request's path that is at hand. -/
def currentCapabilityDelegationHop : Option CapabilityDelegationHop :=
  match record.delegationPath, record.currentHopIndex with
  | some path, some index => path[index]?
  | _, _ => none

/-- `advanceCapabilityDelegation` on the request that it finds: the hop that waited is granted, and the
one after it, if there is one, waits. -/
def advance : Except CapabilityError (CapabilityRequestRecord × Option CapabilityDelegationHop) :=
  match record.status, record.delegationPath, record.currentHopIndex with
  | .pending, some path, some index =>
    match path[index]? with
    | some current =>
      if current.status = .pending then
        let granted := path.set index { current with status := .granted }
        match path[index + 1]? with
        | some next =>
          let next := { next with status := .pending }
          .ok ({ record with
              delegationPath := some (granted.set (index + 1) next)
              currentHopIndex := some (index + 1) }, some next)
        | none =>
          .ok ({ record with delegationPath := some granted, currentHopIndex := none }, none)
      else .error (.error ("Capability delegation hop is not pending: " ++ record.requestId))
    | none => .error (.error ("Capability delegation hop is not pending: " ++ record.requestId))
  | _, _, _ => .error (.error ("Capability delegation is not active: " ++ record.requestId))

/-- What a resolution writes. -/
def resolve (status : CapabilityRequestStatus) (reason : Option String) (resolvedAt : Timestamp) :
    CapabilityRequestRecord :=
  { record with status, resolvedAt := some resolvedAt, resolutionReason := reason }

/-- `denyPendingCapabilityRequests` on one request. -/
def denyPending (reason : String) (resolvedAt : Timestamp) : CapabilityRequestRecord :=
  if record.status = .pending then record.resolve .denied (some reason) resolvedAt else record

end CapabilityRequestRecord

/-! ## Tasks -/

/-- A task: where it stands in its tree, what it holds and has asked for, and the rest of its block. -/
structure SchedulerTask extends Scheduler.Lineage where
  id : String
  characterId : Option String := none
  capabilityGrants : List CapabilityGrant := []
  issued : Issued id capabilityGrants
  capabilityRequests : List CapabilityRequestRecord := []
  block : TaskControlBlock

namespace SchedulerTask

variable (task : SchedulerTask)

/-- `createAgent` of the control block, and its constructor. A root has depth 1, and a child stands below
its parent. -/
def createAgent (id : String) (characterId : Option String) (parent : Option SchedulerTask)
    (createdAt : Timestamp) (grants : List CapabilityGrant) : Except CapabilityError SchedulerTask := do
  let depth := parent.elim 1 fun parent => parent.depth + 1
  require (depth ≤ Scheduler.maxAgentDepth)
    (.error ("Cannot create an Agent deeper than " ++ toString Scheduler.maxAgentDepth ++ " levels."))
  if hsubject : ∀ grant ∈ grants, grant.subjectTaskId = id then
    if hnodup : (grants.map CapabilityGrant.grantId).Nodup then
      pure
        { id, characterId, depth
          rootTaskId := parent.elim id fun parent => parent.rootTaskId
          parentTaskId := parent.map SchedulerTask.id
          capabilityGrants := grants
          issued := ⟨hsubject, hnodup⟩
          block := { state := .ready createdAt } }
    else throw (.error "Capability grant IDs must be unique within a task.")
  else throw (.error "Capability grant subject does not match its task.")

/-- The task with the rest of its block changed. -/
def withBlock (block : TaskControlBlock) : SchedulerTask := { task with block }

/-- The task with a request changed, which is the first one that has the identifier. -/
def modifyRequest (requestId : String)
    (change : CapabilityRequestRecord → CapabilityRequestRecord) : SchedulerTask :=
  { task with
    capabilityRequests :=
      modifyFirst (fun record => record.requestId = requestId) change task.capabilityRequests }

/-- The request with an identifier. -/
def findRequest (requestId : String) : Option CapabilityRequestRecord :=
  task.capabilityRequests.find? fun record => record.requestId = requestId

/-- The task with more grants, up to the first one of another task. -/
def withGrants (grants : List CapabilityGrant) : SchedulerTask :=
  { task with
    capabilityGrants := (addCapabilityGrants task.id task.capabilityGrants grants).1
    issued := task.issued.add grants }

/-- Adds grants to those of the task. -/
def addCapabilityGrants (grants : List CapabilityGrant) :
    Except CapabilityError Unit × SchedulerTask :=
  ((Capability.addCapabilityGrants task.id task.capabilityGrants grants).2.mapError .error,
    task.withGrants grants)

/-- The grants of a tool call are used, as far as they can be. -/
def authorizeTool (m : CapabilityManager) (call : ToolCallRequest)
    (validation : Except String Unit) (required : List CapabilityRequest) (now : Timestamp) :
    Except ToolError (List CapabilityGrant) × SchedulerTask :=
  ((m.authorizeTool task.capabilityGrants call validation required now).1,
    { task with
      capabilityGrants := (m.authorizeTool task.capabilityGrants call validation required now).2
      issued := task.issued.of_unused unused_authorizeTool })

/-- Adds a request, unless another one waits or has its identifier. -/
def registerCapabilityRequest (record : CapabilityRequestRecord) :
    Except CapabilityError SchedulerTask :=
  if task.capabilityRequests.any fun existing =>
      existing.status = .pending || existing.requestId = record.requestId then
    .error (.error "Task already has a pending or duplicate capability request.")
  else .ok { task with capabilityRequests := task.capabilityRequests ++ [record] }

/-- The step at hand of the path of a request. -/
def currentCapabilityDelegationHop (requestId : String) : Option CapabilityDelegationHop :=
  (task.findRequest requestId).bind CapabilityRequestRecord.currentCapabilityDelegationHop

/-- The request goes on along its path. -/
def advanceCapabilityDelegation (requestId : String) :
    Except CapabilityError (SchedulerTask × Option CapabilityDelegationHop) :=
  match task.findRequest requestId with
  | none => .error (.error ("Capability delegation is not active: " ++ requestId))
  | some record => do
    let (advanced, next) ← record.advance
    pure (task.modifyRequest requestId fun _ => advanced, next)

/-- Resolves a request that waits. Grants that were installed before an error stay. -/
def resolveCapabilityRequest (requestId : String) (status : CapabilityRequestStatus)
    (grants : List CapabilityGrant) (reason : Option String) (resolvedAt : Timestamp) :
    Except CapabilityError Unit × SchedulerTask :=
  match task.findRequest requestId with
  | none => (.error (.error ("Capability request is not registered: " ++ requestId)), task)
  | some record =>
    if record.status ≠ .pending then
      (.error (.error ("Capability request is already resolved: " ++ requestId)), task)
    else if status = .granted then
      match task.addCapabilityGrants grants with
      | (.error e, task) => (.error e, task)
      | (.ok (), task) =>
        (.ok (), task.modifyRequest requestId fun record => record.resolve status reason resolvedAt)
    else if grants ≠ [] then
      (.error (.error "Denied capability request cannot install grants."), task)
    else
      (.ok (), task.modifyRequest requestId fun record => record.resolve status reason resolvedAt)

/-- Denies the requests that wait. -/
def denyPendingCapabilityRequests (reason : String) (resolvedAt : Timestamp) : SchedulerTask :=
  { task with
    capabilityRequests :=
      task.capabilityRequests.map fun record => record.denyPending reason resolvedAt }

end SchedulerTask

end OsAgent.Authority
