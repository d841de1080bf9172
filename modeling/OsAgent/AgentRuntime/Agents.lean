import OsAgent.Authority.Tasks
import OsAgent.Tools.ToolRegistry

/-!
# Long-lived agents

What the runtime keeps of an agent's identity and authority (`api.ts`), how the host creates an agent
and a human's approval adds to its grants (`internal/runtime.ts`, `internal/executor.ts`), and the check
that a new process makes of all saved agents before it registers any (`internal/restore.ts`). What an
agent keeps of its work (its context, its counters, its last error) is not part of its authority and is
left out.
-/

namespace OsAgent.AgentRuntime

open OsAgent.Library OsAgent.Capability OsAgent.Tools
open ControlBlock (AgentId)

/-! ## Records -/

/-- The call that an operation stands for: the operation without what becomes of it. -/
def ExecutionOperation.call (operation : ExecutionOperation) : ExecutionOperation :=
  { operation with
    state := .registered
    schedulerOperation := none
    result := .null }

/-- A grant of a long-lived agent. It comes from the host or from a human, and is never passed on. -/
structure RuntimeCapabilityGrant extends CapabilityGrant where
  origin : source = .root ∨ ∃ approvalRequestId, source = .human approvalRequestId
  kept : delegable = false

/-- A grant as the host gives it to a new agent. -/
def RuntimeCapabilityGrant.ofRoot (grant : CapabilityGrant) : RuntimeCapabilityGrant :=
  { grant with
    source := .root
    delegable := false
    origin := .inl rfl
    kept := rfl }

/-- A grant as a human gives it for one operation. It counts as consumed by that operation. -/
def RuntimeCapabilityGrant.ofHuman (id : String) (grant : CapabilityGrant) :
    RuntimeCapabilityGrant :=
  { grant with
    source := .human id
    delegable := false
    remainingUses := some 0
    consumedBy := some id
    origin := .inr ⟨id, rfl⟩
    kept := rfl }

/-- Whether an agent works. -/
inductive RuntimeAgentStatus where
  | active
  | paused
  | cancelled
  | dismissed
deriving DecidableEq, Repr

/-- What is saved of an agent. -/
structure RuntimeAgent where
  agentId : AgentId
  character : String
  agentName : String
  capacity : List (String × ResourceScope)
  skills : List String
  ownerId : String
  workspaceId : String
  contextKey : String
  ceiling : List CapabilityRequest
  grants : List RuntimeCapabilityGrant
  status : RuntimeAgentStatus

/-- What the host has configured. It is the same in every process here. -/
structure Configuration where
  manager : CapabilityManager
  tools : ToolRegistry
  characters : Authority.CharacterRegistry
  /-- The tools that a registered character may see. -/
  visibleToolIds : String → List String
  maxAgents : ℕ

/-- The subject of an agent's grants, which is also the key of its first context. -/
def agentSubject (id : AgentId) : String := "agent:" ++ toString id

/-- The context in which an agent takes part in a conversation. -/
def conversationContextKey (id : AgentId) (conversationId : String) : String :=
  agentSubject id ++ ":conversation:" ++ conversationId

/-- `[a-f0-9-]{36}`, which every text of `randomUUID` is. -/
def isConversationId (id : List Char) : Bool :=
  id.length = 36 && id.all ("abcdef0123456789-".toList.contains ·)

/-- The scope of a request for files or directories is within the agent's workspace. -/
def workspaceScoped (request : CapabilityRequest) : Bool :=
  if startsWith request.capability "file." ∨ startsWith request.capability "directory." then
    match request.scope with
    | .all => false
    | .exact resource | .subtree resource => startsWith resource "workspace://current/"
  else true

/-- A request is within one of a ceiling. -/
def withinCeiling (ceiling : List CapabilityRequest) (capability : String) (scope : ResourceScope) :
    Bool :=
  ceiling.any fun allowed => allowed.capability = capability && scopeContains allowed.scope scope

namespace Configuration

variable (config : Configuration)

/-! ## Creating an agent -/

/-- The request of a host for an agent, without what only its context and its display read. -/
structure CreateRuntimeAgent where
  ownerId : String
  workspaceId : String
  character : String
  objective : String
  capabilities : List CapabilityRequest

/-- A capability as the schema takes it. -/
def capabilitySchema (request : CapabilityRequest) : Bool :=
  request.capability ≠ "" &&
    match request.scope with
    | .all => true
    | .exact resource | .subtree resource => resource ≠ ""

/-- What `createRuntimeAgentSchema` says of these fields. A length counts UTF-16 units. -/
def createRuntimeAgentSchema (input : CreateRuntimeAgent) : Bool :=
  trim input.ownerId ≠ "" && input.workspaceId ≠ "" && input.character ≠ "" &&
    trim input.objective ≠ "" &&
    ((trim input.objective).toList.map utf16Length).sum ≤ 12000 &&
    input.capabilities.all capabilitySchema

/-- The checks of `createAgent`, and the normalized ceiling. `workspaces` says which workspaces are
registered, and `agents` are those of the process. -/
def admitAgent (workspaces : String → Bool) (agents : List RuntimeAgent)
    (input : CreateRuntimeAgent) :
    Except CapabilityError (Authority.CharacterDefinition × List CapabilityRequest) := do
  require (createRuntimeAgentSchema input) (.error "ZodError")
  require (workspaces input.workspaceId) (.error "宿主、工作区或目标无效。")
  require ((agents.filter fun agent => agent.status ≠ .dismissed).length < config.maxAgents)
    (.error "Agent 数量超过上限。")
  let character ← config.characters.get input.character
  let ceiling ← (input.capabilities.map CapabilityInput.request).mapM
    (normalizeCapabilityInput config.manager.urlParser)
  let outside ← config.characters.capabilityOutsideCeiling (some character.id) ceiling
  -- An empty name counts as none.
  require (outside.getD "" = "") (.error "能力超过角色上限。")
  require (ceiling.all workspaceScoped) (.error "文件权限只能授予工作区语义路径。")
  pure (character, ceiling)

/-- The record of a new agent. -/
def newAgent (id : AgentId) (input : CreateRuntimeAgent) (character : Authority.CharacterDefinition)
    (ceiling : List CapabilityRequest) (grants : List CapabilityGrant) : RuntimeAgent where
  agentId := id
  character := input.character
  agentName := "agent-" ++ toString id
  capacity := ceiling.map CapabilityRequest.target
  skills := (config.visibleToolIds character.id).filter (config.tools.descriptors.contains ·)
  ownerId := input.ownerId
  workspaceId := input.workspaceId
  contextKey := agentSubject id
  ceiling := ceiling
  grants := grants.map .ofRoot
  status := .active

/-- `createAgent` with the identifier that the store reserves. -/
def createAgent (workspaces : String → Bool) (agents : List RuntimeAgent) (id : AgentId)
    (input : CreateRuntimeAgent) (now : ℕ) : Issue RuntimeAgent := do
  let (character, ceiling) ← config.admitAgent workspaces agents input
  let grants ← config.manager.issueRootGrants (agentSubject id) (ceiling.map .request) now
  pure (config.newAgent id input character ceiling grants)

/-! ## The requirements of an operation -/

/-- What an operation needs, in its normal form. -/
def requirements (operation : ExecutionOperation) : Except CapabilityError (List CapabilityRequest) := do
  let tool ← config.tools.get operation.toolName
  let inputs ← tool.inputs operation.arguments
  config.manager.normalizeRequests inputs

/-- There are requirements, and all of them are within the ceiling. -/
def requirementsWithin (ceiling : List CapabilityRequest) (requirements : List CapabilityRequest) :
    Bool :=
  requirements ≠ [] &&
    requirements.all fun request => withinCeiling ceiling request.capability request.scope

/-- The grants that a human's approval of an operation gives. -/
def grantByHuman (operation : ExecutionOperation) (now : ℕ) : Issue (List RuntimeCapabilityGrant) := do
  let requirements ← config.requirements operation
  let grants ← config.manager.grantByHuman (agentSubject operation.agentId) operation.id requirements
    now
  pure (grants.map (.ofHuman operation.id))

/-! ## Restoring agents -/

/-- The error that every failed check of a restored agent ends in. -/
def restoreError : CapabilityError := .error "恢复数据的身份或用户授权与宿主配置不一致。"

/-- The key of the context that the agent works in is one of the agent's own. -/
def ownContextKey (agent : RuntimeAgent) : Bool :=
  let start := (conversationContextKey agent.agentId "").toList
  agent.contextKey = agentSubject agent.agentId ||
    (start.isPrefixOf agent.contextKey.toList &&
      isConversationId (agent.contextKey.toList.drop start.length))

/-- The check of one grant. A grant of the host can be executed on as the policies of now say. -/
def validateGrant (agent : RuntimeAgent) (grant : RuntimeCapabilityGrant) : Issue Unit := do
  (require (grant.delegable = false ∧ grant.subjectTaskId = agentSubject agent.agentId ∧
    withinCeiling agent.ceiling grant.capability grant.scope) restoreError : Except _ _)
  match grant.source with
  | .root => do
    let policies ← config.manager.issueRootGrants (agentSubject agent.agentId)
      [.request ⟨grant.capability, grant.scope, none⟩] grant.issuedAt
    (require (some (grant.execution.getD .allowed) = (policies.head?).bind (·.execution)) restoreError :
      Except _ _)
  | .parent _ _ => throw restoreError
  | .human approvalRequestId =>
    (require (grant.remainingUses = some 0 ∧ grant.consumedBy.getD "" ≠ "" ∧
      grant.consumedBy = some approvalRequestId) restoreError : Except _ _)

/-- The check of one agent. -/
def validateAgent (agent : RuntimeAgent) : Issue Unit := do
  (require (ownContextKey agent ∧ agent.agentName = "agent-" ++ toString agent.agentId ∧
    config.characters.characters.has agent.character) restoreError : Except _ _)
  let character ← config.characters.get agent.character
  let outside ← config.characters.capabilityOutsideCeiling (some character.id) agent.ceiling
  (require (outside.getD "" = "" ∧ ∀ tool ∈ agent.skills, tool ∈ config.tools.descriptors ∧
    tool ∈ config.visibleToolIds character.id) restoreError : Except _ _)
  (require (agent.capacity = agent.ceiling.map CapabilityRequest.target) restoreError : Except _ _)
  (require (agent.ceiling.all workspaceScoped) restoreError : Except _ _)
  agent.grants.forM (config.validateGrant agent)

/-- The check of all saved agents. -/
def validateRestoredAgents (agents : List RuntimeAgent) : Issue Unit := do
  let byId : OrderedMap RuntimeAgent.agentId := .ofList agents
  (require (byId.size = agents.length ∧
    (agents.filter fun agent => agent.status ≠ .dismissed).length ≤ config.maxAgents) restoreError :
      Except _ _)
  agents.forM config.validateAgent

end Configuration

end OsAgent.AgentRuntime
