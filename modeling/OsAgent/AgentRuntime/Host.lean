import OsAgent.AgentRuntime.Agents
import OsAgent.AgentRuntime.System

/-!
# The host of the agents

The executor of `System.lean` asks the rest of the runtime which tools there are, what an agent may see,
and whether its grants allow an operation. `Host` holds the agents and answers these questions from
their records, and so does `Configuration.surroundings`. What else the surroundings answer is left open.
A step is one of the executor's, or a change of an agent by the host (`internal/runtime.ts`).

`approvals`, `decisions` and `calls` keep what happened: which operations an owner approved, which
launches passed the check before their tool, and which tools were called.
-/

namespace OsAgent.AgentRuntime

open OsAgent.Library OsAgent.Capability
open ControlBlock (AgentId)

/-- The text of an error. -/
def errorText : CapabilityError → String
  | .error message | .delegation _ message => message

/-- Whether a check allows. -/
def isAllowed : CapabilityCheckResult → Bool
  | .allowed _ => true
  | .missing _ => false

/-- A launch that passed the check before its tool, with the agent as it was then. -/
structure Decision where
  ticket : ℕ
  operation : ExecutionOperation
  agent : RuntimeAgent
  now : ℕ

/-- What the host has. -/
structure Host where
  /-- The saved agents, which are also those of the process. -/
  agents : OrderedMap RuntimeAgent.agentId
  /-- The identifier that the store reserves next. -/
  nextAgentId : AgentId
  /-- How many identifiers of grants were taken. -/
  issued : ℕ
  executor : Executor
  /-- The operations that were approved, with the owner who did. -/
  approvals : List (String × String)
  decisions : List Decision
  /-- The calls of tools, with the tickets of their launches. -/
  calls : List (ℕ × ExecutionOperation)

namespace Configuration

variable (config : Configuration)

/-- `#live(id).data`. -/
def agent (agents : OrderedMap RuntimeAgent.agentId) (id : AgentId) : Except CapabilityError RuntimeAgent :=
  match agents.get? id with
  | some agent => .ok agent
  | none => .error (.error "Agent 不存在。")

/-- Whether the grants of the agent allow the operation now. -/
def check (agents : OrderedMap RuntimeAgent.agentId) (now : ℕ) (operation : ExecutionOperation) :
    Except CapabilityError Bool := do
  let agent ← agent agents operation.agentId
  let requirements ← config.requirements operation
  let result ← config.manager.check (agent.grants.map RuntimeCapabilityGrant.toCapabilityGrant)
    (requirements.map .request) now (some operation.id)
  pure (isAllowed result)

/-- Whether the operation has requirements and all of them are within the ceiling of its agent. -/
def withinAgentCeiling (agents : OrderedMap RuntimeAgent.agentId) (operation : ExecutionOperation) :
    Except CapabilityError Bool := do
  let agent ← agent agents operation.agentId
  let requirements ← config.requirements operation
  pure (requirementsWithin agent.ceiling requirements)

/-- The agents after a human's approval of an operation, and the count of the identifiers taken. -/
def approved (agents : OrderedMap RuntimeAgent.agentId) (issued : ℕ) (now : ℕ)
    (operation : ExecutionOperation) :
    Except CapabilityError (OrderedMap RuntimeAgent.agentId × ℕ) := do
  let agent ← agent agents operation.agentId
  let (grants, issued) ← (config.grantByHuman operation now).run issued
  pure (agents.insert { agent with grants := agent.grants ++ grants }, issued)

/-- What the agents and the configuration answer during a stretch of code. `clock` says when an operation
is checked, and `oracle` answers what does not depend on the agents. -/
def surroundings (host : Host) (clock : String → ℕ) (oracle : Surroundings) : Surroundings :=
  { oracle with
    agentActive := fun id => (host.agents.get? id).any fun agent => agent.status = .active
    tool := fun name => (config.tools.tools.get? name).map Tools.Tool.effect
    visible := fun id name => (host.agents.get? id).any fun agent => agent.skills.contains name
    validateInput := fun name arguments => do
      let tool ← (config.tools.get name).mapError errorText
      tool.validateInput arguments
    withinCeiling := fun operation =>
      (config.withinAgentCeiling host.agents operation).mapError errorText
    check := fun operation =>
      (config.check host.agents (clock operation.id) operation).mapError errorText
    grantByHuman := fun operation => do
      oracle.grantByHuman operation
      let _ ← (config.approved host.agents host.issued (clock operation.id) operation).mapError
        fun e => Stop.fault (errorText e)
      pure () }

end Configuration

namespace Host

variable (config : Configuration) (host : Host)

/-- The check before a tool is called, as far as it concerns the operation. -/
def admits (env : Surroundings) (operation : ExecutionOperation) : Bool :=
  pending env operation && env.agentActive operation.agentId &&
    decide (env.tool operation.toolName = some operation.effect) &&
    env.visible operation.agentId operation.toolName &&
    decide ((env.check operation).toOption = some true)

/-- The approval that an act is, if it comes to the grants. -/
def approval? (env : Surroundings) : Act → Option ExecutionOperation
  | .approve id true =>
    (host.executor.operations.get? id).filter fun operation =>
      operation.state = .approval && pending env operation && env.agentActive operation.agentId
  | _ => none

/-- The host after the grants of an approval are saved. -/
def afterApproval (clock : String → ℕ) (oracle : Surroundings) (owner : String)
    (operation : ExecutionOperation) : Host :=
  match oracle.grantByHuman operation,
      config.approved host.agents host.issued (clock operation.id) operation with
  | .ok (), .ok (agents, issued) =>
    { host with agents, issued, approvals := host.approvals ++ [(operation.id, owner)] }
  | _, _ => host

/-- The launch that passes the check before its tool. -/
def decision? (env : Surroundings) (clock : String → ℕ) : Act → Option Decision
  | .proceed ticket =>
    match host.executor.launches.get? ticket with
    | some launch =>
      if !host.executor.stopping && admits env launch.operation then
        (host.agents.get? launch.operation.agentId).map fun agent =>
          ⟨ticket, launch.operation.call, agent, clock launch.operation.id⟩
      else none
    | none => none
  | _ => none

/-- The call of a tool that an act is. -/
def call? : Act → Option (ℕ × ExecutionOperation)
  | .invoke ticket => (host.executor.launches.get? ticket).map fun launch =>
    (ticket, launch.operation.call)
  | _ => none

/-- The executor after an act. When the process has ended, a new one starts. -/
def settled (run : EStateM.Result Stop Executor Unit) (workspace : AgentId → String) : Executor :=
  match run with
  | .error .crash s => s.restart workspace
  | .error (.fault _) s | .ok _ s => s

/-- The host after the grants that an act gives are saved. -/
def granting (clock : String → ℕ) (oracle : Surroundings) (owner : String) (act : Act) : Host :=
  match host.approval? (config.surroundings host clock oracle) act with
  | some operation => host.afterApproval config clock oracle owner operation
  | none => host

/-- The host after an act of the executor. -/
def perform (clock : String → ℕ) (oracle : Surroundings) (workspace : AgentId → String)
    (owner : String) (act : Act) : Host :=
  let env := config.surroundings host clock oracle
  { host.granting config clock oracle owner act with
    executor := settled (act.perform env host.executor) workspace
    decisions := host.decisions ++ (host.decision? env clock act).toList
    calls := host.calls ++ (host.call? act).toList }

/-- Who may ask for an act: only the owner of an agent decides about its operations, and only an agent
of the process stages any. -/
def Permits (owner : String) : Act → Prop
  | .approve id _ | .reconcile id _ _ => ∃ operation, host.executor.operations.get? id = some operation ∧
    ∃ agent, host.agents.get? operation.agentId = some agent ∧ agent.ownerId = owner
  | .stage _ agentId _ _ => host.agents.has agentId
  | _ => True

/-- The host with another record of an agent. -/
def save (agent : RuntimeAgent) : Host := { host with agents := host.agents.insert agent }

/-- One step of the host. -/
inductive Step : Host → Prop
  /-- An agent is created. -/
  | create (workspaces : String → Bool) (input : Configuration.CreateRuntimeAgent) (now : ℕ)
    {agent : RuntimeAgent} {issued : ℕ}
    (run : (config.createAgent workspaces host.agents.entries host.nextAgentId input now).run
      host.issued = .ok (agent, issued)) :
    Step { host.save agent with nextAgentId := host.nextAgentId + 1, issued }
  /-- Identifiers are taken for an agent that is not created after all. -/
  | reserve {nextAgentId : AgentId} {issued : ℕ} (ids : host.nextAgentId ≤ nextAgentId)
    (grants : host.issued ≤ issued) : Step { host with nextAgentId, issued }
  /-- `pause`, `resume`, `cancel`, and what the runtime pauses by itself. -/
  | setStatus {agent : RuntimeAgent} {status : RuntimeAgentStatus}
    (stored : host.agents.get? agent.agentId = some agent) (employed : agent.status ≠ .dismissed)
    (other : status ≠ .dismissed) : Step (host.save { agent with status })
  | dismiss {agent : RuntimeAgent} (stored : host.agents.get? agent.agentId = some agent) :
    Step (host.save { agent with status := .dismissed, grants := [] })
  | switchConversation {agent : RuntimeAgent} (stored : host.agents.get? agent.agentId = some agent)
    {conversationId : String} (id : isConversationId conversationId.toList) :
    Step (host.save { agent with
      contextKey := conversationContextKey agent.agentId conversationId })
  /-- The executor goes on. -/
  | act (clock : String → ℕ) (oracle : Surroundings) (workspace : AgentId → String) {owner : String}
    {act : Act} (enabled : act.enabled host.executor) (permitted : host.Permits owner act) :
    Step (host.perform config clock oracle workspace owner act)
  /-- The process ends, and a new one starts. -/
  | kill (workspace : AgentId → String) :
    Step { host with executor := host.executor.restart workspace }

/-- An empty store and a process that has just started. -/
def initial (workspace : AgentId → String) : Host where
  agents := .empty
  nextAgentId := 1
  issued := 0
  executor := .initial workspace
  approvals := []
  decisions := []
  calls := []

/-- The hosts of one configuration, over all their processes. -/
def system : TransitionSystem Host where
  init host := ∃ workspace, host = initial workspace
  step := Step config

end Host

end OsAgent.AgentRuntime
