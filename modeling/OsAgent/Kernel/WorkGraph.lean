import OsAgent.Kernel.AsyncWork
import OsAgent.Library.Check
import OsAgent.Library.Script

/-!
# The work graph

A task may plan its work as a graph of nodes that depend on each other
(`graph/agent-work-graph.ts`). A proposal is checked before it becomes a graph: its aliases are
distinct, and its dependencies are known and have no cycle. A node is ready when all that it depends
on is completed or abandoned.
-/

namespace OsAgent.Kernel

open OsAgent.Library OsAgent.Capability

/-- What a node is for. -/
inductive AgentWorkNodeKind where
  | design
  | implement
  | inspect
  | integrate
  | research
  | review
  | verify
deriving DecidableEq, Repr

/-- How far a node is. -/
inductive AgentWorkNodeStatus where
  | abandoned
  | blocked
  | completed
  | failed
  | pending
  | ready
  | running
deriving DecidableEq, Repr

/-- Who does a node. -/
inductive AgentWorkNodeAssignee where
  | self
  | character (character : String) (requestedCapabilities : List CapabilityRequest)
deriving DecidableEq, Repr

/-- A node as it is proposed. -/
structure AgentWorkNodeProposal where
  «alias» : String
  kind : AgentWorkNodeKind
  objective : String
  dependsOn : List String
  assignee : AgentWorkNodeAssignee
  acceptanceCriteria : List String
deriving DecidableEq, Repr

/-- A graph as it is proposed. -/
structure AgentWorkGraphProposal where
  goal : String
  completionCriteria : List String
  nodes : List AgentWorkNodeProposal
deriving DecidableEq, Repr

/-- A node of a graph. -/
structure AgentWorkNode extends AgentWorkNodeProposal where
  status : AgentWorkNodeStatus
  startedAt : Option Timestamp := none
  completedAt : Option Timestamp := none
  childTaskId : Option String := none
  blockedReason : Option String := none
  waitingFor : Option (List String) := none
  result : Option JsonValue := none
  error : Option String := none
deriving Repr

/-- Whether the graph is planned or executed. -/
inductive AgentWorkGraphPhase where
  | executing
  | planning
deriving DecidableEq, Repr

/-- The graph of a task. -/
structure AgentWorkGraph where
  revision : ℕ
  phase : AgentWorkGraphPhase
  goal : String
  completionCriteria : List String
  nodes : List AgentWorkNode
  currentNodeAlias : Option String := none
  createdAt : Timestamp
  updatedAt : Timestamp
deriving Repr

/-- What the model is asked to do with the graph. -/
inductive AgentWorkGraphMode where
  | execute
  | plan
  | waiting
deriving DecidableEq, Repr

/-! ## Checks -/

/-- `NODE_ALIAS_PATTERN`: a lower case letter, and up to 63 of those, digits, and underscores. -/
def isNodeAlias (name : String) : Bool :=
  match name.toList with
  | [] => false
  | first :: rest =>
    first.isLower && rest.length ≤ 63 && rest.all fun c => c.isLower || c.isDigit || c = '_'

/-- `MAX_GRAPH_NODES`. -/
def maxGraphNodes : ℕ := 64

/-- The checks of one node, when the nodes before it have these aliases. -/
def validateNode (aliases : List String) (node : AgentWorkNodeProposal) : Except String Unit := do
  require (isNodeAlias node.alias) ("Agent work node alias is invalid: " ++ node.alias)
  require (node.alias ∉ aliases) ("Agent work node alias is duplicated: " ++ node.alias)
  require (isBlank node.objective = false)
    ("Agent work node objective must not be empty: " ++ node.alias)
  require (node.acceptanceCriteria ≠ [])
    ("Agent work node must define acceptance criteria: " ++ node.alias)
  require (∀ criterion ∈ node.acceptanceCriteria, isBlank criterion = false)
    ("Agent work node acceptance criteria must not be empty: " ++ node.alias)
  match node.assignee with
  | .self => pure ()
  | .character character _ =>
    require (isBlank character = false)
      ("Agent work node character must not be empty: " ++ node.alias)

/-- The checks of the nodes, one after the other. The result lists their aliases. -/
def validateNodes : List String → List AgentWorkNodeProposal → Except String (List String)
  | aliases, [] => pure aliases
  | aliases, node :: nodes => do
    validateNode aliases node
    validateNodes (aliases ++ [node.alias]) nodes

/-- The checks of the dependencies of one node. -/
def validateDependencies (aliases : List String) (node : AgentWorkNodeProposal) :
    Except String Unit :=
  node.dependsOn.forM fun dependency => do
    require (dependency ∈ aliases)
      ("Agent work node " ++ node.alias ++ " depends on unknown node " ++ dependency ++ ".")
    require (dependency ≠ node.alias)
      ("Agent work node " ++ node.alias ++ " cannot depend on itself.")

/-- What a node depends on: of the nodes with one alias, the last one counts. -/
def dependenciesOf (nodes : List AgentWorkNodeProposal) (name : String) : List String :=
  ((nodes.reverse.find? fun node => node.alias = name).map AgentWorkNodeProposal.dependsOn).getD []

/-- The depth-first search of `assertAcyclic`. A path with more aliases than there are nodes has a
cycle. -/
def visit (nodes : List AgentWorkNodeProposal) :
    ℕ → List String → List String → String → Except String (List String)
  | 0, _, _, _ => .error "Agent work graph dependencies contain a cycle."
  | depth + 1, visiting, visited, name =>
    if name ∈ visiting then .error "Agent work graph dependencies contain a cycle."
    else if name ∈ visited then .ok visited
    else do
      let visited ← (dependenciesOf nodes name).foldlM (visit nodes depth (name :: visiting)) visited
      pure (name :: visited)

/-- No node depends on itself, directly or through others. -/
def assertAcyclic (nodes : List AgentWorkNodeProposal) : Except String Unit := do
  let _ ← (nodes.map AgentWorkNodeProposal.alias).foldlM (visit nodes (nodes.length + 1) []) []
  pure ()

/-- What is proposed is checked before it becomes a graph. -/
def validateAgentWorkGraphProposal (proposal : AgentWorkGraphProposal) : Except String Unit := do
  require (isBlank proposal.goal = false) "Agent work graph goal must not be empty."
  require (proposal.completionCriteria ≠ [] ∧
      ∀ criterion ∈ proposal.completionCriteria, isBlank criterion = false)
    "Agent work graph must define non-empty completion criteria."
  require (proposal.nodes ≠ []) "Agent work graph must contain at least one node."
  require (proposal.nodes.length ≤ maxGraphNodes)
    ("Agent work graph cannot contain more than " ++ toString maxGraphNodes ++ " nodes.")
  let aliases ← validateNodes [] proposal.nodes
  proposal.nodes.forM (validateDependencies aliases)
  assertAcyclic proposal.nodes

/-- The graph of a proposal that passes the check. -/
def createAgentWorkGraph (proposal : AgentWorkGraphProposal) (revision : ℕ) (now : Timestamp) :
    Except String AgentWorkGraph := do
  validateAgentWorkGraphProposal proposal
  pure {
    revision
    phase := .executing
    goal := proposal.goal
    completionCriteria := proposal.completionCriteria
    nodes := proposal.nodes.map fun node => { node with status := .pending }
    createdAt := now
    updatedAt := now }

/-- The check of a graph that is restored. -/
def validateAgentWorkGraph (graph : AgentWorkGraph) : Except String Unit := do
  validateAgentWorkGraphProposal {
    goal := graph.goal
    completionCriteria := graph.completionCriteria
    nodes := graph.nodes.map AgentWorkNode.toAgentWorkNodeProposal }
  require (0 < graph.revision) "Agent work graph revision must be a positive integer."
  match graph.currentNodeAlias with
  | none => pure ()
  | some name =>
    require (graph.phase = .executing)
      "Agent work graph cannot have an active node in plan phase."
    match graph.nodes.find? fun node => node.alias = name with
    | none => .error "Agent work graph current node must reference a self assignment."
    | some current =>
      require (current.assignee = .self)
        "Agent work graph current node must reference a self assignment."
      require (current.status ∈ [AgentWorkNodeStatus.ready, .running, .blocked])
        "Agent work graph current node has an invalid runtime status."

/-! ## What the graph says -/

/-- Whether the work of a node is no longer awaited. -/
def AgentWorkNode.resolved (node : AgentWorkNode) : Bool :=
  node.status = .completed || node.status = .abandoned

/-- The aliases of the nodes whose work is no longer awaited. -/
def resolvedAliases (nodes : List AgentWorkNode) : List String :=
  (nodes.filter AgentWorkNode.resolved).map fun node => node.alias

/-- The nodes that wait and whose dependencies are resolved. -/
def readyAgentWorkNodes (graph : AgentWorkGraph) : List AgentWorkNode :=
  graph.nodes.filter fun node =>
    (node.status = .pending || node.status = .ready) &&
      node.dependsOn.all fun dependency => dependency ∈ resolvedAliases graph.nodes

/-- A task without a graph plans. -/
def agentWorkGraphMode : Option AgentWorkGraph → AgentWorkGraphMode
  | none => .plan
  | some graph =>
    if graph.phase = .planning then .plan
    else if graph.currentNodeAlias ≠ none then .execute
    else .waiting

/-- A graph is complete when all nodes are resolved. -/
def isAgentWorkGraphComplete (graph : AgentWorkGraph) : Bool := graph.nodes.all AgentWorkNode.resolved

end OsAgent.Kernel
