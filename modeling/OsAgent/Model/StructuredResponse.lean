import OsAgent.Capability.Resource
import OsAgent.Kernel.Proposals
import OsAgent.Library.Format

/-!
# The answers of a model

A model answers with one JSON object that names an action (`model/structured-agent-response.ts`). The object is
read member by member, and every error names the path of what is wrong. What the request does not allow, and a
plan that is not well formed, is rejected here already.
-/

namespace OsAgent.Model

open OsAgent.Library OsAgent.Capability OsAgent.Kernel

/-! ## The answers -/

/-- What the model says of a turn. -/
structure TurnSummary where
  request : String
  outcome : String
deriving DecidableEq, Repr

/-- A call of a tool. -/
structure ToolCallRequest where
  callId : String
  toolName : String
  /-- The properties of the input. -/
  input : List (String × JsonValue)

/-- What a model asks of a child. The numbers are given by their texts. -/
structure SubagentSpawnRequest where
  goal : String
  character : Option String
  capabilities : Option (List String)
  requestedCapabilities : Option (List CapabilityRequest)
  maxModelAttempts : Option String
  maxCostUsd : Option String
deriving DecidableEq, Repr

/-- What the model decides about a request of a child. -/
inductive CapabilityDecision where
  | approve
  | deny
deriving DecidableEq, Repr

/-- What the model answers. -/
inductive ModelAction where
  | setGraph (graph : AgentWorkGraphProposal)
  | completeNode (output : JsonValue)
  | requestReplan (reason : String) (partialOutput : Option JsonValue)
  | toolCalls (calls : List ToolCallRequest)
  | asyncWork (children : List SubagentSpawnRequest) (calls : List ToolCallRequest)
  | final (output : JsonValue)
  | needsParentAction (requiredWork : String) (partialOutput : Option JsonValue)
  | spawnSubagents (children : List SubagentSpawnRequest)
  | waitForAsyncWork
  | requestCapabilities (requests : List CapabilityRequest)
  | resolveCapabilityRequest (requestRef : String) (decision : CapabilityDecision) (reason : Option String)

/-- An answer, with what it consumed. -/
structure ModelResponse (Usage : Type) where
  action : ModelAction
  turnSummary : TurnSummary
  usage : Usage

/-- What is read of a request. -/
structure ModelRequest where
  context : List ContextItem
  canSpawnSubagents : Bool

/-! ## The pending work of a request -/

/-- What a context item says of asynchronous work. -/
def ContextItem.update? : ContextItem → Option AsyncWorkUpdate
  | .asyncWorkUpdate update => some update
  | _ => none

/-- The latest update of asynchronous work. -/
def ModelRequest.latestUpdate (request : ModelRequest) : Option AsyncWorkUpdate :=
  (request.context.filterMap ContextItem.update?).getLast?

/-- Whether asynchronous work is under way. -/
def hasPendingAsyncWork (request : ModelRequest) : Bool :=
  match request.latestUpdate with
  | some latest => !latest.allFinished && !latest.pending.isEmpty
  | none => false

/-- Whether the request is one that waits for a decision. -/
def hasPendingCapabilityRequest (request : ModelRequest) (requestRef : String) : Bool :=
  match request.latestUpdate with
  | some latest => latest.pending.any fun pending =>
      pending.status = .waitingForCapability &&
        pending.blocker.map AsyncWorkCapabilityBlocker.requestRef = some requestRef
  | none => false

/-- Whether any request waits for a decision. -/
def hasAnyPendingCapabilityRequest (request : ModelRequest) : Bool :=
  match request.latestUpdate with
  | some latest => latest.pending.any fun pending =>
      pending.status = .waitingForCapability && pending.blocker.isSome
  | none => false

/-! ## Numbers -/

/-- `Number.isInteger`, by how the language writes the number: one that is not written in full is large. -/
def isIntegerText (literal : String) : Bool :=
  let text := literal.toList
  if 'e' ∈ text then '+' ∈ text else '.' ∉ text

/-- `value < 0`. -/
def isNegativeText (literal : String) : Bool := literal.toList.head? = some '-'

/-- `optionalPositiveInteger`, of a value that is there. -/
def readPositiveInteger (path : String) : Option JsonValue → Except String String
  | some (.number literal) =>
    if isIntegerText literal then
      if isNegativeText literal ∨ literal = "0" then
        .error (path ++ " must be greater than zero.")
      else
        .ok literal
    else
      .error (path ++ " must be an integer.")
  | _ => .error (path ++ " must be an integer.")

/-- `optionalNonNegativeNumber`, of a value that is there. -/
def readNonNegativeNumber (path : String) : Option JsonValue → Except String String
  | some (.number literal) =>
    if isNegativeText literal then .error (path ++ " must be a non-negative number.") else .ok literal
  | _ => .error (path ++ " must be a non-negative number.")

/-- Positive integers, as literals. -/
def positiveInteger : Format String where
  write := .number
  read := readPositiveInteger
  Valid literal := isIntegerText literal = true ∧ isNegativeText literal = false ∧ literal ≠ "0"
  read_write := by
    rintro literal ⟨hinteger, hnegative, hzero⟩ path
    simp [readPositiveInteger, hinteger, hnegative, hzero]
  valid_of_read := by
    intro path v literal h
    unfold readPositiveInteger at h
    split at h
    · split_ifs at h with hinteger hpositive
      rw [not_or, Bool.not_eq_true] at hpositive
      cases h
      exact ⟨hinteger, hpositive⟩
    · cases h

/-- Numbers that are not negative, as literals. -/
def nonNegativeNumber : Format String where
  write := .number
  read := readNonNegativeNumber
  Valid literal := isNegativeText literal = false
  read_write := by
    intro literal hnegative path
    simp [readNonNegativeNumber, hnegative]
  valid_of_read := by
    intro path v literal h
    unfold readNonNegativeNumber at h
    split at h
    · split_ifs at h with hnegative
      cases h
      exact Bool.eq_false_iff.mpr hnegative
    · cases h

/-! ## The parts of an answer -/

/-- Reads a text that has to be there. -/
def requireString (path : String) (value : Option JsonValue) : Except String String :=
  Format.text.read path value

/-- Reads a text that may be missing. -/
def optionalString (path : String) (value : Option JsonValue) : Except String (Option String) :=
  Format.text.readOptional path value

/-- Reads what a request is for. -/
def parseResourceScope (path : String) (value : Option JsonValue) : Except String ResourceScope := do
  let scope ← requireObject path value
  let kind ← requireString (path ++ ".kind") (property? "kind" scope)
  if kind = "all" then
    pure .all
  else if kind = "exact" then
    .exact <$> requireString (path ++ ".resource") (property? "resource" scope)
  else if kind = "subtree" then
    .subtree <$> requireString (path ++ ".resource") (property? "resource" scope)
  else
    .error (path ++ ".kind is not supported: " ++ kind)

/-- How the scope of a request is written. -/
def writeScope : ResourceScope → JsonValue
  | .all => .object (members [("kind", some (.string "all"))])
  | .exact resource =>
    .object (members [("kind", some (.string "exact")), ("resource", some (.string resource))])
  | .subtree resource =>
    .object (members [("kind", some (.string "subtree")), ("resource", some (.string resource))])

/-- Reads a request for a capability. -/
def parseCapabilityRequest (path : String) (value : Option JsonValue) :
    Except String CapabilityRequest := do
  let request ← requireObject path value
  let reason ← optionalString (path ++ ".reason") (property? "reason" request)
  let capability ← requireString (path ++ ".capability") (property? "capability" request)
  let scope ← parseResourceScope (path ++ ".scope") (property? "scope" request)
  pure { capability, scope, reason }

/-- How a request for a capability is written. -/
def writeCapabilityRequest (request : CapabilityRequest) : JsonValue :=
  .object (members [("capability", some (.string request.capability)),
    ("scope", some (writeScope request.scope)), ("reason", request.reason.map .string)])

/-- An object is required and is one. -/
@[simp]
theorem requireObject_object (path : String) (ps : List (String × JsonValue)) :
    requireObject path (some (.object ps)) = .ok ps := rfl

/-- A text is required and is one. -/
@[simp]
theorem requireString_string (path s : String) : requireString path (some (.string s)) = .ok s := rfl

/-- A text that may be missing is read as it was written. -/
@[simp]
theorem optionalString_map (path : String) (s : Option String) :
    optionalString path (s.map .string) = .ok s :=
  Format.readOptional_write fun _ _ => trivial

/-- A scope is read as it was written. -/
@[simp]
theorem parseResourceScope_write (path : String) (scope : ResourceScope) :
    parseResourceScope path (some (writeScope scope)) = .ok scope := by
  cases scope with
  | all => simp [parseResourceScope, writeScope]
  | exact resource => simp [parseResourceScope, writeScope]
  | subtree resource => simp [parseResourceScope, writeScope]

/-- Requests for capabilities. -/
def capabilityRequests : Format CapabilityRequest where
  write := writeCapabilityRequest
  read := parseCapabilityRequest
  Valid _ := True
  read_write := by
    intro request _ path
    simp [parseCapabilityRequest, writeCapabilityRequest]
  valid_of_read _ := trivial

/-- Reads requests for capabilities, of which there has to be one. -/
def parseCapabilityRequests (path : String) (value : Option JsonValue) :
    Except String (List CapabilityRequest) :=
  capabilityRequests.nonempty.read path value

/-! ## Plans -/

/-- Who works on a node. No capabilities need be asked for. -/
def parseAgentWorkNodeAssignee (path : String) (value : Option JsonValue) :
    Except String AgentWorkNodeAssignee := do
  let assignee ← requireObject path value
  let type ← requireString (path ++ ".type") (property? "type" assignee)
  if type = "self" then
    pure .self
  else if type = "character" then do
    let requested ← match property? "requestedCapabilities" assignee with
      | none => pure []
      | some (.array []) => pure []
      | some requested => parseCapabilityRequests (path ++ ".requestedCapabilities") (some requested)
    let character ← requireString (path ++ ".character") (property? "character" assignee)
    pure (.character character requested)
  else
    .error (path ++ ".type is not supported: " ++ type)

/-- How the assignee of a node is written. -/
def writeAssignee : AgentWorkNodeAssignee → JsonValue
  | .self => .object (members [("type", some (.string "self"))])
  | .character character requested =>
    .object (members [("type", some (.string "character")), ("character", some (.string character)),
      ("requestedCapabilities", some (capabilityRequests.nonempty.write requested))])

/-- Requests are read as they were written. -/
theorem parseCapabilityRequests_write {requests : List CapabilityRequest} (h : requests ≠ [])
    (path : String) :
    parseCapabilityRequests path (some (capabilityRequests.nonempty.write requests)) = .ok requests :=
  capabilityRequests.nonempty.read_write ⟨h, fun _ _ => trivial⟩ path

/-- An assignee is read as it was written. -/
@[simp]
theorem parseAgentWorkNodeAssignee_write (path : String) (assignee : AgentWorkNodeAssignee) :
    parseAgentWorkNodeAssignee path (some (writeAssignee assignee)) = .ok assignee := by
  cases assignee with
  | self => simp [parseAgentWorkNodeAssignee, writeAssignee]
  | character character requested =>
    cases requested with
    | nil => simp [parseAgentWorkNodeAssignee, writeAssignee, Format.nonempty]
    | cons request requests =>
      -- A list that is not empty is read by the format of such lists.
      have hwritten := parseCapabilityRequests_write (List.cons_ne_nil request requests)
        (path ++ ".requestedCapabilities")
      simp only [Format.nonempty, List.map_cons] at hwritten
      simp [parseAgentWorkNodeAssignee, writeAssignee, Format.nonempty, hwritten]

/-- Texts are read as they were written. -/
@[simp]
theorem texts_write (path : String) (l : List String) :
    Format.texts.read path (some (.strings l)) = .ok l :=
  Format.texts.read_write trivial path

/-- Reads a list of texts. -/
def requireStringArray (path : String) (value : Option JsonValue) : Except String (List String) :=
  Format.texts.read path value

/-- A list of texts is read as it was written. -/
@[simp]
theorem requireStringArray_strings (path : String) (l : List String) :
    requireStringArray path (some (.strings l)) = .ok l := texts_write path l

/-- Reads a node of a proposed graph. -/
def parseAgentWorkNodeProposal (path : String) (value : Option JsonValue) :
    Except String AgentWorkNodeProposal := do
  let node ← requireObject path value
  let kind ← requireString (path ++ ".kind") (property? "kind" node)
  match AgentWorkNodeKind.ofText? kind with
  | none => .error (path ++ ".kind is not supported: " ++ kind)
  | some kind => do
    let name ← requireString (path ++ ".alias") (property? "alias" node)
    let objective ← requireString (path ++ ".objective") (property? "objective" node)
    let dependsOn ← requireStringArray (path ++ ".dependsOn") (property? "dependsOn" node)
    let assignee ← parseAgentWorkNodeAssignee (path ++ ".assignee") (property? "assignee" node)
    let acceptanceCriteria ← requireStringArray (path ++ ".acceptanceCriteria")
      (property? "acceptanceCriteria" node)
    pure { «alias» := name, kind, objective, dependsOn, assignee, acceptanceCriteria }

/-- How a node of a proposed graph is written. -/
def writeNode (node : AgentWorkNodeProposal) : JsonValue :=
  .object (members [("alias", some (.string node.alias)), ("kind", some (.string node.kind.text)),
    ("objective", some (.string node.objective)), ("dependsOn", some (.strings node.dependsOn)),
    ("assignee", some (writeAssignee node.assignee)),
    ("acceptanceCriteria", some (.strings node.acceptanceCriteria))])

/-- Nodes of a proposed graph. -/
def nodeProposals : Format AgentWorkNodeProposal where
  write := writeNode
  read := parseAgentWorkNodeProposal
  Valid _ := True
  read_write := by
    intro node _ path
    have hkind : AgentWorkNodeKind.ofText? node.kind.text = some node.kind := ofText?_eq_some.mpr rfl
    simp [parseAgentWorkNodeProposal, writeNode, hkind]
  valid_of_read _ := trivial

/-- A plan, which has to be well formed. -/
def parseAgentWorkGraphProposal (value : Option JsonValue) : Except String AgentWorkGraphProposal := do
  let graph ← requireObject "structured output.graph" value
  match property? "nodes" graph with
  | some (.array (node :: nodes)) => do
    let goal ← requireString "structured output.graph.goal" (property? "goal" graph)
    let completionCriteria ← requireStringArray "structured output.graph.completionCriteria"
      (property? "completionCriteria" graph)
    let nodes ← readEach parseAgentWorkNodeProposal "structured output.graph.nodes" 0 (node :: nodes)
    let proposal : AgentWorkGraphProposal := { goal, completionCriteria, nodes }
    validateAgentWorkGraphProposal proposal
    pure proposal
  | _ => .error "structured output.graph.nodes must be a non-empty array."

/-- How a proposed graph is written. -/
def writeGraph (proposal : AgentWorkGraphProposal) : JsonValue :=
  .object (members [("goal", some (.string proposal.goal)),
    ("completionCriteria", some (.strings proposal.completionCriteria)),
    ("nodes", some (.array (proposal.nodes.map writeNode)))])

/-- A proposed graph is read as it was written. -/
theorem parseAgentWorkGraphProposal_write {proposal : AgentWorkGraphProposal} (h : proposal.WellFormed) :
    parseAgentWorkGraphProposal (some (writeGraph proposal)) = .ok proposal := by
  have hvalidated : validateAgentWorkGraphProposal proposal = .ok () := validate_iff_wellFormed.mpr h
  have hread : ∀ nodes : List AgentWorkNodeProposal,
      readEach parseAgentWorkNodeProposal "structured output.graph.nodes" 0 (nodes.map writeNode) =
        .ok nodes :=
    fun nodes => Format.readEach_write (f := nodeProposals) (fun _ _ => trivial) 0
  obtain ⟨goal, completionCriteria, nodes⟩ := proposal
  cases nodes with
  | nil => exact absurd h.size.1 (by simp)
  | cons node nodes =>
    have hnodes := hread (node :: nodes)
    rw [List.map_cons] at hnodes
    simp [parseAgentWorkGraphProposal, writeGraph, hnodes, hvalidated]

/-- A proposed graph that is read is well formed. -/
theorem wellFormed_of_parse {value : Option JsonValue} {proposal : AgentWorkGraphProposal}
    (h : parseAgentWorkGraphProposal value = .ok proposal) : proposal.WellFormed := by
  unfold parseAgentWorkGraphProposal at h
  obtain ⟨graph, -, h⟩ := bind_eq_ok.mp h
  split at h
  · obtain ⟨goal, -, h⟩ := bind_eq_ok.mp h
    obtain ⟨completionCriteria, -, h⟩ := bind_eq_ok.mp h
    obtain ⟨nodes, -, h⟩ := bind_eq_ok.mp h
    obtain ⟨u, hvalidated, h⟩ := bind_eq_ok.mp h
    cases h
    exact validate_iff_wellFormed.mp hvalidated
  · cases h

/-! ## Calls and children -/

/-- Reads a call of a tool. -/
def parseToolCall (path : String) (value : Option JsonValue) : Except String ToolCallRequest := do
  let object ← requireObject path value
  let callId ← requireString (path ++ ".callId") (property? "callId" object)
  let toolName ← requireString (path ++ ".toolName") (property? "toolName" object)
  let input ← requireObject (path ++ ".input") (property? "input" object)
  pure { callId, toolName, input }

/-- Calls of tools. -/
def toolCalls : Format ToolCallRequest where
  write call := .object (members [("callId", some (.string call.callId)),
    ("toolName", some (.string call.toolName)), ("input", some (.object call.input))])
  read := parseToolCall
  Valid _ := True
  read_write := by
    intro call _ path
    simp [parseToolCall]
  valid_of_read _ := trivial

/-- Reads calls of tools, of which there has to be one. -/
def parseToolCalls (value : Option JsonValue) : Except String (List ToolCallRequest) :=
  toolCalls.nonempty.read "structured output.calls" value

/-- A child. A list of capabilities that is asked for is not empty. -/
def parseChild (path : String) (value : Option JsonValue) : Except String SubagentSpawnRequest := do
  let object ← requireObject path value
  let character ← optionalString (path ++ ".character") (property? "character" object)
  let capabilities ← Format.texts.readOptional (path ++ ".capabilities") (property? "capabilities" object)
  let requestedCapabilities ← capabilityRequests.nonempty.readOptional (path ++ ".requestedCapabilities")
    (property? "requestedCapabilities" object)
  let maxModelAttempts ← positiveInteger.readOptional (path ++ ".maxModelAttempts")
    (property? "maxModelAttempts" object)
  let maxCostUsd ← nonNegativeNumber.readOptional (path ++ ".maxCostUsd") (property? "maxCostUsd" object)
  let goal ← requireString (path ++ ".goal") (property? "goal" object)
  pure { goal, character, capabilities, requestedCapabilities, maxModelAttempts, maxCostUsd }

/-- What the reader makes sure of in a child. -/
structure SubagentSpawnRequest.Valid (child : SubagentSpawnRequest) : Prop where
  requested : ∀ requests ∈ child.requestedCapabilities, requests ≠ []
  attempts : ∀ literal ∈ child.maxModelAttempts, positiveInteger.Valid literal
  cost : ∀ literal ∈ child.maxCostUsd, nonNegativeNumber.Valid literal

/-- How a child is written. -/
def writeChild (child : SubagentSpawnRequest) : JsonValue :=
  .object (members [("goal", some (.string child.goal)), ("character", child.character.map .string),
    ("capabilities", child.capabilities.map .strings),
    ("requestedCapabilities", child.requestedCapabilities.map capabilityRequests.nonempty.write),
    ("maxModelAttempts", child.maxModelAttempts.map .number),
    ("maxCostUsd", child.maxCostUsd.map .number)])

/-- A child is read as it was written. -/
theorem parseChild_write {child : SubagentSpawnRequest} (h : child.Valid) (path : String) :
    parseChild path (some (writeChild child)) = .ok child := by
  have hcapabilities : ∀ path, Format.texts.readOptional path (child.capabilities.map .strings) =
      .ok child.capabilities :=
    fun path => Format.readOptional_write fun _ _ => trivial
  have hrequested : ∀ path, capabilityRequests.nonempty.readOptional path
      (child.requestedCapabilities.map capabilityRequests.nonempty.write) = .ok child.requestedCapabilities :=
    fun path => Format.readOptional_write fun requests hmem => ⟨h.requested requests hmem, fun _ _ => trivial⟩
  have hattempts : ∀ path, positiveInteger.readOptional path (child.maxModelAttempts.map .number) =
      .ok child.maxModelAttempts :=
    fun path => Format.readOptional_write h.attempts
  have hcost : ∀ path, nonNegativeNumber.readOptional path (child.maxCostUsd.map .number) =
      .ok child.maxCostUsd :=
    fun path => Format.readOptional_write h.cost
  simp [parseChild, writeChild, hcapabilities, hrequested, hattempts, hcost]

/-- A child that is read is valid. -/
theorem valid_of_parseChild {path : String} {value : Option JsonValue} {child : SubagentSpawnRequest}
    (h : parseChild path value = .ok child) : child.Valid := by
  unfold parseChild at h
  obtain ⟨object, -, h⟩ := bind_eq_ok.mp h
  obtain ⟨character, -, h⟩ := bind_eq_ok.mp h
  obtain ⟨capabilities, -, h⟩ := bind_eq_ok.mp h
  obtain ⟨requested, hrequested, h⟩ := bind_eq_ok.mp h
  obtain ⟨attempts, hattempts, h⟩ := bind_eq_ok.mp h
  obtain ⟨cost, hcost, h⟩ := bind_eq_ok.mp h
  obtain ⟨goal, -, h⟩ := bind_eq_ok.mp h
  cases h
  exact ⟨fun requests hmem => (Format.valid_of_readOptional hrequested requests hmem).1,
    Format.valid_of_readOptional hattempts, Format.valid_of_readOptional hcost⟩

/-- Children. -/
def children : Format SubagentSpawnRequest where
  write := writeChild
  read := parseChild
  Valid := SubagentSpawnRequest.Valid
  read_write h path := parseChild_write h path
  valid_of_read h := valid_of_parseChild h

/-- Reads children, of which there has to be one. -/
def parseChildren (value : Option JsonValue) : Except String (List SubagentSpawnRequest) :=
  children.nonempty.read "structured output.children" value

/-! ## Actions -/

/-- Reads a decision. -/
def parseCapabilityDecision (value : Option JsonValue) : Except String CapabilityDecision := do
  let decision ← requireString "structured output.decision" value
  if decision = "approve" then
    pure .approve
  else if decision = "deny" then
    pure .deny
  else
    .error ("structured output.decision is not supported: " ++ decision)

/-- The word for a decision. -/
def CapabilityDecision.text : CapabilityDecision → String
  | .approve => "approve"
  | .deny => "deny"

/-- Reads what the model says of a turn. -/
def parseTurnSummary (value : Option JsonValue) : Except String TurnSummary := do
  let summary ← requireObject "structured output.turnSummary" value
  let request ← requireString "structured output.turnSummary.request" (property? "request" summary)
  let outcome ← requireString "structured output.turnSummary.outcome" (property? "outcome" summary)
  pure { request, outcome }

/-- A list that may be left out. -/
def orEmpty {α : Type} (read : Option JsonValue → Except String (List α)) :
    Option JsonValue → Except String (List α)
  | none => .ok []
  | some value => read (some value)

/-- Reads asynchronous work. A child or a call has to be there. -/
def parseAsyncWork (request : ModelRequest) (envelope : List (String × JsonValue)) :
    Except String ModelAction := do
  let children ← orEmpty parseChildren (property? "children" envelope)
  let calls ← orEmpty parseToolCalls (property? "calls" envelope)
  if children = [] ∧ calls.isEmpty = true then
    .error "structured output.async_work must include children or calls."
  else if children ≠ [] ∧ request.canSpawnSubagents = false then
    .error "Model requested subagents when delegation is disabled."
  else
    pure (.asyncWork children calls)

/-- To wait is possible while work is under way and no request waits for a decision. -/
def parseWait (request : ModelRequest) : Except String ModelAction :=
  if hasPendingAsyncWork request = false then
    .error "Model requested async waiting without pending work."
  else if hasAnyPendingCapabilityRequest request = true then
    .error "Model must resolve pending capability requests before waiting."
  else
    .ok .waitForAsyncWork

/-- Reads a decision about a request that waits for one. -/
def parseResolution (request : ModelRequest) (envelope : List (String × JsonValue)) :
    Except String ModelAction := do
  let requestRef ← requireString "structured output.requestRef" (property? "requestRef" envelope)
  if hasPendingCapabilityRequest request requestRef = false then
    .error "Model resolved a capability request that is not pending."
  else do
    let reason ← optionalString "structured output.reason" (property? "reason" envelope)
    let decision ← parseCapabilityDecision (property? "decision" envelope)
    pure (.resolveCapabilityRequest requestRef decision reason)

/-- The cases of `parseStructuredAgentResponse`, by the action that is named. -/
def parseAction (request : ModelRequest) (envelope : List (String × JsonValue)) (action : String) :
    Except String ModelAction :=
  match action with
  | "set_graph" => .setGraph <$> parseAgentWorkGraphProposal (property? "graph" envelope)
  | "complete_node" => pure (.completeNode ((property? "output" envelope).getD (.string "")))
  | "request_replan" => do
    let reason ← requireString "structured output.reason" (property? "reason" envelope)
    pure (.requestReplan reason (property? "partialOutput" envelope))
  | "tool_calls" => .toolCalls <$> parseToolCalls (property? "calls" envelope)
  | "async_work" => parseAsyncWork request envelope
  | "final" => pure (.final ((property? "output" envelope).getD (.string "")))
  | "needs_parent_action" => do
    let requiredWork ← requireString "structured output.requiredWork" (property? "requiredWork" envelope)
    pure (.needsParentAction requiredWork (property? "partialOutput" envelope))
  | "spawn_subagents" =>
    if request.canSpawnSubagents = false then
      .error "Model requested subagents when delegation is disabled."
    else
      .spawnSubagents <$> parseChildren (property? "children" envelope)
  | "wait_for_async_work" => parseWait request
  | "request_capabilities" =>
    .requestCapabilities <$> parseCapabilityRequests "structured output.capabilityRequests"
      (property? "capabilityRequests" envelope)
  | "resolve_capability_request" => parseResolution request envelope
  | action => .error ("Model returned unsupported action: " ++ action)

/-- The answer in an envelope. -/
def parseEnvelope {Usage : Type} (value : JsonValue) (request : ModelRequest) (usage : Usage) :
    Except String (ModelResponse Usage) := do
  let envelope ← requireObject "structured output" (some value)
  let action ← requireString "structured output.action" (property? "action" envelope)
  let turnSummary ← parseTurnSummary (property? "turnSummary" envelope)
  let action ← parseAction request envelope action
  pure { action, turnSummary, usage }

/-! ## Texts -/

/-- The text without the white space around it. -/
def trimText (text : List Char) : List Char := (text.dropWhile isTrimmed).rdropWhile isTrimmed

/-- `json` in any case, as Unicode folds it. -/
def isJsonLabel : List Char → Bool
  | [j, s, o, n] => (j = 'j' || j = 'J') && (s = 's' || s = 'S' || s = 'ſ') && (o = 'o' || o = 'O') &&
      (n = 'n' || n = 'N')
  | _ => false

/-- What a code fence opens with. -/
def fence : List Char := ['\x60', '\x60', '\x60']

/-- What is between code fences, after the label and without white space around it. White space does not occur
in a fence, so the pattern of the source has no other match. -/
def fenced? (text : List Char) : Option (List Char) :=
  if fence.isPrefixOf text then
    let rest := text.drop 3
    let rest := if isJsonLabel (rest.take 4) then rest.drop 4 else rest
    if fence.isSuffixOf rest then some (trimText (rest.take (rest.length - 3))) else none
  else
    none

/-- The text inside a code fence, if it is in one. -/
def stripCodeFence (text : List Char) : List Char :=
  let trimmed := trimText text
  (fenced? trimmed).getD trimmed

/-- What comes of the text of an answer. There is nothing to say of a text that is JSON and writes what is
no JSON data. -/
def parseStructuredAgentResponse (numbers : List Char → Option String) {Usage : Type} (text : String)
    (request : ModelRequest) (usage : Usage) : Option (Except String (ModelResponse Usage)) :=
  let json := stripCodeFence text.toList
  match parse numbers json with
  | some value => some (parseEnvelope value request usage)
  | none => if IsJson json then none else some (.error "Model structured output was not valid JSON.")

/-! ## What is accepted -/

/-- What the request and the format ask of an action. -/
def ModelAction.Valid (request : ModelRequest) : ModelAction → Prop
  | .setGraph graph => graph.WellFormed
  | .toolCalls calls => calls ≠ []
  | .asyncWork children calls => (children ≠ [] ∨ calls ≠ []) ∧
      (children ≠ [] → request.canSpawnSubagents = true) ∧ ∀ child ∈ children, child.Valid
  | .spawnSubagents children => request.canSpawnSubagents = true ∧ children ≠ [] ∧
      ∀ child ∈ children, child.Valid
  | .waitForAsyncWork => hasPendingAsyncWork request = true ∧ hasAnyPendingCapabilityRequest request = false
  | .requestCapabilities requests => requests ≠ []
  | .resolveCapabilityRequest requestRef _ _ => hasPendingCapabilityRequest request requestRef = true
  | .completeNode _ | .requestReplan .. | .final _ | .needsParentAction .. => True

/-- A list that is left out when it is empty. -/
def writeUnlessEmpty {α : Type} (f : Format α) (l : List α) : Option JsonValue :=
  if l.isEmpty then none else some (f.nonempty.write l)

/-- The name of an action, and its members. -/
def ModelAction.encode : ModelAction → String × List (String × Option JsonValue)
  | .setGraph graph => ("set_graph", [("graph", some (writeGraph graph))])
  | .completeNode output => ("complete_node", [("output", some output)])
  | .requestReplan reason partialOutput =>
    ("request_replan", [("reason", some (.string reason)), ("partialOutput", partialOutput)])
  | .toolCalls calls => ("tool_calls", [("calls", some (Model.toolCalls.nonempty.write calls))])
  | .asyncWork children calls =>
    ("async_work", [("children", writeUnlessEmpty Model.children children),
      ("calls", writeUnlessEmpty Model.toolCalls calls)])
  | .final output => ("final", [("output", some output)])
  | .needsParentAction requiredWork partialOutput =>
    ("needs_parent_action",
      [("requiredWork", some (.string requiredWork)), ("partialOutput", partialOutput)])
  | .spawnSubagents children =>
    ("spawn_subagents", [("children", some (Model.children.nonempty.write children))])
  | .waitForAsyncWork => ("wait_for_async_work", [])
  | .requestCapabilities requests =>
    ("request_capabilities", [("capabilityRequests", some (capabilityRequests.nonempty.write requests))])
  | .resolveCapabilityRequest requestRef decision reason =>
    ("resolve_capability_request", [("requestRef", some (.string requestRef)),
      ("decision", some (.string decision.text)), ("reason", reason.map .string)])

section Responses

variable {Usage : Type}

/-- The envelope of an answer. -/
def ModelResponse.toJson (response : ModelResponse Usage) : JsonValue :=
  .object (members (("action", some (.string response.action.encode.1)) ::
    ("turnSummary", some (.object (members [("request", some (.string response.turnSummary.request)),
      ("outcome", some (.string response.turnSummary.outcome))]))) :: response.action.encode.2))

variable {request : ModelRequest} {envelope : List (String × JsonValue)}

/-- Asynchronous work that is read is valid for its request. -/
theorem valid_of_parseAsyncWork {action : ModelAction} (h : parseAsyncWork request envelope = .ok action) :
    action.Valid request := by
  unfold parseAsyncWork at h
  obtain ⟨children, hchildren, h⟩ := bind_eq_ok.mp h
  obtain ⟨calls, -, h⟩ := bind_eq_ok.mp h
  split_ifs at h with hnone hdelegation
  cases h
  have hvalid : ∀ child ∈ children, child.Valid := by
    unfold orEmpty at hchildren
    split at hchildren
    · cases hchildren
      exact fun _ hchild => (by cases hchild)
    · exact (Model.children.nonempty.valid_of_read hchildren).2
  refine ⟨?_, fun hne => ?_, hvalid⟩
  · by_contra hboth
    rw [not_or, not_not, not_not] at hboth
    exact hnone ⟨hboth.1, List.isEmpty_iff.mpr hboth.2⟩
  · by_contra hdisabled
    exact hdelegation ⟨hne, Bool.eq_false_iff.mpr hdisabled⟩

/-- What is read is what the request and the format allow. -/
theorem valid_of_parseAction {name : String} {action : ModelAction}
    (h : parseAction request envelope name = .ok action) : action.Valid request := by
  unfold parseAction at h
  -- One case for each action of the format, and last a name that is none.
  split at h
  · obtain ⟨graph, hgraph, rfl⟩ := map_eq_ok.mp h
    exact wellFormed_of_parse hgraph
  · cases h
    trivial
  · obtain ⟨reason, -, h⟩ := bind_eq_ok.mp h
    cases h
    trivial
  · obtain ⟨calls, hcalls, rfl⟩ := map_eq_ok.mp h
    exact (Model.toolCalls.nonempty.valid_of_read hcalls).1
  · exact valid_of_parseAsyncWork h
  · cases h
    trivial
  · obtain ⟨requiredWork, -, h⟩ := bind_eq_ok.mp h
    cases h
    trivial
  · split_ifs at h with hdisabled
    obtain ⟨children, hchildren, rfl⟩ := map_eq_ok.mp h
    obtain ⟨hne, hvalid⟩ := Model.children.nonempty.valid_of_read hchildren
    exact ⟨eq_true_of_ne_false hdisabled, hne, hvalid⟩
  · unfold parseWait at h
    split_ifs at h with hpending hasked
    cases h
    exact ⟨eq_true_of_ne_false hpending, eq_false_of_ne_true hasked⟩
  · obtain ⟨requests, hrequests, rfl⟩ := map_eq_ok.mp h
    exact (capabilityRequests.nonempty.valid_of_read hrequests).1
  · unfold parseResolution at h
    obtain ⟨requestRef, -, h⟩ := bind_eq_ok.mp h
    split_ifs at h with hpending
    obtain ⟨reason, -, h⟩ := bind_eq_ok.mp h
    obtain ⟨decision, -, h⟩ := bind_eq_ok.mp h
    cases h
    exact eq_true_of_ne_false hpending
  · cases h

/-- A list that is left out where it is empty is read as it was written. -/
theorem orEmpty_writeUnlessEmpty {α : Type} {f : Format α} {l : List α} (h : ∀ a ∈ l, f.Valid a) (path : String) :
    orEmpty (f.nonempty.read path) (writeUnlessEmpty f l) = .ok l := by
  unfold writeUnlessEmpty
  split_ifs with hempty
  · rw [List.isEmpty_iff.mp hempty]
    rfl
  · have hne : l ≠ [] := fun hnil => hempty (List.isEmpty_iff.mpr hnil)
    exact f.nonempty.read_write ⟨hne, h⟩ path

/-- A decision is read as it was written. -/
@[simp]
theorem parseCapabilityDecision_text (decision : CapabilityDecision) :
    parseCapabilityDecision (some (.string decision.text)) = .ok decision := by
  cases decision with
  | approve => simp [parseCapabilityDecision, CapabilityDecision.text]
  | deny => simp [parseCapabilityDecision, CapabilityDecision.text]

/-- An action is read from its members, whatever the envelope has besides. -/
theorem parseAction_encode {action : ModelAction} (h : action.Valid request) (name summary : JsonValue) :
    parseAction request (members (("action", some name) :: ("turnSummary", some summary) :: action.encode.2))
      action.encode.1 = .ok action := by
  -- One case per action: its members are written and read back one by one.
  cases action with
  | setGraph graph =>
    simp [parseAction, ModelAction.encode, parseAgentWorkGraphProposal_write h]
  | completeNode output => simp [parseAction, ModelAction.encode]
  | requestReplan reason partialOutput => simp [parseAction, ModelAction.encode]
  | toolCalls calls =>
    have hread : parseToolCalls (some (Model.toolCalls.nonempty.write calls)) = .ok calls :=
      Model.toolCalls.nonempty.read_write ⟨h, fun _ _ => trivial⟩ _
    simp [parseAction, ModelAction.encode, hread]
  | asyncWork children calls =>
    obtain ⟨hsome, hdelegation, hchildren⟩ := h
    have hread : orEmpty parseChildren (writeUnlessEmpty Model.children children) = .ok children :=
      orEmpty_writeUnlessEmpty hchildren _
    have hcalls : orEmpty parseToolCalls (writeUnlessEmpty Model.toolCalls calls) = .ok calls :=
      orEmpty_writeUnlessEmpty (fun _ _ => trivial) _
    -- The reader refuses an action without children and without calls.
    have hnone : ¬(children = [] ∧ calls.isEmpty = true) := by
      rintro ⟨hnil, hempty⟩
      rcases hsome with hsome | hsome
      · exact hsome hnil
      · exact hsome (List.isEmpty_iff.mp hempty)
    -- The reader refuses children where there may be none.
    have henabled : ¬(children ≠ [] ∧ request.canSpawnSubagents = false) := by
      rintro ⟨hne, hdisabled⟩
      rw [hdelegation hne] at hdisabled
      cases hdisabled
    simp only [parseAction, ModelAction.encode, parseAsyncWork, property?_members_cons,
      property?_members_nil, Option.or_none, String.reduceEq, if_true, if_false, hread, hcalls, ok_bind,
      if_neg hnone, if_neg henabled, pure_ok]
  | final output => simp [parseAction, ModelAction.encode]
  | needsParentAction requiredWork partialOutput => simp [parseAction, ModelAction.encode]
  | spawnSubagents children =>
    obtain ⟨henabled, hne, hchildren⟩ := h
    have hread : parseChildren (some (Model.children.nonempty.write children)) = .ok children :=
      Model.children.nonempty.read_write ⟨hne, hchildren⟩ _
    simp [parseAction, ModelAction.encode, hread, henabled]
  | waitForAsyncWork =>
    obtain ⟨hpending, hasked⟩ := h
    simp [parseAction, ModelAction.encode, parseWait, hpending, hasked]
  | requestCapabilities requests =>
    simp [parseAction, ModelAction.encode, parseCapabilityRequests_write h]
  | resolveCapabilityRequest requestRef decision reason =>
    have hpending : hasPendingCapabilityRequest request requestRef = true := h
    simp [parseAction, ModelAction.encode, parseResolution, hpending]

variable {response : ModelResponse Usage} {usage : Usage}

/-- An answer is read as it was written. -/
theorem parseEnvelope_toJson (h : response.action.Valid request) :
    parseEnvelope response.toJson request response.usage = .ok response := by
  have hsummary : ∀ members', parseTurnSummary (property? "turnSummary" (members
      (("action", some (.string response.action.encode.1)) ::
        ("turnSummary", some (.object (members [("request", some (.string response.turnSummary.request)),
          ("outcome", some (.string response.turnSummary.outcome))]))) :: members'))) =
      .ok response.turnSummary := by
    intro members'
    simp [parseTurnSummary]
  have hname : ∀ members', requireString "structured output.action" (property? "action" (members
      (("action", some (.string response.action.encode.1)) :: members'))) =
      .ok response.action.encode.1 := by
    intro members'
    simp
  unfold parseEnvelope ModelResponse.toJson
  rw [requireObject_object, ok_bind, hname, ok_bind, hsummary, ok_bind, parseAction_encode h, ok_bind]
  rfl

/-- An answer that is read is valid for its request. -/
theorem valid_of_parseEnvelope {value : JsonValue} (h : parseEnvelope value request usage = .ok response) :
    response.action.Valid request ∧ response.usage = usage := by
  unfold parseEnvelope at h
  obtain ⟨envelope, -, h⟩ := bind_eq_ok.mp h
  obtain ⟨name, -, h⟩ := bind_eq_ok.mp h
  obtain ⟨turnSummary, -, h⟩ := bind_eq_ok.mp h
  obtain ⟨action, haction, h⟩ := bind_eq_ok.mp h
  cases h
  exact ⟨valid_of_parseAction haction, rfl⟩

end Responses

end OsAgent.Model
