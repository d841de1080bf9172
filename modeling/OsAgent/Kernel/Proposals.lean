import OsAgent.Kernel.GraphOrder
import OsAgent.Library.DepthFirst

/-!
# Which proposals become graphs

`validateAgentWorkGraphProposal` accepts a proposal exactly when it is well formed
(`validate_iff_wellFormed`): its search for a cycle ends within as many calls as there are nodes, and
fails exactly when the dependencies have a cycle. A well-formed plan never gets stuck
(`exists_ready`): as long as every node is pending or resolved and one is pending, one is ready.
-/

namespace OsAgent.Kernel

open OsAgent.Library OsAgent.Library.DepthFirst OsAgent.Capability

/-! ## Proposals as they come in -/

/-- `AGENT_WORK_NODE_KINDS`. -/
def agentWorkNodeKinds : List AgentWorkNodeKind :=
  [.design, .implement, .inspect, .integrate, .research, .review, .verify]

/-- How a kind is written. -/
def AgentWorkNodeKind.text : AgentWorkNodeKind → String
  | design => "design"
  | implement => "implement"
  | inspect => "inspect"
  | integrate => "integrate"
  | research => "research"
  | review => "review"
  | verify => "verify"

/-- The kind that is written so. -/
def AgentWorkNodeKind.ofText? (text : String) : Option AgentWorkNodeKind :=
  agentWorkNodeKinds.find? fun kind => kind.text = text

/-- A proposed node whose kind is not checked yet. -/
structure AgentWorkNodeInput where
  «alias» : String
  kind : String
  objective : String
  dependsOn : List String
  assignee : AgentWorkNodeAssignee
  acceptanceCriteria : List String
deriving DecidableEq, Repr

/-- A graph as the model writes it. -/
structure AgentWorkGraphInput where
  goal : String
  completionCriteria : List String
  nodes : List AgentWorkNodeInput
deriving DecidableEq, Repr

/-- The node with its kind. -/
def AgentWorkNodeInput.withKind (node : AgentWorkNodeInput) (kind : AgentWorkNodeKind) :
    AgentWorkNodeProposal :=
  { node with kind }

/-- A node with its kind as a word. -/
def AgentWorkNodeProposal.toInput (node : AgentWorkNodeProposal) : AgentWorkNodeInput :=
  { node with kind := node.kind.text }

/-- A graph with the kinds of its nodes as words. -/
def AgentWorkGraphProposal.toInput (proposal : AgentWorkGraphProposal) : AgentWorkGraphInput :=
  { proposal with nodes := proposal.nodes.map AgentWorkNodeProposal.toInput }

/-- The checks of one node. The check of its kind comes after those of its alias and before the
others, which `validateNode` makes once more with the first two. -/
def validateNodeInput (aliases : List String) (node : AgentWorkNodeInput) :
    Except String AgentWorkNodeProposal := do
  require (isNodeAlias node.alias) ("Agent work node alias is invalid: " ++ node.alias)
  require (node.alias ∉ aliases) ("Agent work node alias is duplicated: " ++ node.alias)
  match AgentWorkNodeKind.ofText? node.kind with
  | none => .error ("Agent work node kind is unsupported: " ++ node.kind)
  | some kind => do
    validateNode aliases (node.withKind kind)
    pure (node.withKind kind)

/-- The nodes of an input, each checked behind those before it. -/
def validateNodeInputs : List String → List AgentWorkNodeInput →
    Except String (List AgentWorkNodeProposal)
  | _, [] => pure []
  | aliases, node :: nodes => do
    let proposed ← validateNodeInput aliases node
    let rest ← validateNodeInputs (aliases ++ [node.alias]) nodes
    pure (proposed :: rest)

/-- All checks of a proposal that comes in: up to the kinds of its nodes, and then as
`validateAgentWorkGraphProposal` makes them. -/
def validateAgentWorkGraphInput (input : AgentWorkGraphInput) :
    Except String AgentWorkGraphProposal := do
  require (isBlank input.goal = false) "Agent work graph goal must not be empty."
  require (input.completionCriteria ≠ [] ∧
      ∀ criterion ∈ input.completionCriteria, isBlank criterion = false)
    "Agent work graph must define non-empty completion criteria."
  require (input.nodes ≠ []) "Agent work graph must contain at least one node."
  require (input.nodes.length ≤ maxGraphNodes)
    ("Agent work graph cannot contain more than " ++ toString maxGraphNodes ++ " nodes.")
  let nodes ← validateNodeInputs [] input.nodes
  let proposal := { input with nodes }
  validateAgentWorkGraphProposal proposal
  pure proposal

/-! ## Well-formed proposals -/

/-- A node with this alias depends on this dependency. -/
def DependsOn (nodes : List AgentWorkNodeProposal) (name dependency : String) : Prop :=
  ∃ node ∈ nodes, node.alias = name ∧ dependency ∈ node.dependsOn

/-- What one node of a plan says for itself. -/
structure AgentWorkNodeProposal.WellFormed (node : AgentWorkNodeProposal) : Prop where
  name : isNodeAlias node.alias = true
  objective : isBlank node.objective = false
  criteria : node.acceptanceCriteria ≠ [] ∧
    ∀ criterion ∈ node.acceptanceCriteria, isBlank criterion = false
  character : ∀ character requested, node.assignee = .character character requested →
    isBlank character = false

/-- What a plan has to be. -/
structure AgentWorkGraphProposal.WellFormed (proposal : AgentWorkGraphProposal) : Prop where
  goal : isBlank proposal.goal = false
  completion : proposal.completionCriteria ≠ [] ∧
    ∀ criterion ∈ proposal.completionCriteria, isBlank criterion = false
  size : 1 ≤ proposal.nodes.length ∧ proposal.nodes.length ≤ 64
  nodes : ∀ node ∈ proposal.nodes, node.WellFormed
  distinct : (proposal.nodes.map AgentWorkNodeProposal.alias).Nodup
  known : ∀ node ∈ proposal.nodes, ∀ dependency ∈ node.dependsOn,
    dependency ≠ node.alias ∧ ∃ other ∈ proposal.nodes, other.alias = dependency
  acyclic : ∀ name, ¬ Relation.TransGen (DependsOn proposal.nodes) name name

/-- A plan whose kinds are supported, and that is well formed with them. -/
def AgentWorkGraphInput.WellFormed (input : AgentWorkGraphInput) : Prop :=
  ∃ proposal : AgentWorkGraphProposal, proposal.toInput = input ∧ proposal.WellFormed

/-! ## The checks of the nodes -/

variable {nodes : List AgentWorkNodeProposal} {node : AgentWorkNodeProposal}
  {aliases : List String}

/-- A node passes its check if its alias is new and it is well formed. -/
theorem validateNode_eq_ok {u : Unit} :
    validateNode aliases node = .ok u ↔ node.alias ∉ aliases ∧ node.WellFormed := by
  unfold validateNode
  simp only [check_bind_eq_ok, require_eq_ok]
  constructor
  · rintro ⟨hname, hnew, hobjective, hsome, hcriteria, hassignee⟩
    refine ⟨hnew, hname, hobjective, ⟨hsome, hcriteria⟩, fun character requested heq => ?_⟩
    rw [heq] at hassignee
    exact require_eq_ok.mp hassignee
  · rintro ⟨hnew, hnode⟩
    refine ⟨hnode.name, hnew, hnode.objective, hnode.criteria.1, hnode.criteria.2, ?_⟩
    cases hassignee : node.assignee with
    | self => rfl
    | character character requested =>
      exact require_eq_ok.mpr (hnode.character character requested hassignee)

/-- The nodes pass their checks if each does and no alias is repeated. -/
theorem validateNodes_eq_ok {result : List String} :
    validateNodes aliases nodes = .ok result ↔
      (∀ node ∈ nodes, node.WellFormed ∧ node.alias ∉ aliases) ∧
        (nodes.map AgentWorkNodeProposal.alias).Nodup ∧
        result = aliases ++ nodes.map AgentWorkNodeProposal.alias := by
  induction nodes generalizing aliases with
  | nil =>
    rw [validateNodes, pure_eq_ok]
    simp [eq_comm]
  | cons node nodes ih =>
    unfold validateNodes
    rw [check_bind_eq_ok, validateNode_eq_ok, ih, List.forall_mem_cons, List.map_cons,
      List.nodup_cons, List.append_assoc, List.singleton_append]
    constructor
    · rintro ⟨⟨hnew, hnode⟩, hnodes, hnodup, hresult⟩
      have hrest : ∀ other ∈ nodes, other.alias ∉ aliases ∧ other.alias ≠ node.alias := by
        intro other hother
        simpa using (hnodes other hother).2
      refine ⟨⟨⟨hnode, hnew⟩, fun other hother => ⟨(hnodes other hother).1,
        (hrest other hother).1⟩⟩, ⟨fun hmem => ?_, hnodup⟩, hresult⟩
      obtain ⟨other, hother, heq⟩ := List.mem_map.mp hmem
      exact (hrest other hother).2 heq
    · rintro ⟨⟨⟨hnode, hnew⟩, hnodes⟩, ⟨hnotin, hnodup⟩, hresult⟩
      refine ⟨⟨hnew, hnode⟩, fun other hother => ⟨(hnodes other hother).1, ?_⟩, hnodup, hresult⟩
      have hne : other.alias ≠ node.alias :=
        fun heq => hnotin (heq ▸ List.mem_map_of_mem hother)
      simpa using ⟨(hnodes other hother).2, hne⟩

/-- The dependencies of a node pass their check if they are other nodes of the graph. -/
theorem validateDependencies_eq_ok {u : Unit} :
    validateDependencies aliases node = .ok u ↔
      ∀ dependency ∈ node.dependsOn, dependency ≠ node.alias ∧ dependency ∈ aliases := by
  unfold validateDependencies
  simp only [forM_eq_ok, check_bind_eq_ok, require_eq_ok, and_comm]

/-! ## The search for a cycle -/

/-- What `assertAcyclic` makes of the end of a search. -/
def seenOrCycle : Outcome String → Except String (List String)
  | .visited seen => .ok seen
  | .cycle | .unfinished => .error "Agent work graph dependencies contain a cycle."

/-- The search of the source is the depth first search of the library. -/
theorem foldlM_eq_searchAll {f : List String → String → Outcome String}
    {g : List String → String → Except String (List String)}
    (hfg : ∀ seen name, g seen name = seenOrCycle (f seen name)) (names seen : List String) :
    names.foldlM g seen = seenOrCycle (searchAll f seen names) := by
  induction names generalizing seen with
  | nil => rfl
  | cons name names ih =>
    rw [List.foldlM_cons, hfg]
    unfold searchAll
    cases f seen name with
    | unfinished => rfl
    | cycle => rfl
    | visited seen₁ => exact ih seen₁

/-- `visit` is the search along the dependencies. -/
theorem visit_eq_search (depth : ℕ) (path seen : List String) (name : String) :
    visit nodes depth path seen name =
      seenOrCycle (search (dependenciesOf nodes) depth path seen name) := by
  induction depth generalizing path seen name with
  | zero => rfl
  | succ depth ih =>
    unfold visit search
    split_ifs with hpath hseen
    · rfl
    · rfl
    rw [foldlM_eq_searchAll fun seen dependency => ih (name :: path) seen dependency]
    cases searchAll (search (dependenciesOf nodes) depth (name :: path)) seen
        (dependenciesOf nodes name) with
    | unfinished => rfl
    | cycle => rfl
    | visited seen₁ => rfl

/-- The search of `assertAcyclic`, with a bound on the depth of its recursion. -/
def searchFrom (nodes : List AgentWorkNodeProposal) (depth : ℕ) : Outcome String :=
  searchAll (search (dependenciesOf nodes) depth []) []
    (nodes.map AgentWorkNodeProposal.alias)

/-- The test for cycles is a depth first search. -/
theorem assertAcyclic_eq_searchFrom :
    assertAcyclic nodes = (seenOrCycle (searchFrom nodes (nodes.length + 1))).map fun _ => () := by
  unfold assertAcyclic searchFrom
  rw [foldlM_eq_searchAll fun seen name => visit_eq_search (nodes.length + 1) [] seen name]
  cases searchAll (search (dependenciesOf nodes) (nodes.length + 1) []) []
      (nodes.map AgentWorkNodeProposal.alias) <;> rfl

/-- What is no node depends on nothing. -/
theorem dependenciesOf_eq_nil {name : String} (h : name ∉ nodes.map AgentWorkNodeProposal.alias) :
    dependenciesOf nodes name = [] := by
  have hfind : nodes.reverse.find? (fun node => node.alias = name) = none := by
    rw [List.find?_eq_none]
    intro node hnode heq
    exact h (List.mem_map.mpr ⟨node, List.mem_reverse.mp hnode, of_decide_eq_true heq⟩)
  unfold dependenciesOf
  rw [hfind]
  rfl

/-- From the nodes, the search is at no time deeper than there are nodes. -/
theorem search_from_finishes {depth : ℕ} (hdepth : nodes.length < depth) (seen : List String)
    (name : String) : search (dependenciesOf nodes) depth [] seen name ≠ .unfinished := by
  -- Every vertex of the graph is a node, so the path stays among the aliases.
  have hroom : (nodes.map AgentWorkNodeProposal.alias).length < depth + ([] : List String).length := by
    rw [List.length_map, List.length_nil]
    omega
  exact search_finishes (fun _ => dependenciesOf_eq_nil) List.nodup_nil (List.nil_subset _) hroom

/-- The search ends if it may go deeper than there are nodes. -/
theorem searchFrom_finishes {depth : ℕ} (hdepth : nodes.length < depth) :
    searchFrom nodes depth ≠ .unfinished :=
  searchAll_finishes (fun name _ seen => search_from_finishes hdepth seen name) []

/-- A larger bound changes nothing. -/
theorem searchFrom_eq {depth : ℕ} (hdepth : nodes.length < depth) :
    searchFrom nodes depth = searchFrom nodes (nodes.length + 1) :=
  searchAll_congr (fun _ _ hfinished => search_of_le hdepth hfinished)
    (searchFrom_finishes (Nat.lt_succ_self _))

/-- In a plan whose aliases are distinct, the search follows the dependencies. -/
theorem edge_iff_dependsOn (hnodup : (nodes.map AgentWorkNodeProposal.alias).Nodup)
    {name dependency : String} :
    Edge (dependenciesOf nodes) name dependency ↔ DependsOn nodes name dependency := by
  unfold Edge DependsOn dependenciesOf
  constructor
  · intro h
    cases hfind : nodes.reverse.find? fun node => node.alias = name with
    | none =>
      rw [hfind] at h
      cases h
    | some node =>
      rw [hfind] at h
      have hname := List.find?_some hfind
      have hmem := List.mem_reverse.mp (List.mem_of_find?_eq_some hfind)
      exact ⟨node, hmem, of_decide_eq_true hname, h⟩
  · rintro ⟨node, hnode, rfl, hdependency⟩
    obtain ⟨found, hfind⟩ : ∃ found, nodes.reverse.find? (fun other => other.alias = node.alias) =
        some found := by
      rw [← Option.isSome_iff_exists, List.find?_isSome]
      exact ⟨node, List.mem_reverse.mpr hnode, decide_eq_true rfl⟩
    have halias : found.alias = node.alias := by simpa using List.find?_some hfind
    have hfound := List.mem_reverse.mp (List.mem_of_find?_eq_some hfind)
    obtain rfl := List.inj_on_of_nodup_map hnodup hfound hnode halias
    rw [hfind]
    exact hdependency

/-- What leads to a node is what depends on it, directly or through others. -/
theorem leads_eq_dependsOn (hnodup : (nodes.map AgentWorkNodeProposal.alias).Nodup) :
    Leads (dependenciesOf nodes) = Relation.TransGen (DependsOn nodes) := by
  have hedge : Edge (dependenciesOf nodes) = DependsOn nodes := by
    funext name dependency
    exact propext (edge_iff_dependsOn hnodup)
  rw [Leads, hedge]

/-- The dependencies in the order in which the search has left them. -/
theorem exists_ordered_of_assertAcyclic {u : Unit} (h : assertAcyclic nodes = .ok u) :
    ∃ seen, Ordered (dependenciesOf nodes) seen ∧
      nodes.map AgentWorkNodeProposal.alias ⊆ seen := by
  rw [assertAcyclic_eq_searchFrom] at h
  cases hsearch : searchFrom nodes (nodes.length + 1) with
  | unfinished =>
    rw [hsearch] at h
    cases h
  | cycle =>
    rw [hsearch] at h
    cases h
  | visited seen =>
    obtain ⟨-, hordered, hsub⟩ :=
      searchAll_ordered (fun _ _ _ => search_ordered) hsearch trivial
    exact ⟨seen, hordered, hsub⟩

/-- The search fails exactly when there is a cycle. -/
theorem assertAcyclic_eq_ok (hnodup : (nodes.map AgentWorkNodeProposal.alias).Nodup) {u : Unit} :
    assertAcyclic nodes = .ok u ↔ ∀ name, ¬ Relation.TransGen (DependsOn nodes) name name := by
  rw [← leads_eq_dependsOn hnodup]
  constructor
  · intro h name hcycle
    obtain ⟨seen, hordered, hsub⟩ := exists_ordered_of_assertAcyclic h
    -- A name on a cycle depends on something, so it is the alias of a node.
    obtain ⟨dependency, hedge, -⟩ := Relation.TransGen.head'_iff.mp hcycle
    obtain ⟨node, hnode, rfl, -⟩ := (edge_iff_dependsOn hnodup).mp hedge
    exact hordered.not_cyclic (hsub (List.mem_map_of_mem hnode)) hcycle
  · intro h
    rw [assertAcyclic_eq_searchFrom]
    cases hsearch : searchFrom nodes (nodes.length + 1) with
    | unfinished => exact absurd hsearch (searchFrom_finishes (Nat.lt_succ_self _))
    | cycle =>
      obtain ⟨name, -, seen, hcycle⟩ := exists_of_searchAll_cycle hsearch
      obtain ⟨c, hc⟩ := exists_cycle_of_search (fun _ h => (by cases h)) hcycle
      exact absurd hc (h c)
    | visited seen => rfl

/-! ## The checks of a proposal -/

/-- A proposal passes the check exactly if it is well formed. -/
theorem validate_iff_wellFormed {proposal : AgentWorkGraphProposal} {u : Unit} :
    validateAgentWorkGraphProposal proposal = .ok u ↔ proposal.WellFormed := by
  unfold validateAgentWorkGraphProposal
  rw [check_bind_eq_ok, check_bind_eq_ok, check_bind_eq_ok, check_bind_eq_ok, bind_eq_ok]
  simp only [check_bind_eq_ok, require_eq_ok, validateNodes_eq_ok, forM_eq_ok,
    validateDependencies_eq_ok, List.nil_append]
  constructor
  · rintro ⟨hgoal, hcompletion, hsome, hsize, aliases, ⟨hnodes, hnodup, rfl⟩, hknown, hacyclic⟩
    constructor
    case goal => exact hgoal
    case completion => exact hcompletion
    case size => exact ⟨List.length_pos_iff.mpr hsome, hsize⟩
    case nodes => exact fun node hnode => (hnodes node hnode).1
    case distinct => exact hnodup
    case known =>
      intro node hnode dependency hdependency
      obtain ⟨hne, hmem⟩ := hknown node hnode dependency hdependency
      exact ⟨hne, List.mem_map.mp hmem⟩
    case acyclic => exact (assertAcyclic_eq_ok hnodup).mp hacyclic
  · intro h
    refine ⟨h.goal, h.completion, List.length_pos_iff.mp h.size.1, h.size.2, _,
      ⟨fun node hnode => ⟨h.nodes node hnode, fun h => (by cases h)⟩, h.distinct, rfl⟩, ?_,
      (assertAcyclic_eq_ok h.distinct).mpr h.acyclic⟩
    intro node hnode dependency hdependency
    obtain ⟨hne, hother⟩ := h.known node hnode dependency hdependency
    exact ⟨hne, List.mem_map.mpr hother⟩

/-- A word is read as the kind that it is the word for. -/
theorem ofText?_eq_some {text : String} {kind : AgentWorkNodeKind} :
    AgentWorkNodeKind.ofText? text = some kind ↔ kind.text = text := by
  constructor
  · intro h
    simpa using List.find?_some h
  · rintro rfl
    cases kind <;> decide +kernel

/-- A node is read from an input that is written like it and passes the check. -/
theorem validateNodeInput_eq_ok {input : AgentWorkNodeInput} :
    validateNodeInput aliases input = .ok node ↔
      node.toInput = input ∧ validateNode aliases node = .ok () := by
  unfold validateNodeInput
  simp only [check_bind_eq_ok, require_eq_ok]
  constructor
  · rintro ⟨-, -, h⟩
    cases hkind : AgentWorkNodeKind.ofText? input.kind with
    | none =>
      rw [hkind] at h
      cases h
    | some kind =>
      rw [hkind] at h
      simp only [check_bind_eq_ok, pure_eq_ok] at h
      obtain ⟨hvalid, rfl⟩ := h
      refine ⟨?_, hvalid⟩
      show ({ input with kind := kind.text } : AgentWorkNodeInput) = input
      rw [ofText?_eq_some.mp hkind]
  · rintro ⟨rfl, hvalid⟩
    obtain ⟨hnew, hnode⟩ := validateNode_eq_ok.mp hvalid
    refine ⟨hnode.name, hnew, ?_⟩
    rw [show AgentWorkNodeKind.ofText? node.toInput.kind = some node.kind from
      ofText?_eq_some.mpr rfl]
    simp only [check_bind_eq_ok, pure_eq_ok]
    exact ⟨hvalid, rfl⟩

/-- The nodes are read from inputs that are written like them and pass the checks. -/
theorem validateNodeInputs_eq_ok {inputs : List AgentWorkNodeInput} :
    validateNodeInputs aliases inputs = .ok nodes ↔
      nodes.map AgentWorkNodeProposal.toInput = inputs ∧
        ∃ result, validateNodes aliases nodes = .ok result := by
  induction inputs generalizing aliases nodes with
  | nil =>
    rw [validateNodeInputs, pure_eq_ok, List.map_eq_nil_iff]
    constructor
    · rintro rfl
      exact ⟨rfl, aliases, rfl⟩
    · rintro ⟨rfl, -⟩
      rfl
  | cons input inputs ih =>
    simp only [validateNodeInputs, bind_eq_ok, pure_eq_ok, validateNodeInput_eq_ok, ih]
    constructor
    · rintro ⟨first, ⟨rfl, hfirst⟩, rest, ⟨rfl, result, hrest⟩, rfl⟩
      refine ⟨rfl, result, ?_⟩
      rw [validateNodes, check_bind_eq_ok]
      exact ⟨hfirst, hrest⟩
    · rintro ⟨hinputs, result, hvalid⟩
      obtain ⟨first, rest, rfl, rfl, rfl⟩ := List.map_eq_cons_iff.mp hinputs
      rw [validateNodes, check_bind_eq_ok] at hvalid
      exact ⟨first, ⟨rfl, hvalid.1⟩, rest, ⟨rfl, result, hvalid.2⟩, rfl⟩

/-- A proposal that comes in passes exactly when it is a well-formed one. -/
theorem validateInput_eq_ok {input : AgentWorkGraphInput} {proposal : AgentWorkGraphProposal} :
    validateAgentWorkGraphInput input = .ok proposal ↔
      proposal.toInput = input ∧ proposal.WellFormed := by
  unfold validateAgentWorkGraphInput
  rw [check_bind_eq_ok, check_bind_eq_ok, check_bind_eq_ok, check_bind_eq_ok, bind_eq_ok]
  simp only [check_bind_eq_ok, require_eq_ok, validateNodeInputs_eq_ok, pure_eq_ok,
    validate_iff_wellFormed]
  constructor
  · rintro ⟨-, -, -, -, nodes, ⟨hnodes, -⟩, hvalid, rfl⟩
    refine ⟨?_, hvalid⟩
    show ({ input with nodes := nodes.map AgentWorkNodeProposal.toInput } :
      AgentWorkGraphInput) = input
    rw [hnodes]
  · rintro ⟨rfl, hvalid⟩
    refine ⟨hvalid.goal, hvalid.completion, ?_, ?_, proposal.nodes, ⟨rfl, ?_⟩, hvalid, rfl⟩
    · intro hnil
      have hpos := hvalid.size.1
      rw [List.map_eq_nil_iff.mp hnil] at hpos
      exact absurd hpos (by decide)
    · rw [show (proposal.toInput.nodes).length = proposal.nodes.length from List.length_map _]
      exact hvalid.size.2
    · exact ⟨_, validateNodes_eq_ok.mpr
        ⟨fun node hnode => ⟨hvalid.nodes node hnode, fun h => (by cases h)⟩, hvalid.distinct, rfl⟩⟩

/-! ## A plan never gets stuck -/

/-- Every node is pending or resolved. -/
def AgentWorkGraph.AtRest (graph : AgentWorkGraph) : Prop :=
  ∀ node ∈ graph.nodes, node.status = .pending ∨ node.status = .completed ∨
    node.status = .abandoned

/-- The nodes of the graph are planned so, whatever their statuses are. -/
def AgentWorkGraph.Plans (graph : AgentWorkGraph) (nodes : List AgentWorkNodeProposal) : Prop :=
  graph.nodes.map AgentWorkNode.toAgentWorkNodeProposal = nodes

section Progress

variable {graph : AgentWorkGraph}

/-- A node that is pending, although all that it depends on is resolved, is ready. -/
theorem mem_ready {node : AgentWorkNode} (hnode : node ∈ graph.nodes)
    (hpending : node.status = .pending)
    (hdependencies : ∀ dependency ∈ node.dependsOn, dependency ∈ resolvedAliases graph.nodes) :
    node ∈ readyAgentWorkNodes graph := by
  refine List.mem_filter.mpr ⟨hnode, ?_⟩
  rw [Bool.and_eq_true, List.all_eq_true]
  refine ⟨by rw [hpending]; rfl, fun dependency hdependency => ?_⟩
  exact decide_eq_true (hdependencies dependency hdependency)

/-- The first pending node, in an order in which dependencies come after what depends on them, read
from the end. -/
theorem exists_ready_of_ordered {seen : List String} {nodes : List AgentWorkNodeProposal}
    (hplans : graph.Plans nodes) (hrest : graph.AtRest)
    (hnodup : (nodes.map AgentWorkNodeProposal.alias).Nodup)
    (hknown : ∀ node ∈ nodes, ∀ dependency ∈ node.dependsOn,
      ∃ other ∈ nodes, other.alias = dependency)
    (hordered : Ordered (dependenciesOf nodes) seen)
    (hpending : ∃ node ∈ graph.nodes, node.status = .pending ∧ node.alias ∈ seen) :
    ∃ node, node ∈ readyAgentWorkNodes graph := by
  induction seen with
  | nil =>
    obtain ⟨node, -, -, hseen⟩ := hpending
    cases hseen
  | cons name seen ih =>
    by_cases hlater : ∃ node ∈ graph.nodes, node.status = .pending ∧ node.alias ∈ seen
    · exact ih hordered.2 hlater
    obtain ⟨node, hnode, hstatus, hseen⟩ := hpending
    have hname : node.alias = name := by
      rcases List.mem_cons.mp hseen with hname | hseen
      · exact hname
      · exact absurd ⟨node, hnode, hstatus, hseen⟩ hlater
    have hplanned : node.toAgentWorkNodeProposal ∈ nodes := by
      rw [← hplans]
      exact List.mem_map_of_mem hnode
    refine ⟨node, mem_ready hnode hstatus fun dependency hdependency => ?_⟩
    have hedge : Edge (dependenciesOf nodes) name dependency :=
      (edge_iff_dependsOn hnodup).mpr ⟨_, hplanned, hname, hdependency⟩
    obtain ⟨planned, hmem, halias⟩ := hknown _ hplanned dependency hdependency
    rw [← hplans] at hmem
    obtain ⟨other, hother, rfl⟩ := List.mem_map.mp hmem
    -- What it depends on comes later, so it is not pending any more.
    have hresolved : other.resolved = true := by
      unfold AgentWorkNode.resolved
      rcases hrest other hother with hopen | hdone | hdone
      · have hin : other.alias ∈ seen := by
          rw [show other.alias = dependency from halias]
          exact hordered.1 hedge
        exact absurd ⟨other, hother, hopen, hin⟩ hlater
      · rw [hdone]
        rfl
      · rw [hdone]
        rfl
    exact AgentWorkGraph.mem_resolvedAliases.mpr ⟨other, hother, hresolved, halias⟩

/-- Where a graph is at rest and not complete, a node is ready. -/
theorem exists_ready {proposal : AgentWorkGraphProposal} (hvalid : proposal.WellFormed)
    (hplans : graph.Plans proposal.nodes) (hrest : graph.AtRest)
    (hopen : isAgentWorkGraphComplete graph = false) : readyAgentWorkNodes graph ≠ [] := by
  obtain ⟨seen, hordered, hsub⟩ :=
    exists_ordered_of_assertAcyclic ((assertAcyclic_eq_ok (u := ()) hvalid.distinct).mpr
      hvalid.acyclic)
  obtain ⟨node, hnode, hunresolved⟩ : ∃ node ∈ graph.nodes, ¬ node.resolved = true := by
    unfold isAgentWorkGraphComplete at hopen
    simpa using hopen
  have hpending : node.status = .pending := by
    refine (hrest node hnode).resolve_right fun hdone => hunresolved ?_
    unfold AgentWorkNode.resolved
    rcases hdone with hdone | hdone
    · rw [hdone]
      rfl
    · rw [hdone]
      rfl
  have hseen : node.alias ∈ seen := by
    apply hsub
    rw [← hplans, List.map_map]
    exact List.mem_map_of_mem hnode
  obtain ⟨ready, hready⟩ := exists_ready_of_ordered hplans hrest hvalid.distinct
    (fun node hnode dependency hdependency => (hvalid.known node hnode dependency hdependency).2)
    hordered ⟨node, hnode, hpending, hseen⟩
  exact List.ne_nil_of_mem hready

end Progress

/-- The search for a cycle ends for any dependencies, with one outcome for every bound above the
number of nodes. A proposal passes exactly when it is well formed. A graph that is created from it has
a ready node whenever all of its nodes are pending or resolved and one is pending. -/
theorem validation_exact :
    (∀ nodes : List AgentWorkNodeProposal, ∃ outcome, outcome ≠ .unfinished ∧
      (∀ depth, nodes.length < depth → searchFrom nodes depth = outcome) ∧
      assertAcyclic nodes = (seenOrCycle outcome).map fun _ => ()) ∧
    (∀ input : AgentWorkGraphInput,
      (∃ proposal, validateAgentWorkGraphInput input = .ok proposal) ↔ input.WellFormed) ∧
    ∀ (proposal : AgentWorkGraphProposal) (revision : ℕ) (now : Timestamp) (created : AgentWorkGraph),
      createAgentWorkGraph proposal revision now = .ok created →
        created.Plans proposal.nodes ∧
        ∀ graph : AgentWorkGraph, graph.Plans proposal.nodes → graph.AtRest →
          isAgentWorkGraphComplete graph = false → readyAgentWorkNodes graph ≠ [] := by
  refine ⟨fun nodes => ?_, fun input => ?_, fun proposal revision now created h => ?_⟩
  · refine ⟨searchFrom nodes (nodes.length + 1), searchFrom_finishes (Nat.lt_succ_self _), ?_,
      assertAcyclic_eq_searchFrom⟩
    intro depth hdepth
    exact searchFrom_eq hdepth
  · exact exists_congr fun proposal => validateInput_eq_ok
  · unfold createAgentWorkGraph at h
    rw [check_bind_eq_ok, validate_iff_wellFormed, pure_eq_ok] at h
    obtain ⟨hvalid, rfl⟩ := h
    refine ⟨?_, fun graph hplans hrest hopen => exists_ready hvalid hplans hrest hopen⟩
    show (proposal.nodes.map _).map AgentWorkNode.toAgentWorkNodeProposal = proposal.nodes
    rw [List.map_map]
    exact List.map_id _

/-- A plan whose second node waits for the first. -/
def chainedProposal : AgentWorkGraphProposal where
  goal := "goal"
  completionCriteria := ["done"]
  nodes := [⟨"first", .inspect, "look", [], .self, ["seen"]⟩,
    ⟨"second", .verify, "check", ["first"], .self, ["checked"]⟩]

/-- The graph of that plan, when the first node is completed. -/
def chainedGraph (revision : ℕ) (now : Timestamp) : AgentWorkGraph where
  revision
  phase := .executing
  goal := "goal"
  completionCriteria := ["done"]
  nodes := chainedProposal.nodes.map fun node =>
    { node with status := if node.alias = "first" then .completed else .pending }
  createdAt := now
  updatedAt := now

/-- A chain of nodes is accepted, and its first node is ready. -/
theorem validation_exact_chained :
    (∃ proposal, validateAgentWorkGraphInput chainedProposal.toInput = .ok proposal) ∧
      readyAgentWorkNodes (chainedGraph 1 0) ≠ [] := by
  have hvalid : validateAgentWorkGraphProposal chainedProposal = .ok () := by decide +kernel
  refine ⟨(validation_exact.2.1 _).mpr ⟨_, rfl, validate_iff_wellFormed.mp hvalid⟩, ?_⟩
  obtain ⟨created, hcreated⟩ : ∃ graph, createAgentWorkGraph chainedProposal 1 0 = .ok graph := by
    rw [createAgentWorkGraph, hvalid]
    exact ⟨_, rfl⟩
  have hready := (validation_exact.2.2 chainedProposal 1 0 created hcreated).2
  refine hready (chainedGraph 1 0) rfl ?_ rfl
  intro node hnode
  obtain ⟨proposed, -, rfl⟩ := List.mem_map.mp hnode
  dsimp only
  split_ifs
  · exact .inr (.inl rfl)
  · exact .inl rfl

/-- Two nodes that wait for each other are refused. -/
example : validateAgentWorkGraphProposal { chainedProposal with
      nodes := [⟨"a", .inspect, "look", ["b"], .self, ["seen"]⟩,
        ⟨"b", .verify, "check", ["a"], .self, ["checked"]⟩] } =
    .error "Agent work graph dependencies contain a cycle." := by
  decide +kernel

end OsAgent.Kernel
