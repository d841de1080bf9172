import Mathlib.Data.List.Nodup
import OsAgent.Kernel.TaskControlBlock

/-!
# The order of the work graph

A node is started when all that it depends on is resolved, and a resolved node is not changed again.
Both are properties of one graph (`Ordered`) and of what a method may do to it (`Advanced`): it
changes at most one node, which is not resolved, and it keeps the plan.
-/

namespace OsAgent.Kernel

open OsAgent.Library OsAgent.Capability

/-! ## One graph -/

/-- The node has been started: it runs, waits, or is done. -/
def AgentWorkNode.engaged (node : AgentWorkNode) : Bool :=
  node.status = .running || node.status = .blocked || node.status = .completed

/-- A node of the task's own that the task is at. -/
def AgentWorkNode.active (node : AgentWorkNode) : Bool :=
  node.assignee = .self && (node.status = .ready || node.status = .running || node.status = .blocked)

/-- Only the agent itself has an active node. -/
theorem AgentWorkNode.assignee_of_active {node : AgentWorkNode} (h : node.active = true) :
    node.assignee = .self := by
  unfold AgentWorkNode.active at h
  exact of_decide_eq_true (Bool.and_eq_true_iff.mp h).1

/-- The order of a graph. -/
structure AgentWorkGraph.Ordered (graph : AgentWorkGraph) : Prop where
  aliases : (graph.nodes.map fun node => node.alias).Nodup
  /-- The current node is one of the task's own, and is not resolved. -/
  current : ∀ name, graph.currentNodeAlias = some name → ∃ node ∈ graph.nodes,
    node.alias = name ∧ node.assignee = .self ∧ node.resolved = false
  /-- The task is at no other node of its own. -/
  active : ∀ node ∈ graph.nodes, node.active = true → graph.currentNodeAlias = some node.alias
  /-- A node that has a child is not one of the task's own. -/
  children : ∀ node ∈ graph.nodes, node.childTaskId.isSome = true → node.assignee ≠ .self
  /-- What has been started had nothing to wait for. -/
  dependencies : ∀ node ∈ graph.nodes,
    node.engaged = true ∨ graph.currentNodeAlias = some node.alias →
      node.dependsOn ⊆ resolvedAliases graph.nodes

/-- What a method may make of a graph: the revision and the resolved nodes stay. -/
structure AgentWorkGraph.Advanced (graph graph' : AgentWorkGraph) : Prop where
  revision : graph'.revision = graph.revision
  resolved : ∀ node ∈ graph.nodes, node.resolved = true → node ∈ graph'.nodes
  ordered : graph'.Ordered

namespace AgentWorkGraph

variable {graph graph' : AgentWorkGraph}

/-- An alias is resolved if a node of that name is. -/
theorem mem_resolvedAliases {nodes : List AgentWorkNode} {name : String} :
    name ∈ resolvedAliases nodes ↔ ∃ node ∈ nodes, node.resolved = true ∧ node.alias = name := by
  unfold resolvedAliases
  rw [List.mem_map]
  constructor
  · rintro ⟨node, hnode, hname⟩
    obtain ⟨hmem, hresolved⟩ := List.mem_filter.mp hnode
    exact ⟨node, hmem, hresolved, hname⟩
  · rintro ⟨node, hmem, hresolved, hname⟩
    exact ⟨node, List.mem_filter.mpr ⟨hmem, hresolved⟩, hname⟩

/-- In an ordered graph, the alias of a node says which node it is. -/
theorem Ordered.eq_of_alias (h : graph.Ordered) {node node' : AgentWorkNode}
    (hnode : node ∈ graph.nodes) (hnode' : node' ∈ graph.nodes) (halias : node.alias = node'.alias) :
    node = node' :=
  List.inj_on_of_nodup_map h.aliases hnode hnode' halias

/-- The current node is not resolved. -/
theorem Ordered.resolved_current (h : graph.Ordered) {node : AgentWorkNode}
    (hnode : node ∈ graph.nodes) (hcurrent : graph.currentNodeAlias = some node.alias) :
    node.assignee = .self ∧ node.resolved = false := by
  obtain ⟨current, hmem, halias, hself, hopen⟩ := h.current _ hcurrent
  obtain rfl := h.eq_of_alias hmem hnode halias
  exact ⟨hself, hopen⟩

/-- A change that leaves the nodes and the current node alone. -/
theorem Ordered.header (h : graph.Ordered) (hrevision : graph'.revision = graph.revision)
    (hnodes : graph'.nodes = graph.nodes)
    (hcurrent : graph'.currentNodeAlias = graph.currentNodeAlias) : graph.Advanced graph' where
  revision := hrevision
  resolved := by
    intro node hnode _
    rwa [hnodes]
  ordered := by
    constructor
    · rw [hnodes]
      exact h.aliases
    · rw [hnodes, hcurrent]
      exact h.current
    · rw [hnodes, hcurrent]
      exact h.active
    · rw [hnodes]
      exact h.children
    · rw [hnodes, hcurrent]
      exact h.dependencies

/-- A node that is not resolved is changed. It keeps its plan, it gets no child if it is one of the
task's own, and it is started only when all that it depends on is resolved. What is current afterwards is
this node, or was current before; it is not resolved now. Another node stays current. -/
theorem Ordered.change (h : graph.Ordered) {before after : List AgentWorkNode}
    {node node' : AgentWorkNode} (hnodes : graph.nodes = before ++ node :: after)
    (hnodes' : graph'.nodes = before ++ node' :: after)
    (hrevision : graph'.revision = graph.revision)
    (hplan : node'.toAgentWorkNodeProposal = node.toAgentWorkNodeProposal)
    (hopen : node.resolved = false)
    (hchild : node'.childTaskId = node.childTaskId ∨ node.assignee ≠ .self)
    (hready : node'.engaged = true ∨ graph'.currentNodeAlias = some node.alias →
      node.dependsOn ⊆ resolvedAliases graph.nodes)
    (hcurrent : ∀ name, graph'.currentNodeAlias = some name →
      (name = node.alias ∨ graph.currentNodeAlias = some name) ∧
        (name = node.alias → node.assignee = .self ∧ node'.resolved = false))
    (hactive : node'.active = true → graph'.currentNodeAlias = some node.alias)
    (hstays : ∀ name, graph.currentNodeAlias = some name → name ≠ node.alias →
      graph'.currentNodeAlias = some name) :
    graph.Advanced graph' := by
  have halias : node'.alias = node.alias := congrArg AgentWorkNodeProposal.alias hplan
  have hassignee : node'.assignee = node.assignee := congrArg AgentWorkNodeProposal.assignee hplan
  have hdepends : node'.dependsOn = node.dependsOn := congrArg AgentWorkNodeProposal.dependsOn hplan
  have hmem : node ∈ graph.nodes := hnodes ▸ List.mem_append_right _ List.mem_cons_self
  have hmem' : node' ∈ graph'.nodes := hnodes' ▸ List.mem_append_right _ List.mem_cons_self
  -- The other nodes are those that were there.
  have hkept : ∀ other ∈ graph.nodes, other = node ∨ other ∈ graph'.nodes := by
    rw [hnodes, hnodes']
    intro other hother
    rcases List.mem_append.mp hother with hbefore | hother
    · exact Or.inr (List.mem_append_left _ hbefore)
    · rcases List.mem_cons.mp hother with hsame | hafter
      · exact Or.inl hsame
      · exact Or.inr (List.mem_append_right _ (List.mem_cons_of_mem _ hafter))
  have hcases : ∀ other ∈ graph'.nodes, other = node' ∨ other ∈ graph.nodes ∧
      other.alias ≠ node.alias := by
    have haliases := h.aliases
    rw [hnodes, List.map_append, List.map_cons, List.nodup_append, List.nodup_cons] at haliases
    rw [hnodes, hnodes']
    intro other hother
    rcases List.mem_append.mp hother with hbefore | hother
    · refine Or.inr ⟨List.mem_append_left _ hbefore, ?_⟩
      exact haliases.2.2 _ (List.mem_map_of_mem hbefore) _ List.mem_cons_self
    · rcases List.mem_cons.mp hother with hsame | hafter
      · exact Or.inl hsame
      · refine Or.inr ⟨List.mem_append_right _ (List.mem_cons_of_mem _ hafter), ?_⟩
        intro hsame
        exact haliases.2.1.1 (hsame ▸ List.mem_map_of_mem hafter)
  have hresolved : ∀ other ∈ graph.nodes, other.resolved = true → other ∈ graph'.nodes := by
    intro other hother htrue
    rcases hkept other hother with rfl | hother
    · exact absurd (htrue.symm.trans hopen) (by simp)
    · exact hother
  have hgrow : resolvedAliases graph.nodes ⊆ resolvedAliases graph'.nodes := by
    intro name hname
    obtain ⟨other, hother, htrue, hsame⟩ := mem_resolvedAliases.mp hname
    exact mem_resolvedAliases.mpr ⟨other, hresolved other hother htrue, htrue, hsame⟩
  refine ⟨hrevision, hresolved, ?_⟩
  constructor
  · have hsame : graph'.nodes.map (fun node => node.alias) =
        graph.nodes.map fun node => node.alias := by
      rw [hnodes, hnodes', List.map_append, List.map_append, List.map_cons, List.map_cons, halias]
    rw [hsame]
    exact h.aliases
  · intro name hname
    obtain ⟨hwas, hnow⟩ := hcurrent name hname
    by_cases hsame : name = node.alias
    · obtain ⟨hself, hopen'⟩ := hnow hsame
      exact ⟨node', hmem', halias.trans hsame.symm, hassignee.trans hself, hopen'⟩
    · obtain ⟨other, hother, hothers, hself, hopen'⟩ := h.current name (hwas.resolve_left hsame)
      rcases hkept other hother with rfl | hother
      · exact absurd hothers.symm hsame
      · exact ⟨other, hother, hothers, hself, hopen'⟩
  · intro other hother hat
    rcases hcases other hother with rfl | ⟨hother, hne⟩
    · rw [halias]
      exact hactive hat
    · exact hstays _ (h.active other hother hat) hne
  · intro other hother hsome
    rcases hcases other hother with rfl | ⟨hother, -⟩
    · rw [hassignee]
      rcases hchild with hchild | hchild
      · exact h.children node hmem (hchild ▸ hsome)
      · exact hchild
    · exact h.children other hother hsome
  · intro other hother hstarted
    rcases hcases other hother with rfl | ⟨hother, hne⟩
    · rw [halias] at hstarted
      rw [hdepends]
      exact List.Subset.trans (hready hstarted) hgrow
    · refine List.Subset.trans (h.dependencies other hother ?_) hgrow
      rcases hstarted with hengaged | hcurrent'
      · exact Or.inl hengaged
      · exact Or.inr ((hcurrent _ hcurrent').1.resolve_left hne)

/-- A node that is ready is not resolved, and has nothing to wait for. -/
theorem Ordered.of_ready (h : graph.Ordered) {node : AgentWorkNode} (hnode : node ∈ graph.nodes)
    (hready : (readyAgentWorkNodes graph).any (fun candidate => candidate.alias = node.alias) = true) :
    node.resolved = false ∧ node.dependsOn ⊆ resolvedAliases graph.nodes := by
  obtain ⟨candidate, hcandidate, hsame⟩ := List.any_eq_true.mp hready
  obtain ⟨hmem, hwaits⟩ := List.mem_filter.mp hcandidate
  obtain rfl := h.eq_of_alias hmem hnode (of_decide_eq_true hsame)
  obtain ⟨hstatus, hdependencies⟩ := Bool.and_eq_true_iff.mp hwaits
  constructor
  · unfold AgentWorkNode.resolved
    rcases Bool.or_eq_true_iff.mp hstatus with hpending | hready
    · rw [of_decide_eq_true hpending]
      rfl
    · rw [of_decide_eq_true hready]
      rfl
  · intro dependency hdependency
    exact of_decide_eq_true (List.all_eq_true.mp hdependencies dependency hdependency)

end AgentWorkGraph

/-! ## A new graph -/

/-- The aliases of nodes that pass their checks are distinct. -/
theorem nodup_of_validateNodes {aliases result : List String} {nodes : List AgentWorkNodeProposal}
    (haliases : aliases.Nodup) (h : validateNodes aliases nodes = .ok result) :
    (aliases ++ nodes.map AgentWorkNodeProposal.alias).Nodup := by
  induction nodes generalizing aliases with
  | nil => simpa using haliases
  | cons node nodes ih =>
    unfold validateNodes at h
    rw [check_bind_eq_ok] at h
    obtain ⟨hnode, hrest⟩ := h
    unfold validateNode at hnode
    rw [check_bind_eq_ok, check_bind_eq_ok, require_eq_ok, require_eq_ok] at hnode
    have hnew : (aliases ++ [node.alias]).Nodup :=
      List.Nodup.append haliases (List.nodup_singleton _)
        (List.disjoint_singleton.mpr hnode.2.1)
    have hall := ih hnew hrest
    rwa [List.append_assoc, List.singleton_append] at hall

/-- A new graph is ordered: nothing of it has been started. -/
theorem ordered_of_createAgentWorkGraph {proposal : AgentWorkGraphProposal} {revision : ℕ}
    {now : Timestamp} {graph : AgentWorkGraph}
    (h : createAgentWorkGraph proposal revision now = .ok graph) :
    graph.revision = revision ∧ graph.Ordered := by
  unfold createAgentWorkGraph at h
  rw [check_bind_eq_ok] at h
  obtain ⟨hvalid, hgraph⟩ := h
  rw [pure_eq_ok] at hgraph
  subst hgraph
  unfold validateAgentWorkGraphProposal at hvalid
  rw [check_bind_eq_ok, check_bind_eq_ok, check_bind_eq_ok, check_bind_eq_ok] at hvalid
  obtain ⟨-, -, -, -, hnodes⟩ := hvalid
  obtain ⟨aliases, haliases, -⟩ := bind_eq_ok.mp hnodes
  -- The aliases of a proposal that is accepted differ.
  have hnodup := nodup_of_validateNodes List.nodup_nil haliases
  rw [List.nil_append] at hnodup
  refine ⟨rfl, ?_⟩
  constructor
  · dsimp only
    rw [List.map_map]
    exact hnodup
  · intro name hname
    cases hname
  · -- Every node of a new graph waits: it is not active, has no result, and was not started.
    intro node hnode hat
    obtain ⟨proposed, -, rfl⟩ := List.mem_map.mp hnode
    unfold AgentWorkNode.active at hat
    simp at hat
  · intro node hnode hsome
    obtain ⟨proposed, -, rfl⟩ := List.mem_map.mp hnode
    cases hsome
  · intro node hnode hstarted
    obtain ⟨proposed, -, rfl⟩ := List.mem_map.mp hnode
    rcases hstarted with hengaged | hcurrent
    · cases hengaged
    · cases hcurrent

/-! ## What a method does to the graph -/

/-- What a call may do to the graph of a task. -/
inductive GraphOutcome : Option AgentWorkGraph → Option AgentWorkGraph → Prop
  | same (graph : Option AgentWorkGraph) : GraphOutcome graph graph
  | advanced {graph graph' : AgentWorkGraph} (h : graph.Advanced graph') :
      GraphOutcome (some graph) (some graph')
  /-- A new graph has the next revision. -/
  | replaced {graph : Option AgentWorkGraph} {graph' : AgentWorkGraph}
      (hrevision : graph'.revision = (graph.map AgentWorkGraph.revision).getD 0 + 1)
      (hordered : graph'.Ordered) : GraphOutcome graph (some graph')

/-- The graph of the task is ordered, if there is one. -/
def TaskControlBlock.Ordered (s : TaskControlBlock) : Prop :=
  ∀ graph, s.workGraph = some graph → graph.Ordered

/-- What holds however a method ends: the graph has an outcome, and is the same if it threw. -/
abbrev KeepsOrder {α : Type} (x : TaskM α) (s : TaskControlBlock) : Prop :=
  wp x (fun _ s' => GraphOutcome s.workGraph s'.workGraph) (fun _ s' => s'.workGraph = s.workGraph) s

variable {s : TaskControlBlock}

/-- A work graph is required and is there. -/
theorem wp_requireWorkGraph : wp requireWorkGraph
    (fun graph s' => s' = s ∧ s.workGraph = some graph) (fun _ s' => s' = s) s := by
  unfold requireWorkGraph
  rw [wp_bind, wp_get]
  split
  · rfl
  · next graph hgraph => exact ⟨rfl, hgraph⟩

/-- A node is required and is the one of its name. -/
theorem wp_requireWorkGraphNode (graph : AgentWorkGraph) (name : String) :
    wp (requireWorkGraphNode graph name)
      (fun node s' => s' = s ∧ graph.nodes.find? (fun node => node.alias = name) = some node)
      (fun _ s' => s' = s) s := by
  unfold requireWorkGraphNode
  split
  · rfl
  · next node hnode => exact ⟨rfl, hnode⟩

/-- A node is required to be ready. -/
theorem wp_assertWorkGraphNodeReady (graph : AgentWorkGraph) (node : AgentWorkNode) :
    wp (assertWorkGraphNodeReady graph node)
      (fun _ s' => s' = s ∧ (readyAgentWorkNodes graph).any
        (fun candidate => candidate.alias = node.alias) = true)
      (fun _ s' => s' = s) s := by
  unfold assertWorkGraphNodeReady
  rw [wp_ite]
  split_ifs with hready
  · exact ⟨rfl, hready⟩
  · rfl

/-- A method that starts by reading the graph. -/
theorem keepsOrder_of_graph {α : Type} {f : AgentWorkGraph → TaskM α}
    (h : ∀ graph, s.workGraph = some graph → KeepsOrder (f graph) s) :
    KeepsOrder (do let graph ← requireWorkGraph; f graph) s := by
  apply wp_bind_of wp_requireWorkGraph
  · rintro graph s' ⟨rfl, hgraph⟩
    exact h graph hgraph
  · rintro _ s' rfl
    rfl

/-- A method that goes on with a node of the graph. -/
theorem keepsOrder_of_node {α : Type} {f : AgentWorkNode → TaskM α} {graph : AgentWorkGraph}
    {name : String}
    (h : ∀ node, graph.nodes.find? (fun node => node.alias = name) = some node →
      KeepsOrder (f node) s) :
    KeepsOrder (do let node ← requireWorkGraphNode graph name; f node) s := by
  apply wp_bind_of (wp_requireWorkGraphNode graph name)
  · rintro node s' ⟨rfl, hnode⟩
    exact h node hnode
  · rintro _ s' rfl
    rfl

/-- A method that goes on when a node is ready. -/
theorem keepsOrder_of_ready {α : Type} {x : TaskM α} {graph : AgentWorkGraph}
    {node : AgentWorkNode}
    (h : (readyAgentWorkNodes graph).any (fun candidate => candidate.alias = node.alias) = true →
      KeepsOrder x s) : KeepsOrder (do assertWorkGraphNodeReady graph node; x) s := by
  apply wp_bind_of (wp_assertWorkGraphNodeReady graph node)
  · rintro _ s' ⟨rfl, hready⟩
    exact h hready
  · rintro _ s' rfl
    rfl

/-- A method that writes what it makes of the graph. -/
theorem keepsOrder_setWorkGraph {graph graph' : AgentWorkGraph} (hgraph : s.workGraph = some graph)
    (h : graph.Advanced graph') : KeepsOrder (setWorkGraph graph') s := by
  unfold KeepsOrder setWorkGraph
  rw [wp_modify, hgraph]
  exact GraphOutcome.advanced h

/-! ## The methods -/

/-- A graph that is replaced has the next revision. -/
theorem wp_replaceWorkGraph (proposal : AgentWorkGraphProposal) (now : Timestamp) :
    wp (replaceWorkGraph proposal now)
      (fun _ s' => ∃ graph', s'.workGraph = some graph' ∧
        graph'.revision = (s.workGraph.map AgentWorkGraph.revision).getD 0 + 1 ∧ graph'.Ordered)
      (fun _ s' => s'.workGraph = s.workGraph) s := by
  have hcreate : ∀ s' : TaskControlBlock, s'.workGraph = s.workGraph →
      wp (do
        let graph ← createAgentWorkGraph proposal
          ((s.workGraph.map AgentWorkGraph.revision).getD 0 + 1) now
        setWorkGraph graph : TaskM Unit)
        (fun _ s' => ∃ graph', s'.workGraph = some graph' ∧
          graph'.revision = (s.workGraph.map AgentWorkGraph.revision).getD 0 + 1 ∧ graph'.Ordered)
        (fun _ s' => s'.workGraph = s.workGraph) s' := by
    intro s' hsame
    rw [wp_bind, wp_lift]
    refine ⟨?_, fun _ _ => hsame⟩
    intro graph hgraph
    exact ⟨graph, rfl, ordered_of_createAgentWorkGraph hgraph⟩
  unfold replaceWorkGraph
  rw [wp_bind, wp_get]
  dsimp only
  rw [wp_ite]
  split_ifs with hmode
  · rfl
  · split
    · exact hcreate s rfl
    · exact hcreate _ rfl

/-- A new graph is in order. -/
theorem keepsOrder_replaceWorkGraph (proposal : AgentWorkGraphProposal) (now : Timestamp) :
    KeepsOrder (replaceWorkGraph proposal now) s := by
  apply wp_mono (wp_replaceWorkGraph proposal now)
  · rintro _ s' ⟨graph', hgraph', hrevision, hordered⟩
    rw [hgraph']
    exact GraphOutcome.replaced hrevision hordered
  · exact fun _ _ hsame => hsame

/-- To activate a node keeps the order. -/
theorem keepsOrder_activateSelfWorkGraphNode (h : s.Ordered) (name : String) (now : Timestamp) :
    KeepsOrder (activateSelfWorkGraphNode name now) s := by
  apply keepsOrder_of_graph
  intro graph hgraph
  have hordered := h graph hgraph
  split
  · rfl
  · next hnone =>
    apply keepsOrder_of_node
    intro node hnode
    dsimp only
    unfold KeepsOrder
    rw [wp_ite]
    split_ifs with hself
    · rfl
    · -- A node can be activated only when it is ready, and then all it depends on is completed.
      apply keepsOrder_of_ready
      intro hready
      apply keepsOrder_setWorkGraph hgraph
      rw [not_not] at hself
      obtain ⟨before, after, halias, hsplit, -, hchanged⟩ := exists_modifyFirst
        (f := fun node => { node.started now with status := .ready }) hnode
      rw [decide_eq_true_eq] at halias
      obtain ⟨hopen, hdepends⟩ := hordered.of_ready (List.mem_of_find?_eq_some hnode) hready
      refine hordered.change hsplit hchanged rfl rfl hopen (Or.inl rfl) (fun _ => hdepends) ?_
        (fun _ => congrArg some halias.symm) ?_
      · -- The node that is current now is the one that was activated.
        intro current hcurrent
        have hname : current = node.alias := (Option.some.inj hcurrent).symm.trans halias.symm
        exact ⟨Or.inl hname, fun _ => ⟨hself, rfl⟩⟩
      · intro current hcurrent
        rw [hnone] at hcurrent
        cases hcurrent

/-- To delegate a node keeps the order. -/
theorem keepsOrder_bindDelegatedWorkGraphNode (h : s.Ordered) (name childTaskId : String)
    (now : Timestamp) : KeepsOrder (bindDelegatedWorkGraphNode name childTaskId now) s := by
  apply keepsOrder_of_graph
  intro graph hgraph
  have hordered := h graph hgraph
  apply keepsOrder_of_node
  intro node hnode
  dsimp only
  unfold KeepsOrder
  rw [wp_ite]
  split_ifs with hself
  · rfl
  · apply keepsOrder_of_ready
    intro hready
    apply keepsOrder_setWorkGraph hgraph
    have hmem := List.mem_of_find?_eq_some hnode
    obtain ⟨before, after, -, hsplit, -, hchanged⟩ := exists_modifyFirst
      (f := fun node => node.delegated childTaskId now) hnode
    obtain ⟨hopen, hdepends⟩ := hordered.of_ready hmem hready
    refine hordered.change hsplit hchanged rfl rfl hopen (Or.inr hself) (fun _ => hdepends) ?_ ?_
      fun _ hcurrent _ => hcurrent
    · intro current hcurrent
      refine ⟨Or.inr hcurrent, ?_⟩
      intro hname
      have howned := (hordered.resolved_current hmem (hname ▸ hcurrent)).1
      exact absurd howned hself
    · intro hat
      exact absurd (AgentWorkNode.assignee_of_active hat) hself

/-- The current node is changed, and none is current afterwards. -/
theorem AgentWorkGraph.Ordered.finish {graph graph' : AgentWorkGraph} (h : graph.Ordered)
    {name : String} {node : AgentWorkNode} {change : AgentWorkNode → AgentWorkNode}
    (hcurrent : graph.currentNodeAlias = some name)
    (hnode : graph.nodes.find? (fun node => node.alias = name) = some node)
    (hnodes : graph'.nodes = modifyFirst (fun node => node.alias = name) change graph.nodes)
    (hrevision : graph'.revision = graph.revision)
    (hplan : (change node).toAgentWorkNodeProposal = node.toAgentWorkNodeProposal)
    (hchild : (change node).childTaskId = node.childTaskId)
    (hleft : (change node).active = false)
    (hnone : graph'.currentNodeAlias = none) : graph.Advanced graph' := by
  have hmem := List.mem_of_find?_eq_some hnode
  obtain ⟨before, after, halias, hsplit, -, hchanged⟩ := exists_modifyFirst (f := change) hnode
  rw [decide_eq_true_eq] at halias
  rw [← halias] at hcurrent
  have hopen := (h.resolved_current hmem hcurrent).2
  have hdepends := h.dependencies node hmem (Or.inr hcurrent)
  refine h.change hsplit (hnodes.trans hchanged) hrevision hplan hopen (Or.inl hchild)
    (fun _ => hdepends) ?_ ?_ ?_
  · intro current hsome
    rw [hnone] at hsome
    cases hsome
  · intro hat
    rw [hleft] at hat
    cases hat
  · intro other hother hne
    exact absurd (Option.some.inj (hother.symm.trans hcurrent)) hne

/-- To complete the current node keeps the order. -/
theorem keepsOrder_completeCurrentWorkGraphNode (h : s.Ordered) (output : JsonValue)
    (now : Timestamp) : KeepsOrder (completeCurrentWorkGraphNode output now) s := by
  apply keepsOrder_of_graph
  intro graph hgraph
  split
  · rfl
  · next name hname =>
    apply keepsOrder_of_node
    intro node hnode
    apply keepsOrder_setWorkGraph hgraph
    exact (h graph hgraph).finish hname hnode rfl rfl rfl rfl
      (by simp [AgentWorkNode.active, AgentWorkNode.completed]) rfl

/-- To ask for a new plan keeps the order. -/
theorem keepsOrder_requestCurrentWorkGraphReplan (h : s.Ordered) (reason : String)
    (now : Timestamp) (partialOutput : Option JsonValue) :
    KeepsOrder (requestCurrentWorkGraphReplan reason now partialOutput) s := by
  apply keepsOrder_of_graph
  intro graph hgraph
  split
  · rfl
  · next name hname =>
    apply keepsOrder_of_node
    intro node hnode
    apply keepsOrder_setWorkGraph hgraph
    exact (h graph hgraph).finish hname hnode rfl rfl rfl rfl
      (by simp [AgentWorkNode.active, AgentWorkNode.outdated]) rfl

/-- To enter planning keeps the order. -/
theorem keepsOrder_enterWorkGraphPlan (h : s.Ordered) (now : Timestamp) :
    KeepsOrder (enterWorkGraphPlan now) s := by
  apply keepsOrder_of_graph
  intro graph hgraph
  dsimp only
  unfold KeepsOrder
  rw [wp_ite]
  split_ifs with hcurrent
  · rfl
  · apply keepsOrder_setWorkGraph hgraph
    exact (h graph hgraph).header rfl rfl rfl

/-- The end of a child leaves the plan of its node, and the child, as they are. -/
theorem AgentWorkNode.ended_plan (node : AgentWorkNode) (termination : Termination)
    (now : Timestamp) :
    (node.ended termination now).toAgentWorkNodeProposal = node.toAgentWorkNodeProposal ∧
      (node.ended termination now).childTaskId = node.childTaskId := by
  cases termination with
  | completed output => exact ⟨rfl, rfl⟩
  | failed error => exact ⟨rfl, rfl⟩
  | cancelled reason => exact ⟨rfl, rfl⟩
  | needsParentAction requiredWork partialOutput => exact ⟨rfl, rfl⟩

/-- To complete a delegated node keeps the order. -/
theorem keepsOrder_completeDelegatedWorkGraphNode (h : s.Ordered) (childTaskId : String)
    (termination : Termination) (now : Timestamp) :
    KeepsOrder (completeDelegatedWorkGraphNode childTaskId termination now) s := by
  unfold KeepsOrder completeDelegatedWorkGraphNode
  rw [wp_bind, wp_get]
  split
  · exact GraphOutcome.same _
  · next graph hgraph =>
    have hordered := h graph hgraph
    split
    · exact GraphOutcome.same _
    · next node hnode =>
      rw [wp_ite]
      split_ifs with hblocked
      · exact GraphOutcome.same _
      · apply keepsOrder_setWorkGraph hgraph
        rw [not_not] at hblocked
        have hmem := List.mem_of_find?_eq_some hnode
        obtain ⟨before, after, hchild, hsplit, -, hchanged⟩ := exists_modifyFirst
          (f := fun node => node.ended termination now) hnode
        rw [decide_eq_true_eq] at hchild
        -- The node is a child's, so it is not one of the task's own.
        have hothers : node.assignee ≠ .self := hordered.children node hmem (by rw [hchild]; rfl)
        have hopen : node.resolved = false := by
          unfold AgentWorkNode.resolved
          rw [hblocked]
          rfl
        have hdepends := hordered.dependencies node hmem
          (Or.inl (by unfold AgentWorkNode.engaged; rw [hblocked]; rfl))
        obtain ⟨hplan, hsame⟩ := node.ended_plan termination now
        -- Only this node changes, and not to one at work.
        refine hordered.change hsplit hchanged rfl hplan hopen (Or.inl hsame)
          (fun _ => hdepends) ?_ ?_ fun _ hcurrent _ => hcurrent
        · intro current hcurrent
          refine ⟨Or.inr hcurrent, ?_⟩
          intro hname
          exact absurd (hordered.resolved_current hmem (hname ▸ hcurrent)).1 hothers
        · intro hat
          have hself := AgentWorkNode.assignee_of_active hat
          rw [congrArg AgentWorkNodeProposal.assignee hplan] at hself
          exact absurd hself hothers

/-- To fail a node keeps the order. -/
theorem keepsOrder_failWorkGraphNode (h : s.Ordered) (name error : String) (now : Timestamp) :
    KeepsOrder (failWorkGraphNode name error now) s := by
  apply keepsOrder_of_graph
  intro graph hgraph
  have hordered := h graph hgraph
  apply keepsOrder_of_node
  intro node hnode
  unfold KeepsOrder
  rw [wp_ite]
  by_cases hdone : node.status = .completed ∨ node.status = .abandoned ∨ node.status = .failed
  · rw [if_pos hdone]
    exact GraphOutcome.same _
  · rw [if_neg hdone]
    apply keepsOrder_setWorkGraph hgraph
    have hmem := List.mem_of_find?_eq_some hnode
    obtain ⟨before, after, halias, hsplit, -, hchanged⟩ := exists_modifyFirst
      (f := fun node => node.undispatched error now) hnode
    rw [decide_eq_true_eq] at halias
    have hopen : node.resolved = false := by
      unfold AgentWorkNode.resolved
      simp only [Bool.or_eq_false_iff, decide_eq_false_iff_not]
      exact ⟨fun hcompleted => hdone (Or.inl hcompleted),
        fun habandoned => hdone (Or.inr (Or.inl habandoned))⟩
    -- The node is not current afterwards.
    have hother : ∀ current,
        (if graph.currentNodeAlias = some name then none else graph.currentNodeAlias) =
          some current → graph.currentNodeAlias = some current ∧ current ≠ node.alias := by
      intro current hcurrent
      split_ifs at hcurrent with hsame
      refine ⟨hcurrent, ?_⟩
      rintro rfl
      rw [halias] at hcurrent
      exact hsame hcurrent
    refine hordered.change hsplit hchanged rfl rfl hopen (Or.inl rfl) ?_ ?_ ?_ ?_
    · rintro (hengaged | hcurrent)
      · cases hengaged
      · exact absurd rfl (hother _ hcurrent).2
    · intro current hcurrent
      obtain ⟨hwas, hne⟩ := hother _ hcurrent
      exact ⟨Or.inr hwas, fun hsame => absurd hsame hne⟩
    · intro hat
      simp [AgentWorkNode.active, AgentWorkNode.undispatched] at hat
    · intro current hcurrent hne
      show (if graph.currentNodeAlias = some name then none else graph.currentNodeAlias) = _
      rw [if_neg, hcurrent]
      intro hsame
      exact hne ((Option.some.inj (hcurrent.symm.trans hsame)).trans halias.symm)

/-- What follows the state of the task keeps its plan, and is not resolved unless it was. -/
theorem AgentWorkNode.follow_plan (node : AgentWorkNode) (state : TaskState) :
    (node.follow state).toAgentWorkNodeProposal = node.toAgentWorkNodeProposal ∧
      (node.follow state).childTaskId = node.childTaskId ∧
      (node.resolved = false → (node.follow state).resolved = false) := by
  cases state with
  | ready enteredAt => exact ⟨rfl, rfl, fun _ => rfl⟩
  | running enteredAt => exact ⟨rfl, rfl, fun _ => rfl⟩
  | blocked enteredAt reason waitingFor => exact ⟨rfl, rfl, fun _ => rfl⟩
  | terminated enteredAt termination =>
    unfold AgentWorkNode.follow
    dsimp only
    split_ifs with hcompleted
    · exact ⟨rfl, rfl, fun hopen => hopen⟩
    · exact ⟨rfl, rfl, fun _ => rfl⟩

/-- To follow the state of the task keeps the order. -/
theorem keepsOrder_syncCurrentWorkGraphNode (h : s.Ordered) (state : TaskState) :
    KeepsOrder (syncCurrentWorkGraphNode state) s := by
  unfold KeepsOrder syncCurrentWorkGraphNode
  rw [wp_bind, wp_get]
  split
  · exact GraphOutcome.same _
  · next graph hgraph =>
    have hordered := h graph hgraph
    split
    · exact GraphOutcome.same _
    · next name hname =>
      rw [wp_ite]
      split_ifs with hempty
      · exact GraphOutcome.same _
      · apply keepsOrder_of_node
        intro node hnode
        apply keepsOrder_setWorkGraph hgraph
        have hmem := List.mem_of_find?_eq_some hnode
        obtain ⟨before, after, halias, hsplit, -, hchanged⟩ := exists_modifyFirst
          (f := fun node => node.follow state) hnode
        rw [decide_eq_true_eq] at halias
        rw [← halias] at hname
        obtain ⟨hself, hopen⟩ := hordered.resolved_current hmem hname
        have hdepends := hordered.dependencies node hmem (Or.inr hname)
        obtain ⟨hplan, hchild, hstays⟩ := node.follow_plan state
        refine hordered.change hsplit hchanged rfl hplan hopen (Or.inl hchild)
          (fun _ => hdepends) ?_ (fun _ => hname) fun _ hcurrent _ => hcurrent
        intro current hcurrent
        exact ⟨Or.inr hcurrent, fun _ => ⟨hself, hstays hopen⟩⟩

/-- A transition keeps the order. -/
theorem keepsOrder_transition (h : s.Ordered) (next : TaskState) :
    KeepsOrder (transition next) s := by
  unfold KeepsOrder transition
  rw [wp_bind, wp_get]
  dsimp only
  rw [wp_ite]
  split_ifs with hlegal
  · rw [wp_bind, wp_set]
    exact keepsOrder_syncCurrentWorkGraphNode (s := { s with state := next }) h next
  · rfl

/-- To restore a task keeps the order. -/
theorem keepsOrder_restore : KeepsOrder restore s := by
  unfold KeepsOrder restore
  rw [wp_bind, wp_get]
  split
  · exact GraphOutcome.same _
  · rw [wp_lift]
    exact ⟨fun _ _ => GraphOutcome.same _, fun _ _ => rfl⟩

end OsAgent.Kernel
