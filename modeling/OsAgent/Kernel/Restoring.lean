import OsAgent.Kernel.GraphRuns
import OsAgent.Kernel.Proposals

/-!
# Graphs that can be restored

A graph is checked when a task is restored. What every method keeps of it (`Fit`) is all that the check asks
for, but for two things: a node may be activated while the graph is planned again, and a task that is terminated
at a node of its own leaves that node failed and current. These are the graphs that the check rejects.
-/

namespace OsAgent.Kernel

open OsAgent.Library OsAgent.Capability

/-- The plan of a graph. -/
def AgentWorkGraph.proposal (graph : AgentWorkGraph) : AgentWorkGraphProposal where
  goal := graph.goal
  completionCriteria := graph.completionCriteria
  nodes := graph.nodes.map AgentWorkNode.toAgentWorkNodeProposal

/-- The task is at a node that can go on. -/
def AgentWorkNode.atWork (node : AgentWorkNode) : Prop :=
  node.status ∈ [AgentWorkNodeStatus.ready, .running, .blocked]

/-- What the graph of a task in this state is. -/
structure AgentWorkGraph.Fit (state : TaskState) (graph : AgentWorkGraph) : Prop where
  plan : graph.proposal.WellFormed
  revision : 0 < graph.revision
  /-- The current node can go on, unless the task has ended at it. -/
  current : ∀ node ∈ graph.nodes, graph.currentNodeAlias = some node.alias →
    node.atWork ∨ node.status = .failed ∧ state.status = .terminated

/-- The current node has not failed, and the graph is not planned again. -/
def AgentWorkGraph.Restorable (graph : AgentWorkGraph) : Prop :=
  ∀ name, graph.currentNodeAlias = some name →
    graph.phase = .executing ∧ ∀ node ∈ graph.nodes, node.alias = name → node.status ≠ .failed

namespace AgentWorkGraph

variable {graph graph' : AgentWorkGraph} {state : TaskState}

/-- The check of a graph that a method left. -/
theorem Fit.validate (h : graph.Fit state) (hordered : graph.Ordered) :
    validateAgentWorkGraph graph = .ok () ↔ graph.Restorable := by
  -- The plan of the graph is always valid; what is left is the current node.
  have hplan : validateAgentWorkGraphProposal
      { goal := graph.goal
        completionCriteria := graph.completionCriteria
        nodes := graph.nodes.map AgentWorkNode.toAgentWorkNodeProposal } = .ok () :=
    validate_iff_wellFormed.mpr h.plan
  have hchecks : validateAgentWorkGraph graph = .ok () ↔
      ∀ name, graph.currentNodeAlias = some name → graph.phase = .executing ∧
        ∃ current, graph.nodes.find? (fun node => node.alias = name) = some current ∧
          current.assignee = .self ∧ current.atWork := by
    unfold validateAgentWorkGraph
    rw [check_bind_eq_ok, check_bind_eq_ok, require_eq_ok]
    cases hcurrent : graph.currentNodeAlias with
    | none => simp [h.revision, hplan]
    | some name =>
      cases hfind : graph.nodes.find? fun node => node.alias = name with
      | none => simp [check_bind_eq_ok, hfind]
      | some current =>
        simp [check_bind_eq_ok, require_eq_ok, h.revision, hplan, hfind, AgentWorkNode.atWork]
  rw [hchecks]
  constructor
  · -- The check passes: the current node is at work, so it has not failed.
    intro hcurrent name hname
    obtain ⟨hphase, current, hfind, -, hwork⟩ := hcurrent name hname
    refine ⟨hphase, fun node hnode halias hfailed => ?_⟩
    have hsame : current.alias = name := by simpa using List.find?_some hfind
    obtain rfl := hordered.eq_of_alias (List.mem_of_find?_eq_some hfind) hnode (hsame.trans halias.symm)
    unfold AgentWorkNode.atWork at hwork
    rw [hfailed] at hwork
    exact absurd hwork (by decide)
  · -- Nothing has failed, so the current node is there and at work.
    intro hrestorable name hname
    obtain ⟨hphase, hnotFailed⟩ := hrestorable name hname
    obtain ⟨node, hnode, halias, hself, -⟩ := hordered.current name hname
    obtain ⟨current, hfind⟩ : ∃ current, graph.nodes.find? (fun node => node.alias = name) = some current := by
      rw [← Option.isSome_iff_exists, List.find?_isSome]
      exact ⟨node, hnode, decide_eq_true halias⟩
    have hsame : current.alias = name := by simpa using List.find?_some hfind
    have hmem := List.mem_of_find?_eq_some hfind
    obtain rfl := hordered.eq_of_alias hmem hnode (hsame.trans halias.symm)
    refine ⟨hphase, current, hfind, hself, ?_⟩
    exact (h.current current hmem (hname.trans (congrArg some hsame.symm))).resolve_right
      fun hended => hnotFailed current hmem hsame hended.1

/-- A node is changed, and keeps its plan. If it is current afterwards, it can go on; another node is current only
if it was. -/
theorem Fit.change (h : graph.Fit state) (hordered : graph.Ordered) {before after : List AgentWorkNode}
    {node node' : AgentWorkNode} {state' : TaskState} (hnodes : graph.nodes = before ++ node :: after)
    (hnodes' : graph'.nodes = before ++ node' :: after)
    (hplan : node'.toAgentWorkNodeProposal = node.toAgentWorkNodeProposal)
    (hheader : graph'.goal = graph.goal ∧ graph'.completionCriteria = graph.completionCriteria ∧
      graph'.revision = graph.revision)
    (hstate : state.status = .terminated → state'.status = .terminated)
    (hcurrent : graph'.currentNodeAlias = some node.alias →
      node'.atWork ∨ node'.status = .failed ∧ state'.status = .terminated)
    (hother : ∀ name, graph'.currentNodeAlias = some name → name ≠ node.alias →
      graph.currentNodeAlias = some name) :
    graph'.Fit state' := by
  obtain ⟨hgoal, hcriteria, hrevision⟩ := hheader
  have hproposal : graph'.proposal = graph.proposal := by
    unfold AgentWorkGraph.proposal
    rw [hgoal, hcriteria, hnodes, hnodes', List.map_append, List.map_append, List.map_cons, List.map_cons, hplan]
  have halias : node'.alias = node.alias := congrArg AgentWorkNodeProposal.alias hplan
  have hmem : node ∈ graph.nodes := hnodes ▸ List.mem_append_right _ List.mem_cons_self
  refine ⟨hproposal ▸ h.plan, hrevision ▸ h.revision, ?_⟩
  intro other hother' hname
  rw [hnodes'] at hother'
  have hcases : other = node' ∨ other ∈ graph.nodes := by
    rw [hnodes]
    rcases List.mem_append.mp hother' with hbefore | htail
    · exact .inr (List.mem_append_left _ hbefore)
    · rcases List.mem_cons.mp htail with hsame | hafter
      · exact .inl hsame
      · exact .inr (List.mem_append_right _ (List.mem_cons_of_mem _ hafter))
  by_cases hsame : other = node'
  · rw [hsame, halias] at hname
    rw [hsame]
    exact hcurrent hname
  · have hold : other ∈ graph.nodes := hcases.resolve_left hsame
    have hne : other.alias ≠ node.alias := by
      intro heq
      -- The changed node took the place of the only one with its alias.
      have haliases := hordered.aliases
      rw [hnodes, List.map_append, List.map_cons, List.nodup_append, List.nodup_cons] at haliases
      rcases List.mem_append.mp hother' with hbefore | htail
      · exact haliases.2.2 _ (List.mem_map_of_mem hbefore) _ List.mem_cons_self heq
      · rcases List.mem_cons.mp htail with hsame' | hafter
        · exact hsame hsame'
        · exact haliases.2.1.1 (heq ▸ List.mem_map_of_mem hafter)
    rcases h.current other hold (hother _ hname hne) with hwork | ⟨hfailed, hterminated⟩
    · exact .inl hwork
    · exact .inr ⟨hfailed, hstate hterminated⟩

end AgentWorkGraph

/-! ## The methods -/

/-- The graph of the task is fit, if there is one. -/
def TaskControlBlock.Fit (s : TaskControlBlock) : Prop :=
  ∀ graph, s.workGraph = some graph → graph.Fit s.state

section Methods

variable {α : Type} {P : TaskControlBlock → Prop} {s : TaskControlBlock}

/-- A method that starts by reading the graph. -/
theorem ends_of_graph {f : AgentWorkGraph → TaskM α} (hs : P s)
    (h : ∀ graph, s.workGraph = some graph → Ends (f graph) P s) :
    Ends (do let graph ← requireWorkGraph; f graph) P s := by
  apply wp_bind_of wp_requireWorkGraph
  · rintro graph s' ⟨rfl, hgraph⟩
    exact h graph hgraph
  · rintro _ s' rfl
    exact hs

/-- A method that goes on with a node of the graph. -/
theorem ends_of_node {f : AgentWorkNode → TaskM α} {graph : AgentWorkGraph} {name : String} (hs : P s)
    (h : ∀ node, graph.nodes.find? (fun node => node.alias = name) = some node → Ends (f node) P s) :
    Ends (do let node ← requireWorkGraphNode graph name; f node) P s := by
  apply wp_bind_of (wp_requireWorkGraphNode graph name)
  · rintro node s' ⟨rfl, hnode⟩
    exact h node hnode
  · rintro _ s' rfl
    exact hs

/-- A method that goes on when a node is ready. -/
theorem ends_of_ready {x : TaskM α} {graph : AgentWorkGraph} {node : AgentWorkNode} (hs : P s)
    (h : Ends x P s) : Ends (do assertWorkGraphNodeReady graph node; x) P s := by
  apply wp_bind_of (wp_assertWorkGraphNodeReady graph node)
  · rintro _ s' ⟨rfl, -⟩
    exact h
  · rintro _ s' rfl
    exact hs

/-- To set a graph that fits keeps the fit. -/
theorem fit_setWorkGraph {graph' : AgentWorkGraph} (h : graph'.Fit s.state) :
    Ends (setWorkGraph graph') TaskControlBlock.Fit s := by
  unfold Ends setWorkGraph
  rw [wp_modify]
  intro graph hgraph
  obtain rfl := Option.some.inj hgraph
  exact h

/-- A graph in which no node is current, and whose plan is the one before. -/
theorem AgentWorkGraph.Fit.idle {graph graph' : AgentWorkGraph} {state state' : TaskState}
    (h : graph.Fit state) (hproposal : graph'.proposal = graph.proposal)
    (hrevision : graph'.revision = graph.revision) (hnone : graph'.currentNodeAlias = none) :
    graph'.Fit state' where
  plan := hproposal ▸ h.plan
  revision := hrevision ▸ h.revision
  current node _ hcurrent := by
    rw [hnone] at hcurrent
    cases hcurrent

/-- What is changed in place keeps the plan if the change does. -/
theorem plans_modifyFirst {p : AgentWorkNode → Bool} {change : AgentWorkNode → AgentWorkNode}
    (hplan : ∀ node, (change node).toAgentWorkNodeProposal = node.toAgentWorkNodeProposal)
    (nodes : List AgentWorkNode) :
    (modifyFirst p change nodes).map AgentWorkNode.toAgentWorkNodeProposal =
      nodes.map AgentWorkNode.toAgentWorkNodeProposal := by
  induction nodes with
  | nil => rfl
  | cons node nodes ih =>
    unfold modifyFirst
    split_ifs
    · rw [List.map_cons, List.map_cons, hplan]
    · rw [List.map_cons, List.map_cons, ih]

variable (h : s.Fit) (hordered : s.Ordered)

include h

/-- A new graph fits. -/
theorem fit_replaceWorkGraph (proposal : AgentWorkGraphProposal) (now : Timestamp) :
    Ends (replaceWorkGraph proposal now) TaskControlBlock.Fit s := by
  -- Both branches that make a graph end with the same steps.
  have hcreate : ∀ s' : TaskControlBlock, s'.Fit → Ends (do
      let graph ← createAgentWorkGraph proposal
        ((s.workGraph.map AgentWorkGraph.revision).getD 0 + 1) now
      setWorkGraph graph : TaskM Unit) TaskControlBlock.Fit s' := by
    intro s' hs'
    unfold Ends
    rw [wp_bind, wp_lift]
    refine ⟨fun graph hgraph => fit_setWorkGraph ?_, fun _ _ => hs'⟩
    unfold createAgentWorkGraph at hgraph
    rw [check_bind_eq_ok, validate_iff_wellFormed, pure_eq_ok] at hgraph
    obtain ⟨hvalid, rfl⟩ := hgraph
    refine ⟨?_, Nat.succ_pos _, fun node _ hcurrent => by cases hcurrent⟩
    -- A new graph has the proposal that was checked.
    have hproposal : AgentWorkGraph.proposal
        { revision := (s.workGraph.map AgentWorkGraph.revision).getD 0 + 1, phase := .executing,
          goal := proposal.goal, completionCriteria := proposal.completionCriteria,
          nodes := proposal.nodes.map fun node => { node with status := .pending },
          createdAt := now, updatedAt := now } = proposal := by
      unfold AgentWorkGraph.proposal
      dsimp only
      rw [List.map_map]
      exact congrArg (AgentWorkGraphProposal.mk _ _) (List.map_id _)
    exact (congrArg AgentWorkGraphProposal.WellFormed hproposal).mpr hvalid
  unfold replaceWorkGraph Ends
  rw [wp_bind, wp_get]
  dsimp only
  rw [wp_ite]
  split_ifs with hmode
  · exact h
  · split
    · exact hcreate s h
    · exact hcreate _ h

include hordered in
/-- To activate a node keeps the fit. -/
theorem fit_activateSelfWorkGraphNode (name : String) (now : Timestamp) :
    Ends (activateSelfWorkGraphNode name now) TaskControlBlock.Fit s := by
  apply ends_of_graph h
  intro graph hgraph
  split
  · exact h
  · next hnone =>
    apply ends_of_node h
    intro node hnode
    dsimp only
    unfold Ends
    rw [wp_ite]
    split_ifs with hself
    · exact h
    · apply ends_of_ready h
      obtain ⟨before, after, halias, hsplit, -, hchanged⟩ := exists_modifyFirst
        (f := fun node => { node.started now with status := .ready }) hnode
      rw [decide_eq_true_eq] at halias
      apply fit_setWorkGraph
      refine (h graph hgraph).change (hordered graph hgraph) hsplit hchanged rfl ⟨rfl, rfl, rfl⟩ id ?_ ?_
      · exact fun _ => .inl (List.mem_cons_self)
      · intro current hcurrent hne
        exact absurd ((Option.some.inj hcurrent).symm.trans halias.symm) hne

include hordered in
/-- To delegate a node keeps the fit. -/
theorem fit_bindDelegatedWorkGraphNode (name childTaskId : String) (now : Timestamp) :
    Ends (bindDelegatedWorkGraphNode name childTaskId now) TaskControlBlock.Fit s := by
  apply ends_of_graph h
  intro graph hgraph
  apply ends_of_node h
  intro node hnode
  dsimp only
  unfold Ends
  rw [wp_ite]
  split_ifs with hself
  · exact h
  · apply ends_of_ready h
    obtain ⟨before, after, -, hsplit, -, hchanged⟩ := exists_modifyFirst
      (f := fun node => node.delegated childTaskId now) hnode
    apply fit_setWorkGraph
    refine (h graph hgraph).change (hordered graph hgraph) hsplit hchanged rfl ⟨rfl, rfl, rfl⟩ id ?_ ?_
    · intro hcurrent
      -- The current node is the task's own.
      have howned := ((hordered graph hgraph).resolved_current (List.mem_of_find?_eq_some hnode) hcurrent).1
      exact absurd howned hself
    · exact fun _ hcurrent _ => hcurrent

/-- A method that ends the work at the current node. -/
theorem fit_finish {graph graph' : AgentWorkGraph} {name : String} {change : AgentWorkNode → AgentWorkNode}
    (hgraph : s.workGraph = some graph)
    (hnodes : graph'.nodes = modifyFirst (fun node => node.alias = name) change graph.nodes)
    (hplan : ∀ node, (change node).toAgentWorkNodeProposal = node.toAgentWorkNodeProposal)
    (hheader : graph'.goal = graph.goal ∧ graph'.completionCriteria = graph.completionCriteria ∧
      graph'.revision = graph.revision) (hnone : graph'.currentNodeAlias = none) :
    Ends (setWorkGraph graph') TaskControlBlock.Fit s := by
  obtain ⟨hgoal, hcriteria, hrevision⟩ := hheader
  apply fit_setWorkGraph
  apply (h graph hgraph).idle _ hrevision hnone
  unfold AgentWorkGraph.proposal
  rw [hgoal, hcriteria, hnodes, plans_modifyFirst hplan]

/-- To complete the current node keeps the fit. -/
theorem fit_completeCurrentWorkGraphNode (output : JsonValue) (now : Timestamp) :
    Ends (completeCurrentWorkGraphNode output now) TaskControlBlock.Fit s := by
  apply ends_of_graph h
  intro graph hgraph
  split
  · exact h
  · apply ends_of_node h
    intro node hnode
    exact fit_finish h hgraph rfl (fun _ => rfl) ⟨rfl, rfl, rfl⟩ rfl

/-- To ask for a new plan keeps the fit. -/
theorem fit_requestCurrentWorkGraphReplan (reason : String) (now : Timestamp)
    (partialOutput : Option JsonValue) :
    Ends (requestCurrentWorkGraphReplan reason now partialOutput) TaskControlBlock.Fit s := by
  apply ends_of_graph h
  intro graph hgraph
  split
  · exact h
  · apply ends_of_node h
    intro node hnode
    exact fit_finish h hgraph rfl (fun _ => rfl) ⟨rfl, rfl, rfl⟩ rfl

/-- To enter planning keeps the fit. -/
theorem fit_enterWorkGraphPlan (now : Timestamp) :
    Ends (enterWorkGraphPlan now) TaskControlBlock.Fit s := by
  apply ends_of_graph h
  intro graph hgraph
  dsimp only
  unfold Ends
  rw [wp_ite]
  split_ifs with hcurrent
  · exact h
  · rw [not_not] at hcurrent
    exact fit_setWorkGraph ((h graph hgraph).idle rfl rfl hcurrent)

include hordered in
/-- To complete a delegated node keeps the fit. -/
theorem fit_completeDelegatedWorkGraphNode (childTaskId : String) (termination : Termination)
    (now : Timestamp) :
    Ends (completeDelegatedWorkGraphNode childTaskId termination now) TaskControlBlock.Fit s := by
  unfold Ends completeDelegatedWorkGraphNode
  rw [wp_bind, wp_get]
  split
  · exact h
  · next graph hgraph =>
    split
    · exact h
    · next node hnode =>
      rw [wp_ite]
      split_ifs with hblocked
      · exact h
      · obtain ⟨before, after, hchild, hsplit, -, hchanged⟩ := exists_modifyFirst
          (f := fun node => node.ended termination now) hnode
        rw [decide_eq_true_eq] at hchild
        have hmem := List.mem_of_find?_eq_some hnode
        have hothers : node.assignee ≠ .self :=
          (hordered graph hgraph).children node hmem (by rw [hchild]; rfl)
        apply fit_setWorkGraph
        refine (h graph hgraph).change (hordered graph hgraph) hsplit hchanged
          (node.ended_plan termination now).1 ⟨rfl, rfl, rfl⟩ id ?_ ?_
        · intro hcurrent
          exact absurd ((hordered graph hgraph).resolved_current hmem hcurrent).1 hothers
        · exact fun _ hcurrent _ => hcurrent

include hordered in
/-- To fail a node keeps the fit. -/
theorem fit_failWorkGraphNode (name error : String) (now : Timestamp) :
    Ends (failWorkGraphNode name error now) TaskControlBlock.Fit s := by
  apply ends_of_graph h
  intro graph hgraph
  apply ends_of_node h
  intro node hnode
  unfold Ends
  rw [wp_ite]
  by_cases hdone : node.status = .completed ∨ node.status = .abandoned ∨ node.status = .failed
  · rw [if_pos hdone]
    exact h
  · rw [if_neg hdone]
    obtain ⟨before, after, halias, hsplit, -, hchanged⟩ := exists_modifyFirst
      (f := fun node => node.undispatched error now) hnode
    rw [decide_eq_true_eq] at halias
    -- The node is not current afterwards.
    have hother : ∀ current,
        (if graph.currentNodeAlias = some name then none else graph.currentNodeAlias) =
          some current → graph.currentNodeAlias = some current ∧ current ≠ node.alias := by
      intro current hcurrent
      split_ifs at hcurrent with hsame
      refine ⟨hcurrent, ?_⟩
      rintro rfl
      rw [halias] at hcurrent
      exact hsame hcurrent
    apply fit_setWorkGraph
    refine (h graph hgraph).change (hordered graph hgraph) hsplit hchanged rfl ⟨rfl, rfl, rfl⟩ id ?_ ?_
    · exact fun hcurrent => absurd rfl (hother _ hcurrent).2
    · exact fun _ hcurrent _ => (hother _ hcurrent).1

omit h in
/-- A node that is not resolved fails when the task is terminated. -/
theorem AgentWorkNode.follow_terminated {node : AgentWorkNode} (hopen : node.resolved = false)
    (enteredAt : Timestamp) (termination : Termination) :
    (node.follow (.terminated enteredAt termination)).status = .failed := by
  have hnot : node.status ≠ .completed := by
    intro hcompleted
    rw [AgentWorkNode.resolved, hcompleted] at hopen
    cases hopen
  simp [AgentWorkNode.follow, hnot]

omit h in
/-- The current node follows a task that goes on, or that ends. -/
theorem AgentWorkNode.follow_cases {node : AgentWorkNode} (hopen : node.resolved = false) (state : TaskState) :
    (node.follow state).atWork ∨ (node.follow state).status = .failed ∧ state.status = .terminated := by
  cases state with
  | ready enteredAt => exact .inl (by simp [AgentWorkNode.atWork, AgentWorkNode.follow])
  | running enteredAt => exact .inl (by simp [AgentWorkNode.atWork, AgentWorkNode.follow])
  | blocked enteredAt reason waitingFor => exact .inl (by simp [AgentWorkNode.atWork, AgentWorkNode.follow])
  | terminated enteredAt termination => exact .inr ⟨AgentWorkNode.follow_terminated hopen enteredAt termination, rfl⟩

omit h in
/-- The current node of a graph is found. -/
theorem AgentWorkGraph.Fit.exists_current {graph : AgentWorkGraph} {state : TaskState} {name : String}
    (hfit : graph.Fit state) (hgraph : graph.Ordered) (hname : graph.currentNodeAlias = some name) :
    name ≠ "" ∧ ∃ node, graph.nodes.find? (fun node => node.alias = name) = some node ∧
      node.alias = name ∧ node.resolved = false := by
  obtain ⟨current, hmem, halias, -⟩ := hgraph.current name hname
  constructor
  · -- No node has the empty alias.
    rintro rfl
    have hplan := (hfit.plan.nodes current.toAgentWorkNodeProposal (List.mem_map_of_mem hmem)).name
    rw [halias] at hplan
    exact absurd hplan (by decide)
  · obtain ⟨node, hnode⟩ : ∃ node, graph.nodes.find? (fun node => node.alias = name) = some node := by
      rw [← Option.isSome_iff_exists, List.find?_isSome]
      exact ⟨current, hmem, decide_eq_true halias⟩
    have hsame : node.alias = name := by simpa using List.find?_some hnode
    refine ⟨node, hnode, hsame, ?_⟩
    exact (hgraph.resolved_current (List.mem_of_find?_eq_some hnode)
      (hname.trans (congrArg some hsame.symm))).2

include hordered in
/-- The current node follows the task. -/
theorem transition_current {graph : AgentWorkGraph} {name : String} {next : TaskState}
    (hlegal : next.status ∈ legalTransitions s.state.status) (hgraph : s.workGraph = some graph)
    (hname : graph.currentNodeAlias = some name) :
    transition next s = .ok ()
      { s with
        state := next
        workGraph := some (graph.modifyNode name fun node => node.follow next) } := by
  obtain ⟨hnamed, node, hnode, -⟩ := (h graph hgraph).exists_current (hordered graph hgraph) hname
  obtain ⟨state, context, generations, workGraph⟩ := s
  obtain rfl : workGraph = some graph := hgraph
  apply eq_of_wp
  unfold transition syncCurrentWorkGraphNode requireWorkGraphNode
  rw [wp_bind, wp_get]
  dsimp only
  rw [wp_ite, if_neg (not_not.mpr hlegal), wp_bind, wp_set, wp_bind, wp_get]
  dsimp only
  rw [hname]
  dsimp only
  rw [wp_ite, if_neg hnamed, hnode]
  rfl

include hordered in
/-- A transition keeps the fit. -/
theorem fit_transition (next : TaskState) : Ends (transition next) TaskControlBlock.Fit s := by
  -- An illegal transition throws, and changes nothing.
  by_cases hlegal : next.status ∈ legalTransitions s.state.status
  · have hlive : s.state.status = .terminated → next.status = .terminated := by
      intro hterminated
      rw [hterminated] at hlegal
      exact absurd hlegal (by simp [legalTransitions])
    -- With a current node, its status follows that of the task.
    by_cases hcurrent : ∃ graph, s.workGraph = some graph ∧ graph.currentNodeAlias ≠ none
    · obtain ⟨graph, hgraph, hsome⟩ := hcurrent
      obtain ⟨name, hname⟩ := Option.ne_none_iff_exists'.mp hsome
      have hfit := h graph hgraph
      obtain ⟨-, node, hnode, halias, hopen⟩ := hfit.exists_current (hordered graph hgraph) hname
      obtain ⟨before, after, -, hsplit, -, hchanged⟩ := exists_modifyFirst
        (f := fun node => node.follow next) hnode
      rw [Ends, wp_of_eq (transition_current h hordered hlegal hgraph hname)]
      intro graph' hgraph'
      obtain rfl := Option.some.inj hgraph'
      exact hfit.change (hordered graph hgraph) hsplit hchanged (node.follow_plan next).1 ⟨rfl, rfl, rfl⟩
        hlive (fun _ => AgentWorkNode.follow_cases hopen next) fun _ hcurrent _ => hcurrent
    · -- The graph stays as it is.
      have hidle : ∀ graph, s.workGraph = some graph → graph.Fit next := by
        intro graph hgraph
        have hnone : graph.currentNodeAlias = none := by
          by_contra hsome
          exact hcurrent ⟨graph, hgraph, hsome⟩
        exact (h graph hgraph).idle rfl rfl hnone
      unfold Ends transition syncCurrentWorkGraphNode
      rw [wp_bind, wp_get]
      dsimp only
      rw [wp_ite, if_neg (not_not.mpr hlegal), wp_bind, wp_set, wp_bind, wp_get]
      dsimp only
      split
      · exact hidle
      · next graph hgraph =>
        split
        · exact hidle
        · next name hname => exact absurd ⟨graph, hgraph, by simp [hname]⟩ hcurrent
  · unfold Ends transition
    rw [wp_bind, wp_get]
    dsimp only
    rw [wp_ite, if_pos hlegal]
    exact h

/-- To restore a task keeps the fit. -/
theorem fit_restore : Ends restore TaskControlBlock.Fit s := by
  unfold Ends restore
  rw [wp_bind, wp_get]
  split
  · exact h
  · rw [wp_lift]
    exact ⟨fun _ _ => h, fun _ _ => h⟩

include hordered in
/-- Every call keeps the graph fit. -/
theorem fit_perform (call : TaskCall) : Ends call.perform TaskControlBlock.Fit s := by
  cases call with
  | replaceWorkGraph proposal now => exact fit_replaceWorkGraph h proposal now
  | activateSelfWorkGraphNode name now => exact fit_activateSelfWorkGraphNode h hordered name now
  | bindDelegatedWorkGraphNode name childTaskId now =>
    exact fit_bindDelegatedWorkGraphNode h hordered name childTaskId now
  | completeCurrentWorkGraphNode output now => exact fit_completeCurrentWorkGraphNode h output now
  | requestCurrentWorkGraphReplan reason now partialOutput =>
    exact fit_requestCurrentWorkGraphReplan h reason now partialOutput
  | enterWorkGraphPlan now => exact fit_enterWorkGraphPlan h now
  | completeDelegatedWorkGraphNode childTaskId termination now =>
    exact fit_completeDelegatedWorkGraphNode h hordered childTaskId termination now
  | failWorkGraphNode name error now => exact fit_failWorkGraphNode h hordered name error now
  | transition next => exact fit_transition h hordered next
  | restore => exact fit_restore h
  | work call =>
    have hfit : ∀ s' : TaskControlBlock, s'.workGraph = s.workGraph ∧ s'.state = s.state → s'.Fit := by
      rintro s' ⟨hgraph, hstate⟩
      unfold TaskControlBlock.Fit
      rw [hgraph, hstate]
      exact h
    apply wp_bind_of (rest_perform call)
    · exact fun _ s' hs' => hfit s' hs'
    · exact fun _ s' hs' => hfit s' hs'

include hordered in
/-- A task that is terminated at a node of its own leaves that node failed and current. -/
theorem not_restorable_of_terminated (hlive : s.state.status ≠ .terminated) {graph : AgentWorkGraph}
    (hgraph : s.workGraph = some graph) (hcurrent : graph.currentNodeAlias ≠ none) (enteredAt : Timestamp)
    (termination : Termination) :
    ∃ graph', (finalState (transition (.terminated enteredAt termination) s)).workGraph = some graph' ∧
      ¬ graph'.Restorable := by
  obtain ⟨name, hname⟩ := Option.ne_none_iff_exists'.mp hcurrent
  have hlegal : (TaskState.terminated enteredAt termination).status ∈ legalTransitions s.state.status := by
    cases hstatus : s.state.status with
    | ready => simp [legalTransitions, TaskState.status]
    | running => simp [legalTransitions, TaskState.status]
    | blocked => simp [legalTransitions, TaskState.status]
    | terminated => exact absurd hstatus hlive
  obtain ⟨-, node, hnode, halias, hopen⟩ := (h graph hgraph).exists_current (hordered graph hgraph) hname
  obtain ⟨before, after, -, -, -, hchanged⟩ := exists_modifyFirst
    (f := fun node => node.follow (.terminated enteredAt termination)) hnode
  rw [transition_current h hordered hlegal hgraph hname]
  refine ⟨_, rfl, fun hrestorable => ?_⟩
  -- The node that was current is the one that has failed.
  have hfailed := AgentWorkNode.follow_terminated hopen enteredAt termination
  have hmem : node.follow (.terminated enteredAt termination) ∈
      (graph.modifyNode name fun node => node.follow (.terminated enteredAt termination)).nodes := by
    show _ ∈ modifyFirst _ _ graph.nodes
    rw [hchanged]
    exact List.mem_append_right _ List.mem_cons_self
  have hsame : (node.follow (.terminated enteredAt termination)).alias = name :=
    (congrArg AgentWorkNodeProposal.alias (node.follow_plan _).1).trans halias
  exact (hrestorable name hname).2 _ hmem hsame hfailed

end Methods

/-- The graph of a task is fit along every run. -/
theorem fit_of_reachable {s : TaskControlBlock} (h : taskSystem.Reachable s) : s.Fit := by
  apply h.invariant
  · rintro s ⟨-, hnone⟩ graph hgraph
    rw [hnone] at hgraph
    cases hgraph
  · intro s s' hreachable hfit hstep
    rcases hstep with ⟨call, rfl⟩ | ⟨context, rfl⟩
    · exact wp_finalState (fit_perform hfit (ordered_of_reachable hreachable) call)
    · exact hfit

end OsAgent.Kernel
