import OsAgent.Kernel.GraphOrder
import OsAgent.Kernel.WorkTable

/-!
# Runs of a task

A run is a sequence of calls of the methods of a task. Those on the work graph, the transitions, and the
restarts may change the graph (`GraphOutcome`); those on the table of asynchronous work, and those on
the rest of the task, leave it alone. `TaskControlBlock.Planned` says what the graph is for: the plan is
followed in its order, and what is done stays done until the plan is replaced.
-/

namespace OsAgent.Kernel

open OsAgent.Library OsAgent.Capability

/-- The methods of a task that are modelled. -/
inductive TaskCall where
  | replaceWorkGraph (proposal : AgentWorkGraphProposal) (now : Timestamp)
  | activateSelfWorkGraphNode (name : String) (now : Timestamp)
  | bindDelegatedWorkGraphNode (name childTaskId : String) (now : Timestamp)
  | completeCurrentWorkGraphNode (output : JsonValue) (now : Timestamp)
  | requestCurrentWorkGraphReplan (reason : String) (now : Timestamp)
      (partialOutput : Option JsonValue)
  | enterWorkGraphPlan (now : Timestamp)
  | completeDelegatedWorkGraphNode (childTaskId : String) (termination : Termination)
      (now : Timestamp)
  | failWorkGraphNode (name error : String) (now : Timestamp)
  | transition (next : TaskState)
  | restore
  | work (call : WorkCall)

/-- What a call does. -/
def TaskCall.perform : TaskCall → TaskM Unit
  | .replaceWorkGraph proposal now => Kernel.replaceWorkGraph proposal now
  | .activateSelfWorkGraphNode name now => Kernel.activateSelfWorkGraphNode name now
  | .bindDelegatedWorkGraphNode name childTaskId now =>
    Kernel.bindDelegatedWorkGraphNode name childTaskId now
  | .completeCurrentWorkGraphNode output now => Kernel.completeCurrentWorkGraphNode output now
  | .requestCurrentWorkGraphReplan reason now partialOutput =>
    Kernel.requestCurrentWorkGraphReplan reason now partialOutput
  | .enterWorkGraphPlan now => Kernel.enterWorkGraphPlan now
  | .completeDelegatedWorkGraphNode childTaskId termination now =>
    Kernel.completeDelegatedWorkGraphNode childTaskId termination now
  | .failWorkGraphNode name error now => Kernel.failWorkGraphNode name error now
  | .transition next => Kernel.transition next
  | .restore => Kernel.restore
  | .work call => do
    let _ ← call.perform

/-- The runs of a new task. The methods on the rest of the task may do anything to its context. -/
def taskSystem : TransitionSystem TaskControlBlock where
  init s := s.asyncWorkGenerations = [] ∧ s.workGraph = none
  step s s' := (∃ call : TaskCall, s' = finalState (call.perform s)) ∨
    ∃ context, s' = { s with context }

/-- What the graph of a task is for. -/
structure TaskControlBlock.Planned (s : TaskControlBlock) : Prop where
  /-- The current node, and what runs, waits, or is done, had nothing to wait for. -/
  dependencies : ∀ graph, s.workGraph = some graph → ∀ node ∈ graph.nodes,
    (graph.currentNodeAlias = some node.alias ∨
      node.status ∈ [AgentWorkNodeStatus.running, .blocked, .completed]) →
    ∀ dependency ∈ node.dependsOn, ∃ other ∈ graph.nodes, other.alias = dependency ∧
      other.status ∈ [AgentWorkNodeStatus.completed, .abandoned]
  /-- A node that is completed stays as it is while the revision does. -/
  lasting : ∀ s', taskSystem.Later s s' → ∀ graph, s.workGraph = some graph →
    ∃ graph', s'.workGraph = some graph' ∧ graph.revision ≤ graph'.revision ∧
      (graph'.revision = graph.revision →
        ∀ node ∈ graph.nodes, node.status = .completed → node ∈ graph'.nodes)
  /-- The current alias names one node, which is the task's own. -/
  current : ∀ graph, s.workGraph = some graph → ∀ name, graph.currentNodeAlias = some name →
    ∃ node, graph.nodes.filter (fun node => node.alias = name) = [node] ∧ node.assignee = .self
  /-- No other node of the task's own is ready to be worked at, runs, or waits. -/
  single : ∀ graph, s.workGraph = some graph → ∀ node ∈ graph.nodes, node.assignee = .self →
    node.status ∈ [AgentWorkNodeStatus.ready, .running, .blocked] →
    graph.currentNodeAlias = some node.alias
  /-- A graph that is replaced gets a greater revision. -/
  replaced : ∀ proposal now s', replaceWorkGraph proposal now s = .ok () s' →
    ∃ graph', s'.workGraph = some graph' ∧
      ∀ graph, s.workGraph = some graph → graph.revision < graph'.revision

/-! ## The invariant of the runs -/

variable {s s' : TaskControlBlock}

/-- The methods on asynchronous work leave the graph and the state of the task alone. -/
theorem rest_perform (call : WorkCall) :
    Ends call.perform (fun s' => s'.workGraph = s.workGraph ∧ s'.state = s.state) s := by
  have hself : s.workGraph = s.workGraph ∧ s.state = s.state := ⟨rfl, rfl⟩
  -- The methods that complete work, and those that change its blocker, write the generations only.
  have hcomplete : ∀ workId status now output termination error,
      Ends (completeAsyncWork workId status now output termination error)
        (fun s' => s'.workGraph = s.workGraph ∧ s'.state = s.state) s := by
    intro workId status now output termination error
    unfold Ends completeAsyncWork
    rw [wp_bind, wp_get]
    split
    · exact hself
    · split
      · exact hself
      · rw [wp_ite]
        split_ifs <;> exact hself
  have hmodify : ∀ childTaskId allowed missing change,
      Ends (modifySubagentWork childTaskId allowed missing change)
        (fun s' => s'.workGraph = s.workGraph ∧ s'.state = s.state) s := by
    intro childTaskId allowed missing change
    unfold Ends modifySubagentWork
    rw [wp_bind, wp_get]
    split
    · exact hself
    · split
      · exact hself
      · rw [wp_bind, wp_lift]
        exact ⟨fun _ _ => hself, fun _ _ => hself⟩
  -- One case per method.
  unfold WorkCall.perform
  cases call with
  | registerAsyncWork registrations generationId now =>
    unfold Ends
    rw [wp_bind]
    unfold registerAsyncWork
    simp only [wp_bind, wp_get, wp_ite, wp_throw, wp_pure, and_self]
    split_ifs
    split
    · trivial
    · rw [wp_set]
      show (s.withOpenGeneration generationId now).workGraph = s.workGraph ∧
        (s.withOpenGeneration generationId now).state = s.state
      unfold TaskControlBlock.withOpenGeneration
      split <;> exact hself
  | completeToolWork workId output now =>
    exact wp_bind_of (hcomplete workId _ now _ _ _) (fun _ _ h => h) fun _ _ h => h
  | failToolWork workId error now =>
    exact wp_bind_of (hcomplete workId _ now _ _ _) (fun _ _ h => h) fun _ _ h => h
  | completeSubagentWork workId termination now =>
    exact wp_bind_of (hcomplete workId _ now _ _ _) (fun _ _ h => h) fun _ _ h => h
  | markSubagentWaitingForCapability childTaskId requestRef requests now =>
    exact wp_bind_of (hmodify childTaskId _ _ _) (fun _ _ h => h) fun _ _ h => h
  | clearSubagentCapabilityBlocker childTaskId requestRef =>
    exact wp_bind_of (hmodify childTaskId _ _ _) (fun _ _ h => h) fun _ _ h => h
  | requeueActiveCapabilityBlockers =>
    unfold Ends
    rw [wp_bind]
    unfold requeueActiveCapabilityBlockers
    rw [wp_bind, wp_get]
    split <;> exact hself
  | claimAsyncWorkUpdate now =>
    unfold Ends claimAsyncWorkUpdate
    rw [wp_bind, wp_get]
    split
    · exact hself
    · rw [wp_ite]
      split_ifs <;> exact hself

/-- Every call leaves a graph that is an outcome. -/
theorem keepsOrder_perform (h : s.Ordered) (call : TaskCall) : KeepsOrder call.perform s := by
  cases call with
  | replaceWorkGraph proposal now => exact keepsOrder_replaceWorkGraph proposal now
  | activateSelfWorkGraphNode name now => exact keepsOrder_activateSelfWorkGraphNode h name now
  | bindDelegatedWorkGraphNode name childTaskId now =>
    exact keepsOrder_bindDelegatedWorkGraphNode h name childTaskId now
  | completeCurrentWorkGraphNode output now =>
    exact keepsOrder_completeCurrentWorkGraphNode h output now
  | requestCurrentWorkGraphReplan reason now partialOutput =>
    exact keepsOrder_requestCurrentWorkGraphReplan h reason now partialOutput
  | enterWorkGraphPlan now => exact keepsOrder_enterWorkGraphPlan h now
  | completeDelegatedWorkGraphNode childTaskId termination now =>
    exact keepsOrder_completeDelegatedWorkGraphNode h childTaskId termination now
  | failWorkGraphNode name error now => exact keepsOrder_failWorkGraphNode h name error now
  | transition next => exact keepsOrder_transition h next
  | restore => exact keepsOrder_restore
  | work call =>
    apply wp_bind_of (rest_perform call)
    · rintro _ s' ⟨hsame, -⟩
      rw [wp_pure, hsame]
      exact GraphOutcome.same _
    · exact fun _ _ hsame => hsame.1

/-- Every step leaves a graph that is an outcome. -/
theorem outcome_of_step (h : s.Ordered) (hstep : taskSystem.step s s') :
    GraphOutcome s.workGraph s'.workGraph := by
  rcases hstep with ⟨call, rfl⟩ | ⟨context, rfl⟩
  · have hends : Ends call.perform (fun s' => GraphOutcome s.workGraph s'.workGraph) s := by
      apply wp_mono (keepsOrder_perform h call) (fun _ _ houtcome => houtcome)
      intro _ s' hsame
      rw [hsame]
      exact GraphOutcome.same _
    exact wp_finalState hends
  · exact GraphOutcome.same _

/-- An outcome of an ordered graph is ordered. -/
theorem GraphOutcome.ordered {before after : Option AgentWorkGraph}
    (h : ∀ graph, before = some graph → graph.Ordered) (houtcome : GraphOutcome before after) :
    ∀ graph, after = some graph → graph.Ordered := by
  cases houtcome with
  | same => exact h
  | advanced hadvanced =>
    intro graph hgraph
    obtain rfl := Option.some.inj hgraph
    exact hadvanced.ordered
  | replaced hrevision hordered =>
    intro graph hgraph
    obtain rfl := Option.some.inj hgraph
    exact hordered

/-- The graph is ordered along every run. -/
theorem ordered_of_reachable (h : taskSystem.Reachable s) : s.Ordered := by
  apply h.invariant
  · rintro s ⟨-, hnone⟩ graph hgraph
    rw [hnone] at hgraph
    cases hgraph
  · intro s s' _ hordered hstep
    exact GraphOutcome.ordered hordered (outcome_of_step hordered hstep)

/-! ## What the graph is for -/

/-- What a later graph keeps of a graph: all that is resolved, if it has the same revision. -/
structure AgentWorkGraph.Kept (graph graph' : AgentWorkGraph) : Prop where
  revision : graph.revision ≤ graph'.revision
  resolved : graph'.revision = graph.revision →
    ∀ node ∈ graph.nodes, node.resolved = true → node ∈ graph'.nodes

/-- An outcome keeps what has been kept so far. -/
theorem AgentWorkGraph.Kept.outcome {graph graph' : AgentWorkGraph} {next : Option AgentWorkGraph}
    (h : graph.Kept graph') (houtcome : GraphOutcome (some graph') next) :
    ∃ graph'', next = some graph'' ∧ graph.Kept graph'' := by
  cases houtcome with
  | same => exact ⟨graph', rfl, h⟩
  | @advanced _ graph'' hadvanced =>
    refine ⟨graph'', rfl, ?_, ?_⟩
    · rw [hadvanced.revision]
      exact h.revision
    · intro hsame node hnode hresolved
      rw [hadvanced.revision] at hsame
      exact hadvanced.resolved node (h.resolved hsame node hnode hresolved) hresolved
  | @replaced _ graph'' hrevision hordered =>
    have hnext : graph''.revision = graph'.revision + 1 := hrevision
    have hbefore := h.revision
    refine ⟨graph'', rfl, by omega, ?_⟩
    intro hsame
    omega

/-- So does a whole run. -/
theorem kept_of_later (hr : taskSystem.Reachable s) (h : taskSystem.Later s s')
    {graph : AgentWorkGraph} (hgraph : s.workGraph = some graph) :
    ∃ graph', s'.workGraph = some graph' ∧ graph.Kept graph' := by
  apply h.invariant hr (P := fun s' => ∃ graph', s'.workGraph = some graph' ∧ graph.Kept graph')
  · exact ⟨graph, hgraph, le_rfl, fun _ _ hnode _ => hnode⟩
  · rintro t t' ht ⟨graph', hgraph', hkept⟩ hstep
    have houtcome := outcome_of_step (ordered_of_reachable ht) hstep
    rw [hgraph'] at houtcome
    exact hkept.outcome houtcome

/-- In every run, the graph is what it is for. -/
theorem planned_of_reachable (h : taskSystem.Reachable s) : s.Planned := by
  have hordered := ordered_of_reachable h
  constructor
  · intro graph hgraph node hnode hstarted dependency hdependency
    -- The dependencies of a node that was started are resolved.
    have hsubset : node.dependsOn ⊆ resolvedAliases graph.nodes := by
      apply (hordered graph hgraph).dependencies node hnode
      rcases hstarted with hcurrent | hstatus
      · exact Or.inr hcurrent
      · left
        unfold AgentWorkNode.engaged
        simpa [or_assoc] using hstatus
    obtain ⟨other, hother, hresolved, hname⟩ :=
      AgentWorkGraph.mem_resolvedAliases.mp (hsubset hdependency)
    refine ⟨other, hother, hname, ?_⟩
    unfold AgentWorkNode.resolved at hresolved
    simpa using hresolved
  · -- The graph of a later state is kept from this one.
    intro s' hlater graph hgraph
    obtain ⟨graph', hgraph', hkept⟩ := kept_of_later h hlater hgraph
    refine ⟨graph', hgraph', hkept.revision, ?_⟩
    intro hsame node hnode hcompleted
    apply hkept.resolved hsame node hnode
    unfold AgentWorkNode.resolved
    rw [hcompleted]
    rfl
  · -- The current alias is that of a node, and of one only.
    intro graph hgraph name hname
    obtain ⟨node, hnode, rfl, hself, -⟩ := (hordered graph hgraph).current name hname
    refine ⟨node, ?_, hself⟩
    have hkey := filter_key_mem (fun node : AgentWorkNode => node.alias)
      (hordered graph hgraph).aliases (List.singleton_sublist.mpr hnode)
    simpa using hkey
  · intro graph hgraph node hnode hself hstatus
    apply (hordered graph hgraph).active node hnode
    unfold AgentWorkNode.active
    simpa [hself, or_assoc] using hstatus
  · -- Replacing the graph counts its revision up.
    intro proposal now s' hreplace
    obtain ⟨graph', hgraph', hrevision, -⟩ := wp_ok (wp_replaceWorkGraph proposal now) hreplace
    refine ⟨graph', hgraph', ?_⟩
    intro graph hgraph
    rw [hgraph] at hrevision
    have hnext : graph'.revision = graph.revision + 1 := hrevision
    omega

/-! ## A run -/

/-- A plan of two steps: the task looks for something, and then changes it. -/
def searchPlan : AgentWorkGraphProposal where
  goal := "repair"
  completionCriteria := ["repaired"]
  nodes := [⟨"search", .inspect, "search", [], .self, ["found"]⟩,
    ⟨"repair", .implement, "repair", ["search"], .self, ["repaired"]⟩]

/-- The plan is made, the first step is done, and the second has started. -/
def plannedTask : TaskControlBlock :=
  [TaskCall.replaceWorkGraph searchPlan 1, .activateSelfWorkGraphNode "search" 2,
    .transition (.running 3), .completeCurrentWorkGraphNode (.string "line 7") 4,
    .transition (.ready 5), .activateSelfWorkGraphNode "repair" 6, .transition (.running 7)].foldl
      (fun s call => finalState (call.perform s)) { state := .ready 0 }

/-- The planned task is reachable. -/
theorem reachable_plannedTask : taskSystem.Reachable plannedTask := by
  have hstart : taskSystem.Reachable { state := .ready 0 } := .of_init ⟨rfl, rfl⟩
  unfold plannedTask
  iterate 7 rw [List.foldl_cons]
  rw [List.foldl_nil]
  iterate 7 refine TransitionSystem.Reachable.step ?_ (Or.inl ⟨_, rfl⟩)
  exact hstart

/-- The first step of the plan is completed, and the second is current and runs. -/
theorem planned_plannedTask :
    plannedTask.Planned ∧
      plannedTask.workGraph.map AgentWorkGraph.currentNodeAlias = some (some "repair") ∧
      plannedTask.workGraph.map (fun graph => graph.nodes.map AgentWorkNode.status) =
        some [.completed, .running] :=
  ⟨planned_of_reachable reachable_plannedTask, by decide +kernel, by decide +kernel⟩

end OsAgent.Kernel
