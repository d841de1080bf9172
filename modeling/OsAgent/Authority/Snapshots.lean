import OsAgent.Authority.Tasks
import OsAgent.Kernel.Restoring

/-!
# Tasks from their snapshots

A control block is written down as a snapshot and made again from it, by a constructor that checks where the task
stands, whose grants it holds, and its work graph (`kernel/task-control-block.ts`). Every task that the methods
lead to passes these checks, but one: a task that is terminated while it is at a node of its own leaves that node
failed and current, and cannot be made again.
-/

namespace OsAgent.Authority

open OsAgent.Library OsAgent.Capability OsAgent.Kernel

/-- What the constructor reads and checks of a snapshot. The grants of an old snapshot are only names. -/
structure TaskSnapshot extends Scheduler.Lineage where
  id : String
  characterId : Option String
  capabilityGrants : Option (List CapabilityGrant)
  capabilities : Option (List CapabilityInput)
  capabilityRequests : Option (List CapabilityRequestRecord)
  context : List ContextItem
  asyncWorkGenerations : Option (List AsyncWorkGeneration)
  workGraph : Option AgentWorkGraph
  state : TaskState
  createdAt : Timestamp

/-- `snapshot`. -/
def SchedulerTask.snapshot (task : SchedulerTask) (createdAt : Timestamp) : TaskSnapshot where
  toLineage := task.toLineage
  id := task.id
  characterId := task.characterId
  capabilityGrants := some task.capabilityGrants
  capabilities := none
  capabilityRequests := some task.capabilityRequests
  context := task.block.context
  asyncWorkGenerations := some task.block.asyncWorkGenerations
  workGraph := task.block.workGraph
  state := task.block.state
  createdAt

/-- The grants of an old snapshot, by a manager with the default policies. -/
def restoreLegacyCapabilityGrants (manager : CapabilityManager) (snapshot : TaskSnapshot) :
    Except CapabilityError (List CapabilityGrant) := do
  let (grants, _) ← (manager.issueRootGrants snapshot.id (snapshot.capabilities.getD [])
    snapshot.createdAt).run 0
  pure (grants.mapIdx fun index grant =>
    { grant with grantId := "legacy:" ++ snapshot.id ++ ":" ++ toString index })

/-- The grants of a snapshot, of which an old one has names alone. -/
def restoreGrants (manager : CapabilityManager) (snapshot : TaskSnapshot) :
    Except CapabilityError (List CapabilityGrant) :=
  match snapshot.capabilityGrants with
  | some grants => .ok grants
  | none => restoreLegacyCapabilityGrants manager snapshot

/-- A graph that was saved is checked again. -/
def checkWorkGraph : Option AgentWorkGraph → Except CapabilityError Unit
  | none => .ok ()
  | some graph => (validateAgentWorkGraph graph).mapError .error

/-- The fields, when the grants are there. -/
def TaskSnapshot.withGrants (snapshot : TaskSnapshot) (grants : List CapabilityGrant) :
    Except CapabilityError SchedulerTask :=
  if hsubject : ∀ grant ∈ grants, grant.subjectTaskId = snapshot.id then
    if hnodup : (grants.map CapabilityGrant.grantId).Nodup then do
      checkWorkGraph snapshot.workGraph
      pure
        { toLineage := snapshot.toLineage
          id := snapshot.id
          characterId := snapshot.characterId
          capabilityGrants := grants
          issued := ⟨hsubject, hnodup⟩
          capabilityRequests := snapshot.capabilityRequests.getD []
          block := {
            state := snapshot.state
            context := snapshot.context
            asyncWorkGenerations := snapshot.asyncWorkGenerations.getD []
            workGraph := snapshot.workGraph } }
    else .error (.error "Capability grant IDs must be unique within a task.")
  else .error (.error "Capability grant subject does not match its task.")

/-- `restore`, and the constructor. -/
def restore (manager : CapabilityManager) (snapshot : TaskSnapshot) :
    Except CapabilityError SchedulerTask := do
  require (1 ≤ snapshot.depth ∧ snapshot.depth ≤ Scheduler.maxAgentDepth)
    (.error ("Task depth must be an integer between 1 and " ++ toString Scheduler.maxAgentDepth ++ "."))
  require (¬(snapshot.depth = 1 ∧ snapshot.parentTaskId ≠ none ∨
      1 < snapshot.depth ∧ snapshot.parentTaskId = none))
    (.error "Task depth does not match its parent relationship.")
  let grants ← restoreGrants manager snapshot
  snapshot.withGrants grants

/-- The tasks that the methods of the control block lead to. -/
inductive Arises : SchedulerTask → Prop
  | created {id : String} {characterId : Option String} {parent : Option SchedulerTask}
      {createdAt : Timestamp} {grants : List CapabilityGrant} {task : SchedulerTask}
      (hparent : ∀ above ∈ parent, Arises above)
      (h : SchedulerTask.createAgent id characterId parent createdAt grants = .ok task) : Arises task
  | called {task : SchedulerTask} (h : Arises task) (call : TaskCall) :
      Arises (task.withBlock (finalState (call.perform task.block)))
  | appended {task : SchedulerTask} (h : Arises task) (context : List ContextItem) :
      Arises (task.withBlock { task.block with context })
  | granted {task : SchedulerTask} (h : Arises task) (grants : List CapabilityGrant) :
      Arises (task.withGrants grants)
  | authorized {task : SchedulerTask} (h : Arises task) (m : CapabilityManager) (call : ToolCallRequest)
      (validation : Except String Unit) (required : List CapabilityRequest) (now : Timestamp) :
      Arises (task.authorizeTool m call validation required now).2
  | registered {task task' : SchedulerTask} (h : Arises task) {record : CapabilityRequestRecord}
      (hregistered : task.registerCapabilityRequest record = .ok task') : Arises task'
  | advanced {task task' : SchedulerTask} (h : Arises task) {requestId : String}
      {next : Option CapabilityDelegationHop}
      (hadvanced : task.advanceCapabilityDelegation requestId = .ok (task', next)) : Arises task'
  | resolved {task : SchedulerTask} (h : Arises task) (requestId : String)
      (status : CapabilityRequestStatus) (grants : List CapabilityGrant) (reason : Option String)
      (resolvedAt : Timestamp) :
      Arises (task.resolveCapabilityRequest requestId status grants reason resolvedAt).2
  | denied {task : SchedulerTask} (h : Arises task) (reason : String) (resolvedAt : Timestamp) :
      Arises (task.denyPendingCapabilityRequests reason resolvedAt)

/-- Where a task stands, and that its block is one of a run. -/
structure SchedulerTask.Placed (task : SchedulerTask) : Prop where
  depth : 1 ≤ task.depth ∧ task.depth ≤ Scheduler.maxAgentDepth
  parent : task.depth = 1 ↔ task.parentTaskId = none
  block : taskSystem.Reachable task.block

section Placed

variable {task task' : SchedulerTask}

/-- What the methods on grants and requests leave alone. -/
theorem SchedulerTask.Placed.of_same (h : task.Placed) (hlineage : task'.toLineage = task.toLineage)
    (hblock : task'.block = task.block) : task'.Placed := by
  obtain ⟨hdepth, hparent, hreachable⟩ := h
  constructor
  · rw [hlineage]
    exact hdepth
  · rw [hlineage]
    exact hparent
  · rw [hblock]
    exact hreachable

/-- To resolve a request leaves a task in its place. -/
theorem placed_resolve (h : task.Placed) (requestId : String) (status : CapabilityRequestStatus)
    (grants : List CapabilityGrant) (reason : Option String) (resolvedAt : Timestamp) :
    (task.resolveCapabilityRequest requestId status grants reason resolvedAt).2.Placed := by
  unfold SchedulerTask.resolveCapabilityRequest
  split
  · exact h
  · split_ifs
    · exact h
    · split
      · next heq =>
        rw [SchedulerTask.addCapabilityGrants, Prod.mk.injEq] at heq
        exact h.of_same (by rw [← heq.2]; rfl) (by rw [← heq.2]; rfl)
      · next heq =>
        rw [SchedulerTask.addCapabilityGrants, Prod.mk.injEq] at heq
        exact h.of_same (by rw [← heq.2]; rfl) (by rw [← heq.2]; rfl)
    · exact h
    · exact h.of_same rfl rfl

/-- Every task is in its place. -/
theorem placed_of_arises (h : Arises task) : task.Placed := by
  -- Along how the task came about.
  induction h with
  | @created id characterId parent createdAt grants task hparent h ih =>
    unfold SchedulerTask.createAgent at h
    rw [check_bind_eq_ok, require_eq_ok] at h
    obtain ⟨hdepth, h⟩ := h
    split_ifs at h
    cases h
    refine ⟨⟨?_, hdepth⟩, ?_, ⟨_, ⟨rfl, rfl⟩, .refl⟩⟩
    · -- A task without a parent is at the root's depth; another is one below its parent.
      cases parent with
      | none => exact le_rfl
      | some above => exact Nat.succ_pos _
    · cases parent with
      | none => exact ⟨fun _ => rfl, fun _ => rfl⟩
      | some above =>
        have habove := (ih above rfl).depth.1
        constructor
        · intro heq
          have heq' : above.depth + 1 = 1 := heq
          omega
        · exact fun hnone => (by cases hnone)
  | @called task h call ih => exact ⟨ih.depth, ih.parent, ih.block.step (.inl ⟨call, rfl⟩)⟩
  | @appended task h context ih => exact ⟨ih.depth, ih.parent, ih.block.step (.inr ⟨context, rfl⟩)⟩
  | granted h grants ih => exact ih.of_same rfl rfl
  -- What changes grants or requests only leaves the place.
  | authorized h m call validation required now ih => exact ih.of_same rfl rfl
  | registered h hregistered ih =>
    unfold SchedulerTask.registerCapabilityRequest at hregistered
    split_ifs at hregistered
    cases hregistered
    exact ih.of_same rfl rfl
  | advanced h hadvanced ih =>
    unfold SchedulerTask.advanceCapabilityDelegation at hadvanced
    split at hadvanced
    · cases hadvanced
    · obtain ⟨⟨record, next⟩, -, hadvanced⟩ := bind_eq_ok.mp hadvanced
      cases hadvanced
      exact ih.of_same rfl rfl
  | resolved h requestId status grants reason resolvedAt ih =>
    exact placed_resolve ih requestId status grants reason resolvedAt
  | denied h reason resolvedAt ih => exact ih.of_same rfl rfl

end Placed

/-! ## Restoring -/

section Restoring

variable {manager : CapabilityManager} {task : SchedulerTask}

/-- A graph passes the check if it is valid, or there is none. -/
theorem checkWorkGraph_eq_ok {graph : Option AgentWorkGraph} :
    checkWorkGraph graph = .ok () ↔ ∀ g, graph = some g → validateAgentWorkGraph g = .ok () := by
  cases graph with
  | none => exact ⟨fun _ _ hsome => (by cases hsome), fun _ => rfl⟩
  | some g =>
    show (validateAgentWorkGraph g).mapError CapabilityError.error = .ok () ↔ _
    constructor
    · rintro h g' hsome
      obtain rfl := Option.some.inj hsome
      cases hvalidated : validateAgentWorkGraph g with
      | ok u => rfl
      | error e =>
        rw [hvalidated] at h
        cases h
    · intro h
      rw [h g rfl]
      rfl

/-- The snapshot of a task that is in its place is restored as far as its graph is valid. -/
theorem restore_eq (h : task.Placed) (createdAt : Timestamp) :
    restore manager (task.snapshot createdAt) = (checkWorkGraph task.block.workGraph).map fun _ => task := by
  have hdepth : 1 ≤ (task.snapshot createdAt).depth ∧
      (task.snapshot createdAt).depth ≤ Scheduler.maxAgentDepth := h.depth
  have hparent : ¬((task.snapshot createdAt).depth = 1 ∧ (task.snapshot createdAt).parentTaskId ≠ none ∨
      1 < (task.snapshot createdAt).depth ∧ (task.snapshot createdAt).parentTaskId = none) := by
    rintro (⟨hone, hsome⟩ | ⟨hbelow, hnone⟩)
    · exact hsome (h.parent.mp hone)
    · have hone : (task.snapshot createdAt).depth = 1 := h.parent.mpr hnone
      omega
  have hissued : Issued (task.snapshot createdAt).id task.capabilityGrants := task.issued
  unfold restore
  rw [require_eq_ok (u := ()) |>.mpr hdepth, require_eq_ok (u := ()) |>.mpr hparent]
  show (task.snapshot createdAt).withGrants task.capabilityGrants = _
  unfold TaskSnapshot.withGrants
  rw [dif_pos hissued.subject, dif_pos hissued.nodup]
  show (checkWorkGraph task.block.workGraph >>= fun _ => .ok task) = _
  cases checkWorkGraph task.block.workGraph with
  | ok u => rfl
  | error e => rfl

/-- A snapshot is restored exactly if its graph can be. -/
theorem restore_eq_ok (h : Arises task) (createdAt : Timestamp) :
    restore manager (task.snapshot createdAt) = .ok task ↔
      ∀ graph, task.block.workGraph = some graph → graph.Restorable := by
  have hplaced := placed_of_arises h
  have hchecked : restore manager (task.snapshot createdAt) = .ok task ↔
      checkWorkGraph task.block.workGraph = .ok () := by
    rw [restore_eq hplaced]
    cases checkWorkGraph task.block.workGraph with
    | ok u => exact ⟨fun _ => rfl, fun _ => rfl⟩
    | error e => exact ⟨fun heq => (by cases heq), fun heq => (by cases heq)⟩
  rw [hchecked, checkWorkGraph_eq_ok]
  constructor
  · intro hvalid graph hgraph
    have hfit := fit_of_reachable hplaced.block graph hgraph
    exact (hfit.validate (ordered_of_reachable hplaced.block graph hgraph)).mp (hvalid graph hgraph)
  · intro hrestorable graph hgraph
    have hfit := fit_of_reachable hplaced.block graph hgraph
    exact (hfit.validate (ordered_of_reachable hplaced.block graph hgraph)).mpr (hrestorable graph hgraph)

/-- Which tasks are restored from their snapshots. While a task goes on, the snapshot is restored, unless a node
was activated while the graph is planned again; when the task is terminated at a node, it is not any more. -/
theorem restored_from_snapshot (manager : CapabilityManager) (createdAt : Timestamp) (h : Arises task) :
    (restore manager (task.snapshot createdAt) = .ok task ↔
      ∀ graph, task.block.workGraph = some graph → graph.Restorable) ∧
    (task.block.state.status ≠ .terminated → ∀ graph, task.block.workGraph = some graph →
      ((graph.currentNodeAlias ≠ none → graph.phase = .executing) → graph.Restorable) ∧
      (graph.currentNodeAlias ≠ none → ∀ enteredAt termination restored,
        restore manager ((task.withBlock (finalState
          (transition (.terminated enteredAt termination) task.block))).snapshot createdAt) ≠
            .ok restored)) := by
  refine ⟨restore_eq_ok h createdAt, ?_⟩
  intro hlive graph hgraph
  have hplaced := placed_of_arises h
  have hfit := fit_of_reachable hplaced.block
  have hordered := ordered_of_reachable hplaced.block
  -- While the task goes on, its graph passes the check, and then it is restored as it is.
  constructor
  · intro hphase name hname
    refine ⟨hphase (by simp [hname]), fun node hnode halias hfailed => ?_⟩
    rcases (hfit graph hgraph).current node hnode (hname.trans (congrArg some halias.symm)) with hwork | hended
    · rw [AgentWorkNode.atWork, hfailed] at hwork
      exact absurd hwork (by decide)
    · exact hlive hended.2
  · -- Once it is terminated, the node it was at has failed, and the check refuses it.
    intro hcurrent enteredAt termination restored hrestored
    have hended : Arises (task.withBlock (finalState (transition (.terminated enteredAt termination) task.block))) :=
      h.called (.transition (.terminated enteredAt termination))
    obtain ⟨graph', hgraph', hnot⟩ :=
      not_restorable_of_terminated hfit hordered hlive hgraph hcurrent enteredAt termination
    rw [restore_eq (placed_of_arises hended)] at hrestored
    have hchecked := (map_eq_ok.mp hrestored).choose_spec.1
    have hvalid := checkWorkGraph_eq_ok.mp hchecked graph' hgraph'
    have hplaced' := (placed_of_arises hended).block
    exact hnot (((fit_of_reachable hplaced' graph' hgraph').validate
      (ordered_of_reachable hplaced' graph' hgraph')).mp hvalid)

end Restoring

/-! A task whose second node runs, and a manager with the default policies. -/

/-- A root whose graph was planned. -/
def plannedRoot : SchedulerTask where
  parentTaskId := none
  rootTaskId := "r"
  depth := 1
  id := "r"
  capabilityGrants := []
  issued := ⟨fun _ h => (by cases h), by simp⟩
  block := plannedTask

/-- A manager with the default policies. -/
def defaultManager : CapabilityManager where
  policies := defaultCapabilityPolicies
  valid := validatePolicy_default
  grantIdGenerator n := "g" ++ toString n
  requestIdGenerator n := "q" ++ toString n
  urlParser := workspaceParser

/-- The root comes about. -/
theorem arises_plannedRoot : Arises plannedRoot := by
  have hcreate : SchedulerTask.createAgent "r" none none 0 [] =
      .ok { plannedRoot with block := { state := .ready 0 } } := rfl
  have hcreated := Arises.created (fun _ h => (by cases h)) hcreate
  exact ((((((hcreated.called (.replaceWorkGraph searchPlan 1)).called
    (.activateSelfWorkGraphNode "search" 2)).called (.transition (.running 3))).called
    (.completeCurrentWorkGraphNode (.string "line 7") 4)).called (.transition (.ready 5))).called
    (.activateSelfWorkGraphNode "repair" 6)).called (.transition (.running 7))

/-- The task is restored while it runs, and is not when it has been cancelled. -/
theorem restored_from_snapshot_planned :
    restore defaultManager (plannedRoot.snapshot 0) = .ok plannedRoot ∧
      restore defaultManager ((plannedRoot.withBlock (finalState
        (transition (.terminated 9 (.cancelled "stop")) plannedTask))).snapshot 0) ≠ .ok plannedRoot := by
  obtain ⟨hrestored, hgoing⟩ := restored_from_snapshot defaultManager 0 arises_plannedRoot
  have hrunning : plannedRoot.block.state.status ≠ .terminated := by decide +kernel
  constructor
  · apply hrestored.mpr
    intro graph hgraph
    obtain rfl := Option.some.inj hgraph
    exact (hgoing hrunning _ rfl).1 fun _ => by decide +kernel
  · exact (hgoing hrunning _ rfl).2 (by decide +kernel) 9 (.cancelled "stop") plannedRoot

end OsAgent.Authority
