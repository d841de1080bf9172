import OsAgent.Authority.Asking
import OsAgent.Library.Transition

/-!
# Runs of a tree of tasks

A run is any sequence of the methods of the scheduler, each up to where it first waits, with what is left
of them taken up in any order. Besides the tree it has the requests that a human approved, which no method
reads. `Sound` holds along every run, and with it no task ever gets authority that the host has not given
to its root, nor executes without a human on what needs one.
-/

namespace OsAgent.Authority

open OsAgent.Library OsAgent.Capability OsAgent.Kernel

/-! ## Calls -/

/-- What may happen to a tree. -/
inductive TreeCall where
  | submit (request : CreateAgentRequest) (registerRoot : Except CapabilityError Unit)
  | startAsyncWork (parentTaskId : String) (tools : List AsyncWorkRegistration)
      (childOptions : List CreateAgentRequest) (graphNodeAliases : Option (List String))
      (generationId : String) (reservation : Except String Unit)
  | sendSpawnedChild (childTaskId : String) (failure : Option String)
  | requestCapabilities (taskId : String) (requestedInputs : List CapabilityInput)
  | resolveHumanCapabilityRequest (requestId : String) (decision : TaskScheduler.Decision)
      (reason : Option String)
  | resolveParentCapabilityRequest (parentTaskId requestRef : String)
      (decision : TaskScheduler.Decision) (reason : Option String)
  | resume (index : ℕ)
  | executeResolvedTool (taskId : String) (call : ToolCallRequest)
      (validation : Except String Unit) (required : List CapabilityRequest)
  | terminateTask (taskId : String) (termination : Termination)
  | runTask (taskId : String) (call : TaskCall)
  /-- Others read the clock and take identifiers, and so does a method that throws. -/
  | take (taken : Taken)

namespace TreeCall

variable (scheduler : TaskScheduler)

/-- What a call does. -/
def perform : TreeCall → TreeM Unit
  | .submit request registerRoot => scheduler.submit request registerRoot
  | .startAsyncWork parentTaskId tools childOptions graphNodeAliases generationId reservation => do
    let _ ← scheduler.startAsyncWork parentTaskId tools childOptions graphNodeAliases generationId
      reservation
  | .sendSpawnedChild childTaskId failure => scheduler.sendSpawnedChild childTaskId failure
  | .requestCapabilities taskId requestedInputs => do
    let _ ← scheduler.requestCapabilities taskId requestedInputs
  | .resolveHumanCapabilityRequest requestId decision reason => do
    let _ ← scheduler.resolveHumanCapabilityRequest requestId decision reason
  | .resolveParentCapabilityRequest parentTaskId requestRef decision reason => do
    let _ ← scheduler.resolveParentCapabilityRequest parentTaskId requestRef decision reason
  | .resume index => scheduler.resume index
  | .executeResolvedTool taskId call validation required =>
    scheduler.executeResolvedTool taskId call validation required
  | .terminateTask taskId termination => scheduler.terminateTask taskId termination
  | .runTask taskId call => TaskScheduler.runTask taskId call
  | .take taken => modify fun tree => { tree with taken }

/-- What tasks ask for themselves, and for their children. -/
def inputs : TreeCall → List CapabilityInput
  | .startAsyncWork _ _ childOptions _ _ _ => childOptions.flatMap CreateAgentRequest.capabilities
  | .requestCapabilities _ requestedInputs => requestedInputs
  | _ => []

/-- What a human approves by a call: the request that is found, of the task that made it. -/
def approves (tree : TaskTree) : TreeCall → Approvals
  | .resolveHumanCapabilityRequest requestId .approve _ =>
    (tree.findPendingCapabilityRequest requestId .human).toList.map fun pending =>
      (pending.1.id, requestId)
  | _ => []

end TreeCall

/-! ## Runs -/

/-- A tree and what humans approved in it. -/
structure TreeRun where
  tree : TaskTree := {}
  approved : Approvals := []

/-- A run after one more call, however that ended. -/
def TreeRun.after (scheduler : TaskScheduler) (run : TreeRun) (call : TreeCall) : TreeRun where
  tree := finalState (call.perform scheduler run.tree)
  approved := run.approved ++ call.approves run.tree

/-- The runs of a scheduler, in which normalizing the resources that tasks ask for a second time changes
nothing. -/
def treeSystem (scheduler : TaskScheduler) : TransitionSystem TreeRun where
  init run := run = {}
  step run run' := ∃ call : TreeCall,
    NormalizesOnce scheduler.capabilityManager.urlParser call.inputs ∧ run' = run.after scheduler call

variable {scheduler : TaskScheduler}

/-- The empty tree has the invariant. -/
theorem sound_empty (m : CapabilityManager) : Sound m [] {} :=
  ⟨List.forall_mem_nil _, List.forall_mem_nil _, List.forall_mem_nil _, List.forall_mem_nil _,
    List.forall_mem_nil _, List.forall_mem_nil _⟩

/-- Every call keeps the invariant, with what it approves. -/
theorem sound_perform {approved : Approvals} {tree : TaskTree}
    (h : Sound scheduler.capabilityManager approved tree) (call : TreeCall)
    (honce : NormalizesOnce scheduler.capabilityManager.urlParser call.inputs)
    (happroves : call.approves tree ⊆ approved) :
    Ends (call.perform scheduler) (Sound scheduler.capabilityManager approved) tree := by
  -- What a call returns does not matter to the invariant.
  have hdrop : ∀ {α : Type} {x : TreeM α},
      Ends x (Sound scheduler.capabilityManager approved) tree →
      Ends (x >>= fun _ => pure ()) (Sound scheduler.capabilityManager approved) tree := by
    intro α x hx
    exact wp_bind_of hx (fun _ _ hsound => hsound) fun _ _ hsound => hsound
  -- One case per call.
  cases call with
  | submit request registerRoot => exact sound_submit h request registerRoot
  | startAsyncWork parentTaskId tools childOptions graphNodeAliases generationId reservation =>
    apply hdrop
    apply sound_startAsyncWork h
    intro options hoptions input hinput
    exact honce input (List.mem_flatMap_of_mem hoptions hinput)
  | sendSpawnedChild childTaskId failure => exact sound_sendSpawnedChild h childTaskId failure
  | requestCapabilities taskId requestedInputs =>
    exact hdrop (sound_requestCapabilities h taskId requestedInputs honce)
  | resolveHumanCapabilityRequest requestId decision reason =>
    apply hdrop
    apply sound_resolveHumanCapabilityRequest h
    rintro rfl task record hpending
    apply happroves
    show _ ∈ (tree.findPendingCapabilityRequest requestId .human).toList.map _
    rw [hpending]
    exact List.mem_singleton_self _
  | resolveParentCapabilityRequest parentTaskId requestRef decision reason =>
    exact hdrop (sound_resolveParentCapabilityRequest h parentTaskId requestRef decision reason)
  | resume index => exact sound_resume h index
  | executeResolvedTool taskId call validation required =>
    exact sound_executeResolvedTool h taskId call validation required
  | terminateTask taskId termination => exact sound_terminateTask h taskId termination
  | runTask taskId call => exact sound_runTask h taskId call
  | take taken => exact h.same ⟨rfl, rfl⟩

/-- The invariant holds along every run. -/
theorem sound_of_reachable {run : TreeRun} (h : (treeSystem scheduler).Reachable run) :
    Sound scheduler.capabilityManager run.approved run.tree := by
  apply h.invariant
  · rintro run rfl
    exact sound_empty _
  · rintro run run' - hsound ⟨call, honce, rfl⟩
    exact wp_finalState (sound_perform (hsound.approve (call.approves run.tree)) call honce
      (List.subset_append_right _ _))

/-- Every grant of every task is within a grant that the host issued to the root of its tree. One that can
be executed on, for a capability that needs a human, was given by a human who approved a request of this
task, and of no other. -/
theorem authority_within_root {run : TreeRun} (h : (treeSystem scheduler).Reachable run) :
    ∀ task ∈ run.tree.tasks.entries, ∀ grant ∈ task.capabilityGrants,
      run.tree.Rooted task.rootTaskId grant.target ∧
        (grant.Executable → NeedsHuman scheduler.capabilityManager grant.capability →
          GivenByHuman run.approved task grant ∧
            ∀ other ∈ run.tree.tasks.entries, ∀ record ∈ other.capabilityRequests,
              grant.source = .human record.requestId → other.id = task.id) := by
  intro task htask grant hgrant
  have hsound := sound_of_reachable h
  have hheld := hsound.grants task htask grant hgrant
  refine ⟨hheld.rooted, ?_⟩
  intro hexecutable hneeds
  have hgiven := hheld.human hexecutable hneeds
  refine ⟨hgiven, ?_⟩
  intro other hother record hrecord hsource
  obtain ⟨record', hrecord', hsource', -⟩ := hgiven
  rw [hsource', CapabilityGrantSource.human.injEq] at hsource
  exact (hsound.unique task htask other hother record' hrecord' record hrecord hsource).symm

/-! ## A child that pushes -/

/-- A scheduler with the default policies and no characters. -/
def pushScheduler : TaskScheduler where
  capabilityManager :=
    { policies := defaultCapabilityPolicies
      valid := validatePolicy_default
      grantIdGenerator := fun n => "grant-" ++ toString n
      requestIdGenerator := fun n => "request-" ++ toString n
      urlParser := workspaceParser }
  characterRegistry := ⟨.empty, List.forall_mem_nil _⟩
  maxDepth := 3
  taskIdGenerator n := "task-" ++ toString n
  clock n := n

/-- The host lets the root read files, and push if a human approves. The root passes reading on to a
child, which asks for pushing, and a human approves. -/
def pushCalls : List TreeCall :=
  [.submit { id := some "root", capabilities := [.name "file.read", .name "git.push"] } (.ok ()),
    .runTask "root" (.transition (.running 1)),
    .startAsyncWork "root" [] [{ goal := "publish", capabilities := [.request rootRequest] }] none
      "generation" (.ok ()),
    .sendSpawnedChild "task-0" none,
    .runTask "task-0" (.transition (.running 2)),
    .requestCapabilities "task-0" [.name "git.push"],
    .resolveHumanCapabilityRequest "request-0" .approve none]

/-- The run with some calls. -/
def TreeRun.afterAll (scheduler : TaskScheduler) (run : TreeRun) (calls : List TreeCall) : TreeRun :=
  calls.foldl (TreeRun.after scheduler) run

/-- A list of calls leads from one reachable run to another. -/
theorem reachable_afterAll {calls : List TreeCall}
    (honce : ∀ call ∈ calls, NormalizesOnce scheduler.capabilityManager.urlParser call.inputs)
    {run : TreeRun} (h : (treeSystem scheduler).Reachable run) :
    (treeSystem scheduler).Reachable (run.afterAll scheduler calls) := by
  induction calls generalizing run with
  | nil => exact h
  | cons call calls ih =>
    rw [List.forall_mem_cons] at honce
    exact ih honce.2 (h.step ⟨call, honce.1, rfl⟩)

/-- The inputs of the calls are normalized once. -/
theorem pushCalls_once : ∀ call ∈ pushCalls,
    NormalizesOnce pushScheduler.capabilityManager.urlParser call.inputs := by
  have hscope : ∀ call ∈ pushCalls, ∀ input ∈ call.inputs,
      input.scope = .all ∨ input.scope = .exact "workspace://current/" := by
    decide
  intro call hcall input hinput scope hnormal
  rcases hscope call hcall input hinput with heq | heq
  · rw [heq] at hnormal
    cases hnormal
    rfl
  · have hroot : normalizeResourceScope pushScheduler.capabilityManager.urlParser
        (.exact "workspace://current/") = .ok (.exact "workspace://current/") := by
      decide
    rw [heq, hroot, Except.ok.injEq] at hnormal
    rw [← hnormal]
    exact hroot

/-- The child holds a grant for pushing that it can execute on. -/
theorem pushes : ∃ task ∈ (TreeRun.afterAll pushScheduler {} pushCalls).tree.tasks.entries,
    ∃ grant ∈ task.capabilityGrants, task.id = "task-0" ∧ task.rootTaskId = "root" ∧
      grant.target = ("git.push", .all) ∧ grant.execution.getD .allowed = .allowed := by
  decide +kernel

/-- In this run the grant for pushing is within one of the root, and a human approved it. -/
theorem authority_within_root_push :
    ∃ task ∈ (TreeRun.afterAll pushScheduler {} pushCalls).tree.tasks.entries,
      ∃ grant ∈ task.capabilityGrants, task.id = "task-0" ∧ grant.target = ("git.push", .all) ∧
        (TreeRun.afterAll pushScheduler {} pushCalls).tree.Rooted "root" grant.target ∧
        GivenByHuman (TreeRun.afterAll pushScheduler {} pushCalls).approved task grant := by
  have hreach : (treeSystem pushScheduler).Reachable (TreeRun.afterAll pushScheduler {} pushCalls) :=
    reachable_afterAll pushCalls_once (.of_init rfl)
  obtain ⟨task, htask, grant, hgrant, hid, hroot, htarget, hexecutable⟩ := pushes
  obtain ⟨hrooted, hhuman⟩ := authority_within_root hreach task htask grant hgrant
  have hneeds : NeedsHuman pushScheduler.capabilityManager grant.capability := by
    rw [show grant.capability = "git.push" from congrArg Prod.fst htarget]
    show (pushScheduler.capabilityManager.policyFor "git.push").approval = .human
    decide
  rw [hroot] at hrooted
  exact ⟨task, htask, grant, hgrant, hid, htarget, hrooted, (hhuman hexecutable hneeds).1⟩

end OsAgent.Authority
