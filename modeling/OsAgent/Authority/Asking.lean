import OsAgent.Authority.Answers

/-!
# Asking for capabilities and using them keeps the invariant

A task asks for what it lacks. What a human is then asked for is within the tree, because the root holds
it, and the path that is planned stays in the tree, because it goes along the parents. A task uses what it
holds, and ends.
-/

namespace OsAgent.Authority

open OsAgent.Library OsAgent.Capability OsAgent.Kernel

variable {m : CapabilityManager} {approved : Approvals} {tree : TaskTree} {scheduler : TaskScheduler}

/-! ## Asking -/

/-- A request that has to wait is registered, if what it asks for and its path are within the tree. -/
theorem sound_registerRequest (h : Sound m approved tree) {task : SchedulerTask}
    (htask : tree.tasks.get? task.id = some task) (hsent : task.id ∉ tree.unsent)
    {record : CapabilityRequestRecord} (hasked : tree.Asked m task.rootTaskId record)
    (hnew : ∀ other ∈ tree.tasks.entries, ∀ record' ∈ other.capabilityRequests,
      record'.requestId ≠ record.requestId) :
    Ends (scheduler.registerRequest task.id record) (Sound m approved) tree := by
  unfold Ends TaskScheduler.registerRequest
  refine wp_bind_of (ends_onTask h ?_) ?_ fun _ _ hevolves => hevolves.sound
  · intro other hother hid
    rw [hid, htask, Option.some.injEq] at hother
    subst hother
    split
    · next task' hregister => exact follows_register hsent hasked hnew htask hregister
    · exact h.follows_refl htask
  · intro _ tree1 hevolves1
    apply wp_now_bind
    intro now tree2 hsame2
    have hsent2 : task.id ∉ tree2.unsent := by
      rw [hsame2.unsent]
      exact hevolves1.sent htask hsent
    exact wp_mono (ends_onBlock (hevolves1.sound.same hsame2) hsent2)
      (fun _ _ hevolves => hevolves.sound) fun _ _ hevolves => hevolves.sound

/-- The chain along which a request is planned is within the tree. -/
theorem mem_authorityChain (h : Sound m approved tree) {task : SchedulerTask}
    (htask : tree.tasks.get? task.id = some task) (hsent : task.id ∉ tree.unsent)
    {ancestors : List SchedulerTask} (hancestors : tree.capabilityAncestors task = .ok ancestors) :
    ∀ ancestor ∈ if task.parentTaskId = none then [task] else ancestors,
      tree.tasks.get? ancestor.id = some ancestor ∧ tree.Stays task.rootTaskId ancestor.id := by
  split_ifs
  · intro ancestor hancestor
    rw [List.mem_singleton.mp hancestor]
    exact ⟨htask, stays_of_sent htask hsent⟩
  · exact mem_ancestorsFrom h (h.parents task (OrderedMap.mem_of_get? htask)) hancestors

/-- What a human is asked for is within the tree: the last task of the chain holds it. -/
theorem rooted_of_human (h : Sound scheduler.capabilityManager approved tree) {task : SchedulerTask}
    {chain : List SchedulerTask} {missing : List CapabilityRequest} {now : Timestamp}
    (hchain : ∀ ancestor ∈ chain, tree.tasks.get? ancestor.id = some ancestor ∧
      tree.Stays task.rootTaskId ancestor.id)
    (hnormal : NormalForm scheduler.capabilityManager missing)
    (hroute : scheduler.capabilityManager.planRequest task.id
      (chain.map fun ancestor => ⟨ancestor.id, ancestor.capabilityGrants⟩) (missing.map .request) now =
        .ok .human) :
    ∀ request ∈ missing, tree.Rooted task.rootTaskId request.target := by
  obtain ⟨root, hroot, hcovers⟩ := planRequest_human hnormal hroute
  obtain ⟨ancestor, hancestor, rfl⟩ := List.mem_map.mp hroot
  obtain ⟨hget, -, other, hother, htree⟩ := hchain ancestor hancestor
  rw [hget, Option.some.injEq] at hother
  subst hother
  intro request hrequest
  obtain ⟨grant, hgrant, hcontains⟩ := hcovers request hrequest
  have hheld := h.grants ancestor (OrderedMap.mem_of_get? hget) grant hgrant
  rw [← htree]
  exact hheld.rooted.contains hcontains

/-- A planned path stays in the tree. -/
theorem stays_of_path {task : SchedulerTask} (htask : tree.tasks.get? task.id = some task)
    (hsent : task.id ∉ tree.unsent) {chain : List SchedulerTask} {missing : List CapabilityRequest}
    {now : Timestamp} {path : List CapabilityDelegationHop}
    (hchain : ∀ ancestor ∈ chain, tree.tasks.get? ancestor.id = some ancestor ∧
      tree.Stays task.rootTaskId ancestor.id)
    (hroute : m.planRequest task.id
      (chain.map fun ancestor => ⟨ancestor.id, ancestor.capabilityGrants⟩) (missing.map .request) now =
        .ok (.parent path)) :
    ∀ hop ∈ path, tree.Stays task.rootTaskId hop.grantorTaskId ∧
      tree.Stays task.rootTaskId hop.granteeTaskId := by
  have hstays : ∀ id ∈ (chain.map fun ancestor =>
      (⟨ancestor.id, ancestor.capabilityGrants⟩ : CapabilityAncestor)).map CapabilityAncestor.taskId,
      tree.Stays task.rootTaskId id := by
    intro id hid
    rw [List.map_map] at hid
    obtain ⟨ancestor, hancestor, rfl⟩ := List.mem_map.mp hid
    exact (hchain ancestor hancestor).2
  intro hop hhop
  obtain ⟨hgrantor, hgrantee⟩ := planRequest_path hroute hop hhop
  refine ⟨hstays _ hgrantor, ?_⟩
  rcases List.mem_cons.mp hgrantee with heq | hgrantee
  · rw [heq]
    exact stays_of_sent htask hsent
  · exact hstays _ hgrantee

/-- What a task lacks is denied, or it is registered with a route that is within the tree. -/
theorem sound_requestMissing (h : Sound scheduler.capabilityManager approved tree)
    {task : SchedulerTask} (htask : tree.tasks.get? task.id = some task)
    (hsent : task.id ∉ tree.unsent) {missing : List CapabilityRequest}
    (hnormal : NormalForm scheduler.capabilityManager missing) {requestId : String}
    (hnew : ∀ other ∈ tree.tasks.entries, ∀ record ∈ other.capabilityRequests,
      record.requestId ≠ requestId) :
    Ends (scheduler.requestMissing task requestId missing)
      (Sound scheduler.capabilityManager approved) tree := by
  -- What is answered at once adds no request.
  have hdeny : ∀ (result : TaskScheduler.CapabilityRequestResult) tree', tree.Same tree' →
      Ends (scheduler.answerAtOnce task.id result) (Sound scheduler.capabilityManager approved)
        tree' := by
    intro result tree' hsame
    rw [← hsame.tasks] at htask
    rw [← hsame.unsent] at hsent
    exact sound_answerAtOnce (h.same hsame) htask hsent result
  -- What waits for an answer adds one, with a fresh identifier.
  have hregister : ∀ (record : CapabilityRequestRecord) tree', tree.Same tree' →
      record.requestId = requestId → tree.Asked scheduler.capabilityManager task.rootTaskId record →
      Ends (scheduler.registerRequest task.id record) (Sound scheduler.capabilityManager approved)
        tree' := by
    rintro record tree' hsame rfl hasked
    rw [← hsame.tasks] at htask hnew
    rw [← hsame.unsent] at hsent
    exact sound_registerRequest (h.same hsame) htask hsent (hasked.mono hsame.grows (.refl record)) hnew
  unfold Ends TaskScheduler.requestMissing
  rw [wp_bind, wp_lift]
  refine ⟨?_, fun _ _ => h⟩
  rintro (_ | capability) _
  · rw [wp_bind, wp_get, wp_bind, wp_lift]
    refine ⟨?_, fun _ _ => h⟩
    intro ancestors hancestors
    -- The chain that is asked is the parents of the task, up to the root.
    have hchain := mem_authorityChain h htask hsent hancestors
    apply wp_now_bind
    intro now tree1 hsame1
    rw [wp_bind, wp_lift]
    refine ⟨?_, fun _ _ => h.same hsame1⟩
    intro route hroute
    -- One case per route.
    cases route with
    | rejected reason => exact hdeny _ tree1 hsame1
    | human =>
      have hrooted := rooted_of_human h hchain hnormal hroute
      apply wp_now_bind
      intro createdAt tree2 hsame2
      refine wp_bind_of (hregister _ tree2 (hsame1.trans hsame2) rfl ?_) (fun _ _ hsound => hsound)
        fun _ _ hsound => hsound
      refine ⟨hnormal, fun _ => hrooted, ?_⟩
      intro path hpath
      cases hpath
    | parent path =>
      have hstays := stays_of_path htask hsent hchain hroute
      apply wp_now_bind
      intro createdAt tree2 hsame2
      refine wp_bind_of (hregister _ tree2 (hsame1.trans hsame2) rfl ?_) ?_ fun _ _ hsound => hsound
      · refine ⟨hnormal, ?_, ?_⟩
        · intro hroute'
          cases hroute'
        · intro path' hpath
          rw [← Option.mem_some_iff.mp hpath]
          exact hstays
      · intro _ tree3 hsound
        exact wp_bind_of (same_await _) (fun _ _ hsame3 => hsound.same hsame3)
          fun _ _ hsame3 => hsound.same hsame3
  · exact hdeny _ tree (.refl tree)

/-- A request keeps the invariant, whether it is answered at once or has to wait. -/
theorem sound_requestCapabilities (h : Sound scheduler.capabilityManager approved tree)
    (taskId : String) (requestedInputs : List CapabilityInput)
    (honce : NormalizesOnce scheduler.capabilityManager.urlParser requestedInputs) :
    Ends (scheduler.requestCapabilities taskId requestedInputs)
      (Sound scheduler.capabilityManager approved) tree := by
  unfold Ends TaskScheduler.requestCapabilities
  apply wp_requireTask_bind
  · rintro task htask rfl
    dsimp only
    -- Only a running task asks.
    split_ifs with hrunning
    · exact h
    · rw [not_not] at hrunning
      have hsent := h.sent_of_running htask hrunning
      rw [wp_bind, wp_lift]
      refine ⟨?_, fun _ _ => h⟩
      intro requested hrequested
      have hnormal := honce.normalForm hrequested
      apply wp_now_bind
      intro now tree1 hsame1
      rw [wp_bind, wp_lift]
      refine ⟨?_, fun _ _ => h.same hsame1⟩
      intro check hcheck
      refine wp_bind_of wp_generateCapabilityRequestId ?_ fun _ _ hsame => h.same (hsame1.trans hsame)
      rintro requestId tree2 ⟨hsame2, hnew⟩
      have hsame := hsame1.trans hsame2
      rw [← hsame.tasks] at htask
      rw [← hsame.unsent] at hsent
      rw [← hsame2.tasks] at hnew
      -- What it has already is answered at once; what it lacks is asked for.
      cases check with
      | allowed _ => exact sound_answerAtOnce (h.same hsame) htask hsent _
      | missing missing =>
        exact sound_requestMissing (h.same hsame) htask hsent (hnormal.check hcheck) hnew
  · intro e
    exact h

/-! ## Using grants, and the end of a task -/

/-- Using a grant changes what is left of its uses. -/
theorem sound_executeResolvedTool (h : Sound m approved tree) (taskId : String)
    (call : ToolCallRequest) (validation : Except String Unit) (required : List CapabilityRequest) :
    Ends (scheduler.executeResolvedTool taskId call validation required) (Sound m approved) tree := by
  unfold Ends TaskScheduler.executeResolvedTool
  apply wp_now_bind
  intro now tree1 hsame1
  have hsound := h.same hsame1
  refine wp_mono (ends_onTask hsound ?_) (fun _ _ hevolves => hevolves.sound)
    fun _ _ hevolves => hevolves.sound
  intro task htask _
  have hfollows := follows_authorizeTool hsound htask scheduler.capabilityManager call validation
    required now
  split
  · next hauthorize =>
    rw [hauthorize] at hfollows
    exact hfollows
  · next hauthorize =>
    rw [hauthorize] at hfollows
    exact hfollows
  · next hauthorize =>
    rw [hauthorize] at hfollows
    exact hfollows

/-- To terminate a task keeps the invariant. -/
theorem sound_terminateTask (h : Sound m approved tree) (taskId : String)
    (termination : Termination) :
    Ends (scheduler.terminateTask taskId termination) (Sound m approved) tree := by
  unfold Ends TaskScheduler.terminateTask
  apply wp_requireTask_bind
  · rintro task htask rfl
    split_ifs
    · exact h
    · apply wp_now_bind
      intro now tree1 hsame1
      refine wp_bind_of (ends_onTask (h.same hsame1) ?_) ?_ fun _ _ hevolves => hevolves.sound
      · intro other hother _
        exact follows_deny (h.same hsame1) hother _ now
      · intro _ tree2 hevolves2
        apply wp_now_bind
        intro now' tree3 hsame3
        -- Also a child that has not been sent may be terminated, but it does not run for that.
        refine wp_mono (ends_onBlock_idle (hevolves2.sound.same hsame3) ?_)
          (fun _ _ hevolves => hevolves.sound) fun _ _ hevolves => hevolves.sound
        intro block hblock
        exact not_running_transition TaskStatus.noConfusion hblock
  · intro e
    exact h

/-- A call on the block of a task keeps the invariant. -/
theorem sound_runTask (h : Sound m approved tree) (taskId : String) (call : TaskCall) :
    Ends (TaskScheduler.runTask taskId call) (Sound m approved) tree := by
  unfold Ends TaskScheduler.runTask
  rw [wp_bind, wp_get]
  split_ifs with hunsent
  · exact h
  · exact wp_mono (ends_onBlock h hunsent) (fun _ _ hevolves => hevolves.sound)
      fun _ _ hevolves => hevolves.sound

end OsAgent.Authority
