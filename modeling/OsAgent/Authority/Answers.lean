import OsAgent.Authority.Creation

/-!
# Answers keep the invariant

A human or the parents answer what a task asked for. A human's grant is for what was asked for, which is
within the tree. A parent's is derived from a grant of its own, and the path of the request stays in the
tree.
-/

namespace OsAgent.Authority

open OsAgent.Library OsAgent.Capability OsAgent.Kernel

variable {m : CapabilityManager} {approved : Approvals} {tree : TaskTree} {scheduler : TaskScheduler}

/-! ## Looking around in the tree -/

/-- The chain of a task's ancestors is within its tree. -/
theorem mem_ancestorsFrom (h : Sound m approved tree) {rootTaskId : String} {passes : ℕ}
    {visited : List String} {parentTaskId : Option String} {ancestors : List SchedulerTask}
    (hparent : ∀ id ∈ parentTaskId, tree.Stays rootTaskId id)
    (hrun : tree.ancestorsFrom passes visited parentTaskId = .ok ancestors) :
    ∀ ancestor ∈ ancestors, tree.tasks.get? ancestor.id = some ancestor ∧
      tree.Stays rootTaskId ancestor.id := by
  -- Along the passes: each looks up one more ancestor.
  induction passes generalizing visited parentTaskId ancestors with
  | zero =>
    cases parentTaskId with
    | none =>
      cases hrun
      exact List.forall_mem_nil _
    | some id => cases hrun
  | succ passes ih =>
    cases parentTaskId with
    | none =>
      cases hrun
      exact List.forall_mem_nil _
    | some id =>
      unfold TaskTree.ancestorsFrom at hrun
      split_ifs at hrun
      split at hrun
      · cases hrun
        exact List.forall_mem_nil _
      · next parent hget =>
        split_ifs at hrun
        · cases hrun
          exact List.forall_mem_nil _
        · obtain ⟨rest, hrest, hrun⟩ := bind_eq_ok.mp hrun
          cases hrun
          have hid := OrderedMap.key_of_get? hget
          have hstays := hparent id rfl
          -- The ancestor has the root of the task below it.
          have hroot : parent.rootTaskId = rootTaskId := by
            obtain ⟨-, other, hother, hroot⟩ := hstays
            rw [hget, Option.some.injEq] at hother
            rw [hother]
            exact hroot
          rw [List.forall_mem_cons, hid]
          refine ⟨⟨hget, hstays⟩, ih ?_ hrest⟩
          intro grandparentTaskId hgrandparent
          have hstays' := h.parents parent (OrderedMap.mem_of_get? hget) _ hgrandparent
          rwa [hroot] at hstays'

/-- As many passes as there are tasks, and one more, are enough: the loop never ends for want of them. -/
theorem ancestorsFrom_enough (tree : TaskTree) {passes : ℕ} {visited : List String}
    (hnodup : visited.Nodup) (hvisited : visited ⊆ tree.tasks.keys)
    (hpasses : tree.tasks.size < passes + visited.length) (parentTaskId : Option String) (more : ℕ) :
    tree.ancestorsFrom (passes + more) visited parentTaskId =
      tree.ancestorsFrom passes visited parentTaskId := by
  induction passes generalizing visited parentTaskId with
  | zero =>
    -- The tasks that were visited are not more than there are.
    have hlength := (hnodup.subperm hvisited).length_le
    have hsize : tree.tasks.keys.length = tree.tasks.size := List.length_map _
    omega
  | succ passes ih =>
    rw [Nat.add_right_comm]
    cases parentTaskId with
    | none =>
      unfold TaskTree.ancestorsFrom
      rfl
    | some id =>
      unfold TaskTree.ancestorsFrom
      split_ifs with hmem
      · rfl
      · cases hget : tree.tasks.get? id with
        | none => rfl
        | some parent =>
          dsimp only
          have hkey : id ∈ tree.tasks.keys := by
            rw [← OrderedMap.get?_isSome_iff, hget]
            rfl
          rw [ih (List.nodup_cons.mpr ⟨hmem, hnodup⟩) (List.cons_subset.mpr ⟨hkey, hvisited⟩)
            (by rw [List.length_cons]; omega)]

/-- A request that was found waits, and is that of the task. -/
theorem findPendingCapabilityRequest_spec {requestId : String} {route : CapabilityApprovalRoute}
    {task : SchedulerTask} {record : CapabilityRequestRecord}
    (h : tree.findPendingCapabilityRequest requestId route = some (task, record)) :
    tree.tasks.get? task.id = some task ∧ record ∈ task.capabilityRequests ∧
      record.requestId = requestId ∧ record.route = route ∧ record.status = .pending := by
  unfold TaskTree.findPendingCapabilityRequest at h
  obtain ⟨other, hother, hfound⟩ := List.exists_of_findSome?_eq_some h
  obtain ⟨record', hrecord', heq⟩ := Option.map_eq_some_iff.mp hfound
  obtain ⟨rfl, rfl⟩ := Prod.mk.inj heq
  have hspec := List.find?_some hrecord'
  simp only [Bool.and_eq_true, decide_eq_true_eq] at hspec
  exact ⟨OrderedMap.get?_of_mem hother, List.mem_of_find?_eq_some hrecord', hspec.1.1, hspec.1.2,
    hspec.2⟩

/-! ## The rest of a block -/

/-- A transition to another state than running does not make a task run. -/
theorem not_running_transition {next : TaskState} (hnext : next.status ≠ .running)
    {block : TaskControlBlock} (hblock : block.state.status ≠ .running) :
    (finalState (transition next block)).state.status ≠ .running := by
  apply wp_finalState (P := fun block : TaskControlBlock => block.state.status ≠ .running)
  have hsync : ∀ block : TaskControlBlock, block.state.status ≠ .running →
      Ends (syncCurrentWorkGraphNode next) (fun block => block.state.status ≠ .running) block := by
    intro block hblock
    unfold Ends syncCurrentWorkGraphNode
    rw [wp_bind, wp_get]
    split
    · exact hblock
    · split
      · exact hblock
      · split_ifs
        · exact hblock
        · unfold requireWorkGraphNode setWorkGraph
          rw [wp_bind]
          split
          · exact hblock
          · exact hblock
  unfold Ends transition
  rw [wp_bind, wp_get]
  dsimp only
  split_ifs
  · rw [wp_bind, wp_set]
    exact hsync _ hnext
  · exact hblock

/-- A method on the block of a task that does not begin to run keeps the invariant. -/
theorem ends_onBlock_idle {α : Type} {taskId : String} {method : TaskM α} (h : Sound m approved tree)
    (hmethod : ∀ block : TaskControlBlock, block.state.status ≠ .running →
      (finalState (method block)).state.status ≠ .running) :
    Ends (onBlock taskId method) (Evolves m approved tree) tree := by
  apply ends_onTask h
  intro task htask _
  have hidle : task.id ∈ tree.unsent →
      (finalState (method task.block)).state.status ≠ .running ∧ task.capabilityRequests = [] := by
    intro hunsent
    obtain ⟨hrunning, hrequests⟩ := h.idle htask hunsent
    exact ⟨hmethod task.block hrunning, hrequests⟩
  split
  · next a block hblock =>
    rw [hblock] at hidle
    exact follows_withBlock block hidle
  · next e block hblock =>
    rw [hblock] at hidle
    exact follows_withBlock block hidle

/-! ## Answers -/

/-- To tell a task its result keeps the invariant. -/
theorem evolves_tellResult (h : Sound m approved tree) {taskId : String}
    (hsent : taskId ∉ tree.unsent) (result : TaskScheduler.CapabilityRequestResult) :
    Ends (TaskScheduler.tellResult taskId result) (Evolves m approved tree) tree := by
  unfold Ends TaskScheduler.tellResult
  refine wp_bind_of (ends_onBlock h hsent) ?_ fun _ _ hevolves => hevolves
  intro _ tree' hevolves
  exact hevolves

/-- A task that was sent is told the result, and is ready. -/
theorem sound_answerAtOnce (h : Sound m approved tree) {task : SchedulerTask}
    (htask : tree.tasks.get? task.id = some task) (hsent : task.id ∉ tree.unsent)
    (result : TaskScheduler.CapabilityRequestResult) :
    Ends (scheduler.answerAtOnce task.id result) (Sound m approved) tree := by
  unfold Ends TaskScheduler.answerAtOnce
  refine wp_bind_of (evolves_tellResult h hsent result) ?_ fun _ _ hevolves => hevolves.sound
  intro _ tree1 hevolves1
  apply wp_now_bind
  intro now tree2 hsame2
  have hsent2 : task.id ∉ tree2.unsent := by
    rw [hsame2.unsent]
    exact hevolves1.sent htask hsent
  refine wp_bind_of (ends_onBlock (hevolves1.sound.same hsame2) hsent2) ?_
    fun _ _ hevolves => hevolves.sound
  intro _ tree3 hevolves3
  exact hevolves3.sound

/-- A request is resolved with grants that are within the tree, and that a human gave if they need one. -/
theorem sound_finishCapabilityRequest (h : Sound m approved tree) {task : SchedulerTask}
    (htask : tree.tasks.get? task.id = some task) (hsent : task.id ∉ tree.unsent)
    (record : CapabilityRequestRecord) (status : CapabilityRequestStatus)
    {grants : List CapabilityGrant} (reason : Option String) (resolvedAt : Timestamp)
    (hgrants : ∀ found, task.findRequest record.requestId = some found → ∀ grant ∈ grants,
      grant.subjectTaskId = task.id ∧ tree.Rooted task.rootTaskId grant.target ∧
        (NeedsHuman m grant.capability → grant.source = .human record.requestId ∧
          found.route = .human ∧ (task.id, record.requestId) ∈ approved ∧
          grant.target ∈ found.requests.map CapabilityRequest.target)) :
    Ends (TaskScheduler.finishCapabilityRequest task.id record status grants reason resolvedAt)
      (Sound m approved) tree := by
  unfold Ends TaskScheduler.finishCapabilityRequest
  apply wp_requireTask_bind
  · intro _ _ _
    dsimp only
    split_ifs
    · -- The grants are stored with the task first, so that what follows reads them.
      have hresolve : Ends (onTask task.id fun task =>
          task.resolveCapabilityRequest record.requestId status grants reason resolvedAt)
          (Evolves m approved tree) tree := by
        apply ends_onTask h
        intro other hother hid
        rw [hid, htask, Option.some.injEq] at hother
        subst hother
        exact follows_resolve h htask fun found hfound _ => hgrants found hfound
      refine wp_bind_of hresolve ?_ fun _ _ hevolves => hevolves.sound
      intro _ tree1 hevolves1
      have hsent1 := hevolves1.sent htask hsent
      -- The result is told to the context, and the block is ended: neither changes a grant.
      refine wp_bind_of (evolves_tellResult hevolves1.sound hsent1 _) ?_
        fun _ _ hevolves => hevolves.sound
      intro _ tree2 hevolves2
      have hsent2 := (hevolves1.trans hevolves2).sent htask hsent
      refine wp_bind_of (ends_onBlock hevolves2.sound hsent2) ?_ fun _ _ hevolves => hevolves.sound
      intro _ tree3 hevolves3
      exact hevolves3.sound
    · exact h
  · intro e
    exact h

/-- A human's answer: what is given was asked for, and what was asked for is within the tree. -/
theorem sound_resolveHumanCapabilityRequest (h : Sound scheduler.capabilityManager approved tree)
    (requestId : String) (decision : TaskScheduler.Decision) (reason : Option String)
    (happroved : decision = .approve → ∀ task record,
      tree.findPendingCapabilityRequest requestId .human = some (task, record) →
        (task.id, requestId) ∈ approved) :
    Ends (scheduler.resolveHumanCapabilityRequest requestId decision reason)
      (Sound scheduler.capabilityManager approved) tree := by
  unfold Ends TaskScheduler.resolveHumanCapabilityRequest
  rw [wp_bind, wp_get]
  cases hpending : tree.findPendingCapabilityRequest requestId .human with
  -- A request that is not pending, or not a human's, is not answered.
  | none => exact h
  | some pending =>
    obtain ⟨task, record⟩ := pending
    obtain ⟨htask, hrecord, rfl, hroute, -⟩ := findPendingCapabilityRequest_spec hpending
    apply wp_now_bind
    intro now tree1 hsame1
    have htask1 : tree1.tasks.get? task.id = some task := by
      rw [hsame1.tasks]
      exact htask
    -- Denied: nothing is granted.
    cases decision with
    | deny =>
      have hsent1 := (h.same hsame1).sent_of_request htask1 hrecord
      exact sound_finishCapabilityRequest (h.same hsame1) htask1 hsent1 record .denied reason now
        fun _ _ => List.forall_mem_nil _
    | approve =>
      -- Approved: the grants are issued for what was asked, as it was normalized.
      refine wp_bind_of (wp_issue _) ?_ fun _ _ hsame2 => h.same (hsame1.trans hsame2)
      rintro grants tree2 ⟨hsame2, n, n', hgrants⟩
      have hsame := hsame1.trans hsame2
      have htask2 : tree2.tasks.get? task.id = some task := by
        rw [hsame.tasks]
        exact htask
      have hasked := (h.same hsame).requests task (OrderedMap.mem_of_get? htask2) record hrecord
      have hspec := grantByHuman_spec hasked.normal hgrants
      have hsent2 := (h.same hsame).sent_of_request htask2 hrecord
      refine sound_finishCapabilityRequest (h.same hsame) htask2 hsent2 record .granted reason now ?_
      -- What is given was asked for, hence within the root's grants.
      intro found hfound grant hgrant
      rw [(h.same hsame).findRequest htask2 hrecord, Option.some.injEq] at hfound
      subst hfound
      obtain ⟨hsubject, hsource, request, hrequest, htarget⟩ := hspec grant hgrant
      rw [← htarget]
      refine ⟨hsubject, hasked.human hroute request hrequest, ?_⟩
      intro _
      exact ⟨hsource, hroute, happroved rfl task record hpending, List.mem_map_of_mem hrequest⟩

/-- What a parent gives on a hop is derived from its grants. -/
theorem wp_decideHop {parent : SchedulerTask} {granteeTaskId : String}
    {record : CapabilityRequestRecord} (hnormal : NormalForm scheduler.capabilityManager record.requests)
    (decision : TaskScheduler.Decision) (reason : Option String) :
    wp (scheduler.decideHop parent granteeTaskId record decision reason)
      (fun resolution tree' => tree.Same tree' ∧ ∀ grants, resolution = .ok grants →
        ∀ grant ∈ grants, ¬ NeedsHuman scheduler.capabilityManager grant.capability ∧
          ∃ source ∈ parent.capabilityGrants, Contains source.target grant.target)
      (fun _ => tree.Same) tree := by
  unfold TaskScheduler.decideHop
  cases decision with
  | deny =>
    refine ⟨.refl tree, ?_⟩
    intro grants heq
    cases heq
  -- The grants are derived from the parent's own, which are within the tree.
  | approve =>
    dsimp only
    rw [wp_tryCatch]
    have hrefused : ∀ error tree', tree.Same tree' →
        wp (pure (.error (some (errorMessage error))) :
          TreeM (Except (Option String) (List CapabilityGrant)))
          (fun resolution tree' => tree.Same tree' ∧ ∀ grants, resolution = .ok grants →
            ∀ grant ∈ grants, ¬ NeedsHuman scheduler.capabilityManager grant.capability ∧
              ∃ source ∈ parent.capabilityGrants, Contains source.target grant.target)
          (fun _ => tree.Same) tree' := by
      intro error tree' hsame
      refine ⟨hsame, ?_⟩
      intro grants heq
      cases heq
    apply wp_now_bind
    intro now tree1 hsame1
    refine wp_bind_of (wp_issue _) ?_ fun error tree2 hsame2 => hrefused error tree2 (hsame1.trans hsame2)
    rintro grants tree2 ⟨hsame2, n, n', hgrants⟩
    rw [wp_pure]
    refine ⟨hsame1.trans hsame2, ?_⟩
    intro grants' heq
    obtain rfl := Except.ok.inj heq
    apply delegate_spec _ hgrants
    intro requests hrequests
    rw [hnormal.normalizeRequests, Except.ok.injEq] at hrequests
    rw [← hrequests]
    exact hnormal

/-- The hop of a request that waits is one of its path. -/
theorem mem_path_of_hop {task : SchedulerTask} {record : CapabilityRequestRecord}
    {hop : CapabilityDelegationHop} (hfound : task.findRequest record.requestId = some record)
    (hhop : task.currentCapabilityDelegationHop record.requestId = some hop) :
    ∃ path ∈ record.delegationPath, hop ∈ path := by
  unfold SchedulerTask.currentCapabilityDelegationHop at hhop
  rw [hfound, Option.bind_some] at hhop
  unfold CapabilityRequestRecord.currentCapabilityDelegationHop at hhop
  split at hhop
  · next path index hpath _ => exact ⟨path, hpath, List.mem_of_getElem? hhop⟩
  · cases hhop

/-- What is left of a method is not a part of the authority. -/
theorem same_await (continuation : Continuation) :
    wp (await continuation) (fun _ => tree.Same) (fun _ => tree.Same) tree :=
  ⟨rfl, rfl⟩

/-- A parent's answer: the hop stays in the tree, so what the parent derives for the grantee is within
it. -/
theorem sound_resolveParentCapabilityRequest (h : Sound scheduler.capabilityManager approved tree)
    (parentTaskId requestRef : String) (decision : TaskScheduler.Decision) (reason : Option String) :
    Ends (scheduler.resolveParentCapabilityRequest parentTaskId requestRef decision reason)
      (Sound scheduler.capabilityManager approved) tree := by
  unfold Ends TaskScheduler.resolveParentCapabilityRequest
  apply wp_requireTask_bind
  · rintro parent hparent rfl
    rw [wp_bind, wp_get]
    dsimp only
    split
    · next task record hop hpending hhop =>
      obtain ⟨htask, hrecord, rfl, -, -⟩ := findPendingCapabilityRequest_spec hpending
      rw [hpending, Option.bind_some] at hhop
      have hfound := h.findRequest htask hrecord
      have hasked := h.requests task (OrderedMap.mem_of_get? htask) record hrecord
      obtain ⟨path, hpath, hmem⟩ := mem_path_of_hop hfound hhop
      obtain ⟨hgrantor, hgrantee⟩ := hasked.path path hpath hop hmem
      split_ifs with hother
      · exact h
      · rw [not_not] at hother
        rw [hother] at hgrantor
        -- The parent is the grantor, so it is in the tree of the requester, and so is the grantee.
        have hroot : parent.rootTaskId = task.rootTaskId := by
          obtain ⟨-, other, hget, hroot⟩ := hgrantor
          rw [hparent, Option.some.injEq] at hget
          rw [hget]
          exact hroot
        apply wp_requireTask_bind
        · intro grantee hget hid
          have hrootGrantee : grantee.rootTaskId = task.rootTaskId := by
            obtain ⟨-, other, hget', hroot'⟩ := hgrantee
            rw [hget, Option.some.injEq] at hget'
            rw [hget']
            exact hroot'
          refine wp_bind_of (wp_decideHop hasked.normal decision reason) ?_
            fun _ _ hsame => h.same hsame
          rintro resolution tree1 ⟨hsame1, hresolution⟩
          have hsent1 : parent.id ∉ tree1.unsent := by
            rw [hsame1.unsent]
            exact hgrantor.1
          refine wp_bind_of (ends_onBlock (h.same hsame1) hsent1) ?_ fun _ _ hevolves => hevolves.sound
          intro _ tree2 hevolves
          have hgrows := hsame1.grows.trans hevolves.grows
          cases resolution with
          | ok grants =>
            have hgrants : Ends (onTask grantee.id fun grantee => grantee.addCapabilityGrants grants)
                (Evolves scheduler.capabilityManager approved tree2) tree2 := by
              apply ends_onTask hevolves.sound
              intro later hlater hlaterId
              apply follows_withGrants hevolves.sound hlater
              intro grant hgrant
              obtain ⟨hhuman, source, hsource, hcontains⟩ := hresolution grants rfl grant hgrant
              have hheld := h.grants parent (OrderedMap.mem_of_get? hparent) source hsource
              -- The grantee is in the same tree as before.
              have hrootLater : later.rootTaskId = grantee.rootTaskId := by
                rw [← hid] at hget
                obtain ⟨later', hlater', hkeeps⟩ := hgrows.tasks _ grantee hget
                rw [hlaterId, hlater', Option.some.injEq] at hlater
                rw [← hlater]
                exact hkeeps.rootTaskId
              rw [hrootLater, hrootGrantee, ← hroot]
              exact ⟨(hheld.rooted.contains hcontains).mono hgrows, hhuman⟩
            refine wp_bind_of hgrants ?_ fun _ _ hevolves' => hevolves'.sound
            intro _ tree3 hevolves3
            refine wp_bind_of (same_await _) ?_ fun _ _ hsame => hevolves3.sound.same hsame
            intro _ tree4 hsame4
            exact hevolves3.sound.same hsame4
          | error reason =>
            apply wp_now_bind
            intro now tree3 hsame3
            have hgrows3 := hgrows.trans hsame3.grows
            obtain ⟨task3, htask3, hkeeps⟩ := hgrows3.tasks _ task htask
            have hsent3 := hgrows3.sent _ task htask (h.sent_of_request htask hrecord)
            rw [← hkeeps.id] at htask3 hsent3 ⊢
            exact sound_finishCapabilityRequest (hevolves.sound.same hsame3) htask3 hsent3 record .denied
              reason now fun _ _ => List.forall_mem_nil _
        · intro e
          exact h
    · exact h
  · intro e
    exact h

/-- The next hop of a path, or its end: nothing is given any more. -/
theorem sound_advanceHop (h : Sound m approved tree) (taskId requestRef : String)
    (reason : Option String) :
    Ends (scheduler.advanceHop taskId requestRef reason) (Sound m approved) tree := by
  unfold Ends TaskScheduler.advanceHop
  apply wp_requireTask_bind
  · rintro task htask rfl
    cases hfound : task.findRequest requestRef with
    | none => exact h
    | some record =>
      have hsent := h.sent_of_request htask (mem_of_findRequest hfound).1
      refine wp_bind_of (ends_onTask h ?_) ?_ fun _ _ hevolves => hevolves.sound
      · intro other hother _
        split
        · next advanced next hadvance => exact follows_advance h hother hadvance
        · exact h.follows_refl hother
      · rintro (_ | next) tree1 hevolves
        · apply wp_now_bind
          intro now tree2 hsame2
          have hgrows := hevolves.grows.trans hsame2.grows
          obtain ⟨task2, htask2, hkeeps⟩ := hgrows.tasks _ task htask
          have hsent2 := hgrows.sent _ task htask hsent
          rw [← hkeeps.id] at htask2 hsent2 ⊢
          exact sound_finishCapabilityRequest (hevolves.sound.same hsame2) htask2 hsent2 record .granted
            reason now fun _ _ => List.forall_mem_nil _
        · refine wp_bind_of (same_await _) ?_ fun _ _ hsame => hevolves.sound.same hsame
          intro _ tree2 hsame2
          exact hevolves.sound.same hsame2
  · intro e
    exact h

/-- To publish the request at hand keeps the invariant. -/
theorem sound_publishCurrentCapabilityHop (h : Sound m approved tree) (taskId requestId : String) :
    Ends (scheduler.publishCurrentCapabilityHop taskId requestId) (Sound m approved) tree := by
  unfold Ends TaskScheduler.publishCurrentCapabilityHop
  apply wp_requireTask_bind
  · rintro task htask rfl
    split
    · next record hop hfound hhop =>
      obtain ⟨hrecord, rfl⟩ := mem_of_findRequest hfound
      obtain ⟨path, hpath, hmem⟩ := mem_path_of_hop hfound hhop
      have hasked := h.requests task (OrderedMap.mem_of_get? htask) record hrecord
      obtain ⟨hgrantor, -⟩ := hasked.path path hpath hop hmem
      apply wp_requireTask_bind
      · rintro grantor - hid
        rw [← hid] at hgrantor
        apply wp_now_bind
        intro now tree1 hsame1
        have hsent1 : grantor.id ∉ tree1.unsent := by
          rw [hsame1.unsent]
          exact hgrantor.1
        exact wp_mono (ends_onBlock (h.same hsame1) hsent1) (fun _ _ hevolves => hevolves.sound)
          fun _ _ hevolves => hevolves.sound
      · intro e
        exact h
    · exact h
  · intro e
    exact h

/-- To go on after an await keeps the invariant. -/
theorem sound_resume (h : Sound m approved tree) (index : ℕ) :
    Ends (scheduler.resume index) (Sound m approved) tree := by
  unfold Ends TaskScheduler.resume
  rw [wp_bind, wp_get]
  split
  · exact h
  · next continuation _ =>
    rw [wp_bind, wp_set]
    have hsound : Sound m approved
        { tree with continuations := tree.continuations.eraseIdx index } := h.same ⟨rfl, rfl⟩
    cases continuation with
    | publishHop taskId requestId => exact sound_publishCurrentCapabilityHop hsound taskId requestId
    | advance taskId requestId reason =>
      exact wp_bind_of (sound_advanceHop hsound taskId requestId reason)
        (fun _ _ hsound' => hsound') fun _ _ hsound' => hsound'

end OsAgent.Authority
