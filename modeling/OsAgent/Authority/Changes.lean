import OsAgent.Authority.Invariant

/-!
# What the methods of a task do

One lemma for each method of a task that a step calls: the task after it follows the task before it
(`Follows`), if what is new is sound.
-/

namespace OsAgent.Authority

open OsAgent.Library OsAgent.Capability OsAgent.Kernel

variable {m : CapabilityManager} {approved : Approvals} {tree : TaskTree} {task : SchedulerTask}

/-- A child that has not been sent is not running, and has not asked for anything. -/
theorem Sound.idle (h : Sound m approved tree) (htask : tree.tasks.get? task.id = some task)
    (hunsent : task.id ∈ tree.unsent) :
    task.block.state.status ≠ .running ∧ task.capabilityRequests = [] := by
  obtain ⟨other, hother, -, hidle⟩ := h.unsent _ hunsent
  rw [htask, Option.some.injEq] at hother
  rw [hother]
  exact hidle

/-- A task that runs was sent. -/
theorem Sound.sent_of_running (h : Sound m approved tree)
    (htask : tree.tasks.get? task.id = some task) (hrunning : task.block.state.status = .running) :
    task.id ∉ tree.unsent :=
  fun hunsent => (h.idle htask hunsent).1 hrunning

/-- A task that has asked for something was sent. -/
theorem Sound.sent_of_request (h : Sound m approved tree)
    (htask : tree.tasks.get? task.id = some task) {record : CapabilityRequestRecord}
    (hrecord : record ∈ task.capabilityRequests) : task.id ∉ tree.unsent := by
  intro hunsent
  rw [(h.idle htask hunsent).2] at hrecord
  cases hrecord

/-- A task that was sent stays in its tree. -/
theorem stays_of_sent (htask : tree.tasks.get? task.id = some task) (hsent : task.id ∉ tree.unsent) :
    tree.Stays task.rootTaskId task.id :=
  ⟨hsent, task, htask, rfl⟩

/-- A request that is found is one of the task. -/
theorem mem_of_findRequest {requestId : String} {record : CapabilityRequestRecord}
    (h : task.findRequest requestId = some record) :
    record ∈ task.capabilityRequests ∧ record.requestId = requestId := by
  have hid := List.find?_some h
  rw [decide_eq_true_eq] at hid
  exact ⟨List.mem_of_find?_eq_some h, hid⟩

/-- A request is found under its identifier. -/
theorem Sound.findRequest (h : Sound m approved tree) (htask : tree.tasks.get? task.id = some task)
    {record : CapabilityRequestRecord} (hrecord : record ∈ task.capabilityRequests) :
    task.findRequest record.requestId = some record := by
  have hnodup := h.nodup task (OrderedMap.mem_of_get? htask)
  have hget := OrderedMap.get?_of_mem (m := ⟨task.capabilityRequests, hnodup⟩) hrecord
  exact hget

/-! ## The rest of the block -/

/-- A task follows itself with another block. -/
theorem follows_withBlock (block : TaskControlBlock)
    (hunsent : task.id ∈ tree.unsent → block.state.status ≠ .running ∧ task.capabilityRequests = []) :
    Follows m approved tree task (task.withBlock block) where
  id := rfl
  rootTaskId := rfl
  parentTaskId := rfl
  grants grant hgrant := ⟨grant, hgrant, rfl⟩
  requests record hrecord := ⟨record, hrecord, .refl record⟩
  held grant hgrant := .inl ⟨grant, hgrant, rfl⟩
  asked record hrecord := .inl ⟨record, hrecord, .refl record⟩
  nodup hnodup := hnodup
  unsent := hunsent

/-- A method that changes nothing. -/
theorem Sound.follows_refl (h : Sound m approved tree) (htask : tree.tasks.get? task.id = some task) :
    Follows m approved tree task task :=
  follows_withBlock task.block (h.idle htask)

/-! ## Grants -/

/-- A task follows itself after a tool was authorized. -/
theorem follows_authorizeTool (h : Sound m approved tree)
    (htask : tree.tasks.get? task.id = some task) (manager : CapabilityManager) (call : ToolCallRequest)
    (validation : Except String Unit) (required : List CapabilityRequest) (now : Timestamp) :
    Follows m approved tree task (task.authorizeTool manager call validation required now).2 where
  id := rfl
  rootTaskId := rfl
  parentTaskId := rfl
  grants _ hgrant := exists_unused unused_authorizeTool hgrant
  requests record hrecord := ⟨record, hrecord, .refl record⟩
  held grant hgrant := by
    obtain ⟨grant', hgrant', hsame⟩ := exists_unused unused_authorizeTool.symm hgrant
    exact .inl ⟨grant', hgrant', hsame.symm⟩
  asked record hrecord := .inl ⟨record, hrecord, .refl record⟩
  nodup hnodup := hnodup
  unsent := h.idle htask

/-- A task follows itself with grants that are within the root's. -/
theorem follows_withGrants (h : Sound m approved tree) (htask : tree.tasks.get? task.id = some task)
    {grants : List CapabilityGrant}
    (hgrants : ∀ grant ∈ grants, tree.Rooted task.rootTaskId grant.target ∧
      ¬ NeedsHuman m grant.capability) :
    Follows m approved tree task (task.withGrants grants) where
  id := rfl
  rootTaskId := rfl
  parentTaskId := rfl
  grants grant hgrant := ⟨grant, subset_addCapabilityGrants grants hgrant, rfl⟩
  requests record hrecord := ⟨record, hrecord, .refl record⟩
  held grant hgrant := by
    rcases mem_addCapabilityGrants hgrant with hgrant | hgrant
    · exact .inl ⟨grant, hgrant, rfl⟩
    · exact .inr ⟨(hgrants grant hgrant).1, fun _ hneeds => absurd hneeds (hgrants grant hgrant).2⟩
  asked record hrecord := .inl ⟨record, hrecord, .refl record⟩
  nodup hnodup := hnodup
  unsent := h.idle htask

/-! ## Requests -/

/-- A task follows itself with a further request. -/
theorem follows_register (hsent : task.id ∉ tree.unsent) {record : CapabilityRequestRecord}
    (hasked : tree.Asked m task.rootTaskId record)
    (hnew : ∀ other ∈ tree.tasks.entries, ∀ record' ∈ other.capabilityRequests,
      record'.requestId ≠ record.requestId)
    (htask : tree.tasks.get? task.id = some task) {task' : SchedulerTask}
    (h : task.registerCapabilityRequest record = .ok task') :
    Follows m approved tree task task' := by
  unfold SchedulerTask.registerCapabilityRequest at h
  split_ifs at h
  cases h
  refine ⟨⟨rfl, rfl, rfl, fun grant hgrant => ⟨grant, hgrant, rfl⟩, ?_⟩,
    fun grant hgrant => .inl ⟨grant, hgrant, rfl⟩, ?_, ?_, fun hunsent => absurd hunsent hsent⟩
  · intro record' hrecord'
    exact ⟨record', List.mem_append_left _ hrecord', .refl record'⟩
  · intro record' hrecord'
    rcases List.mem_append.mp hrecord' with hrecord' | hrecord'
    · exact .inl ⟨record', hrecord', .refl record'⟩
    · rw [List.mem_singleton.mp hrecord']
      exact .inr ⟨hasked, hnew⟩
  · intro hnodup
    rw [List.map_append, List.nodup_append]
    refine ⟨hnodup, List.nodup_singleton _, ?_⟩
    intro id hid id' hid' heq
    obtain ⟨record', hrecord', rfl⟩ := List.mem_map.mp hid
    rw [List.map_singleton, List.mem_singleton] at hid'
    exact hnew task (OrderedMap.mem_of_get? htask) record' hrecord' (heq.trans hid')

/-- The task gets grants, and a request of it goes on. -/
theorem follows_modify (h : Sound m approved tree) (htask : tree.tasks.get? task.id = some task)
    {requestId : String} {record : CapabilityRequestRecord}
    {change : CapabilityRequestRecord → CapabilityRequestRecord} (grants : List CapabilityGrant)
    (hfound : task.findRequest requestId = some record) (hchange : record.Continues (change record))
    (hgrants : ∀ grant ∈ grants, tree.Rooted task.rootTaskId grant.target ∧
      (grant.Executable → NeedsHuman m grant.capability →
        GivenByHuman approved ((task.withGrants grants).modifyRequest requestId change) grant)) :
    Follows m approved tree task ((task.withGrants grants).modifyRequest requestId change) := by
  obtain ⟨before, after, -, hsplit, -, hchanged⟩ := exists_modifyFirst (f := change) hfound
  -- Only the request of that identifier is changed.
  have hrequests : ((task.withGrants grants).modifyRequest requestId change).capabilityRequests =
      before ++ change record :: after := hchanged
  refine ⟨⟨rfl, rfl, rfl, ?_, ?_⟩, ?_, ?_, ?_, ?_⟩
  · intro grant hgrant
    exact ⟨grant, subset_addCapabilityGrants grants hgrant, rfl⟩
  · -- An old request is kept, or is the one that went on.
    intro record' hrecord'
    rw [hsplit] at hrecord'
    rw [hrequests]
    rcases List.mem_append.mp hrecord' with hrecord' | hrecord'
    · exact ⟨record', List.mem_append_left _ hrecord', .refl record'⟩
    · rcases List.mem_cons.mp hrecord' with rfl | hrecord'
      · exact ⟨change record', by simp, hchange⟩
      · exact ⟨record', by simp [hrecord'], .refl record'⟩
  · intro grant hgrant
    rcases mem_addCapabilityGrants hgrant with hgrant | hgrant
    · exact .inl ⟨grant, hgrant, rfl⟩
    · exact .inr (hgrants grant hgrant)
  · -- A new request is an old one, or the one that went on.
    intro record' hrecord'
    rw [hrequests] at hrecord'
    left
    rw [hsplit]
    rcases List.mem_append.mp hrecord' with hrecord' | hrecord'
    · exact ⟨record', List.mem_append_left _ hrecord', .refl record'⟩
    · rcases List.mem_cons.mp hrecord' with rfl | hrecord'
      · exact ⟨record, by simp, hchange⟩
      · exact ⟨record', by simp [hrecord'], .refl record'⟩
  · intro hnodup
    rw [hsplit, List.map_append, List.map_cons] at hnodup
    rw [hrequests, List.map_append, List.map_cons, hchange.requestId]
    exact hnodup
  · intro hunsent
    exact absurd hunsent (h.sent_of_request htask (mem_of_findRequest hfound).1)

/-- A request is continued when it is resolved. -/
theorem continues_resolve (record : CapabilityRequestRecord) (hpending : record.status = .pending)
    (status : CapabilityRequestStatus) (reason : Option String) (resolvedAt : Timestamp) :
    record.Continues (record.resolve status reason resolvedAt) where
  requestId := rfl
  requests := rfl
  route := rfl
  status hgranted := by
    rw [hpending] at hgranted
    cases hgranted
  path := rfl

/-- Advancing along a path changes which of its hops are granted, and nothing else of it. -/
theorem continues_advance {record advanced : CapabilityRequestRecord}
    {next : Option CapabilityDelegationHop} (h : record.advance = .ok (advanced, next)) :
    record.Continues advanced := by
  unfold CapabilityRequestRecord.advance at h
  split at h
  · -- The hop at the index is there.
    next path index hstatus hpath hindex =>
    split at h
    · next current hcurrent =>
      split_ifs at h
      have hset : ∀ (p : List CapabilityDelegationHop) (i : ℕ) (hop : CapabilityDelegationHop)
          (status : CapabilityHopStatus), p[i]? = some hop →
          hopTasks (p.set i { hop with status }) = hopTasks p := by
        intro p i hop status hhop
        unfold hopTasks
        obtain ⟨hi, rfl⟩ := List.getElem?_eq_some_iff.mp hhop
        rw [List.map_set]
        apply List.ext_getElem
        · rw [List.length_set]
        · intro k hk hk'
          rw [List.getElem_set]
          split_ifs with heq
          · subst heq
            rw [List.getElem_map]
          · rfl
      have hgranted := hset path index current .granted hcurrent
      -- There is a next hop, or the path has ended; either way the tasks of the hops stay.
      split at h
      · next following hfollowing =>
        cases h
        have hnext : (path.set index { current with status := .granted })[index + 1]? =
            some following := by
          rw [List.getElem?_set_ne (by omega)]
          exact hfollowing
        refine ⟨rfl, rfl, rfl, id, ?_⟩
        rw [hpath]
        exact congrArg some ((hset _ _ following .pending hnext).trans hgranted)
      · cases h
        refine ⟨rfl, rfl, rfl, id, ?_⟩
        rw [hpath]
        exact congrArg some hgranted
    · cases h
  · cases h

/-- A task follows itself when a request goes on along its path. -/
theorem follows_advance (h : Sound m approved tree) (htask : tree.tasks.get? task.id = some task)
    {requestId : String} {task' : SchedulerTask} {next : Option CapabilityDelegationHop}
    (hadvance : task.advanceCapabilityDelegation requestId = .ok (task', next)) :
    Follows m approved tree task task' := by
  unfold SchedulerTask.advanceCapabilityDelegation at hadvance
  split at hadvance
  · cases hadvance
  · next record hfound =>
    obtain ⟨⟨advanced, next'⟩, hrecord, hadvance⟩ := bind_eq_ok.mp hadvance
    cases hadvance
    exact follows_modify h htask [] hfound (continues_advance hrecord)
      (List.forall_mem_nil _)

/-- A task follows itself when its requests are denied. -/
theorem follows_deny (h : Sound m approved tree) (htask : tree.tasks.get? task.id = some task)
    (reason : String) (resolvedAt : Timestamp) :
    Follows m approved tree task (task.denyPendingCapabilityRequests reason resolvedAt) := by
  -- A pending request is resolved as denied; another one stays.
  have hcontinues : ∀ record : CapabilityRequestRecord,
      record.Continues (record.denyPending reason resolvedAt) := by
    intro record
    unfold CapabilityRequestRecord.denyPending
    split_ifs with hpending
    · exact continues_resolve record hpending .denied _ _
    · exact .refl record
  refine ⟨⟨rfl, rfl, rfl, fun grant hgrant => ⟨grant, hgrant, rfl⟩, ?_⟩,
    fun grant hgrant => .inl ⟨grant, hgrant, rfl⟩, ?_, ?_, ?_⟩
  · intro record hrecord
    exact ⟨_, List.mem_map_of_mem hrecord, hcontinues record⟩
  · intro record' hrecord'
    obtain ⟨record, hrecord, rfl⟩ := List.mem_map.mp hrecord'
    exact .inl ⟨record, hrecord, hcontinues record⟩
  · intro hnodup
    have hids : (task.denyPendingCapabilityRequests reason resolvedAt).capabilityRequests.map
        CapabilityRequestRecord.requestId =
          task.capabilityRequests.map CapabilityRequestRecord.requestId := by
      show (task.capabilityRequests.map _).map _ = _
      rw [List.map_map]
      exact List.map_congr_left fun record _ => (hcontinues record).requestId
    rw [hids]
    exact hnodup
  · intro hunsent
    obtain ⟨hrunning, hrequests⟩ := h.idle htask hunsent
    refine ⟨hrunning, ?_⟩
    show task.capabilityRequests.map _ = []
    rw [hrequests, List.map_nil]

/-- A resolution that grants gives what the request asks for. -/
theorem follows_resolve (h : Sound m approved tree) (htask : tree.tasks.get? task.id = some task)
    {requestId : String} {status : CapabilityRequestStatus} {grants : List CapabilityGrant}
    {reason : Option String} {resolvedAt : Timestamp}
    (hgrants : ∀ record, task.findRequest requestId = some record → record.status = .pending →
      ∀ grant ∈ grants, grant.subjectTaskId = task.id ∧ tree.Rooted task.rootTaskId grant.target ∧
        (NeedsHuman m grant.capability → grant.source = .human requestId ∧ record.route = .human ∧
          (task.id, requestId) ∈ approved ∧
          grant.target ∈ record.requests.map CapabilityRequest.target)) :
    Follows m approved tree task
      (task.resolveCapabilityRequest requestId status grants reason resolvedAt).2 := by
  unfold SchedulerTask.resolveCapabilityRequest
  split
  · exact h.follows_refl htask
  · next record hfound =>
    split_ifs with hpending hstatus hnone
    · exact h.follows_refl htask
    · -- The request is pending, so its grants are looked at.
      rw [not_not] at hpending
      have hgrants' := hgrants record hfound hpending
      have hok := addCapabilityGrants_ok task.capabilityGrants
        fun grant hgrant => (hgrants' grant hgrant).1
      have hadd : task.addCapabilityGrants grants = (.ok (), task.withGrants grants) := by
        unfold SchedulerTask.addCapabilityGrants
        rw [hok]
        rfl
      rw [hadd]
      have hcontinues := continues_resolve record hpending status reason resolvedAt
      refine follows_modify h htask grants hfound hcontinues ?_
      -- A grant for a human's capability names the request that is now granted.
      intro grant hgrant
      obtain ⟨-, hrooted, hhuman⟩ := hgrants' grant hgrant
      refine ⟨hrooted, ?_⟩
      intro _ hneeds
      obtain ⟨hsource, hroute, happroved, htarget⟩ := hhuman hneeds
      obtain ⟨before, after, -, -, -, hchanged⟩ := exists_modifyFirst
        (f := fun record => record.resolve status reason resolvedAt) hfound
      obtain ⟨-, hid⟩ := mem_of_findRequest hfound
      refine ⟨record.resolve status reason resolvedAt, ?_, ?_, hroute, hstatus, ?_, htarget⟩
      · show _ ∈ modifyFirst _ _ task.capabilityRequests
        rw [hchanged]
        simp
      · show grant.source = .human record.requestId
        rw [hid]
        exact hsource
      · show (task.id, record.requestId) ∈ approved
        rw [hid]
        exact happroved
    · exact h.follows_refl htask
    · rw [not_not] at hpending
      exact follows_modify h htask [] hfound
        (continues_resolve record hpending status reason resolvedAt) (List.forall_mem_nil _)

end OsAgent.Authority
