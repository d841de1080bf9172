import OsAgent.Authority.TaskTree
import OsAgent.Capability.Sources

/-!
# What holds of the authority in a tree

`Sound` is what every step keeps: whatever a task holds is within a grant that the host issued to the
root of its tree (`Rooted`), and whatever needs a human and can be executed on was given by a human to
that very task (`GivenByHuman`). For that, what a task asks for has to be within its tree too, and a
planned path must not leave it.

A step changes a task (`Follows`), registers one, or takes one back that has not been sent. One lemma for
each says that `Sound` is kept.
-/

namespace OsAgent.Authority

open OsAgent.Library OsAgent.Capability OsAgent.Kernel

/-- The requests that a human approved, with the tasks that made them. -/
abbrev Approvals := List (String × String)

/-! ## The invariant -/

/-- The host issued a grant to the root of the tree that is for this. -/
def TaskTree.Rooted (tree : TaskTree) (rootTaskId : String) (target : String × ResourceScope) : Prop :=
  ∃ root, tree.tasks.get? rootTaskId = some root ∧ root.parentTaskId = none ∧
    ∃ grant ∈ root.capabilityGrants, grant.source = .root ∧ Contains grant.target target

/-- A task of a tree that is not taken back any more. -/
def TaskTree.Stays (tree : TaskTree) (rootTaskId taskId : String) : Prop :=
  taskId ∉ tree.unsent ∧ ∃ task, tree.tasks.get? taskId = some task ∧ task.rootTaskId = rootTaskId

/-- A human approved a request of this task for what the grant is for. -/
def GivenByHuman (approved : Approvals) (task : SchedulerTask) (grant : CapabilityGrant) : Prop :=
  ∃ record ∈ task.capabilityRequests, grant.source = .human record.requestId ∧
    record.route = .human ∧ record.status = .granted ∧ (task.id, record.requestId) ∈ approved ∧
    grant.target ∈ record.requests.map CapabilityRequest.target

/-- What a task asked for is within its tree, and so is the path along which it is granted. -/
structure TaskTree.Asked (m : CapabilityManager) (tree : TaskTree) (rootTaskId : String)
    (record : CapabilityRequestRecord) : Prop where
  normal : NormalForm m record.requests
  human : record.route = .human → ∀ request ∈ record.requests, tree.Rooted rootTaskId request.target
  path : ∀ path ∈ record.delegationPath, ∀ hop ∈ path,
    tree.Stays rootTaskId hop.grantorTaskId ∧ tree.Stays rootTaskId hop.granteeTaskId

/-- A grant is within the tree, and if it needs a human, a human gave it. -/
structure TaskTree.Held (m : CapabilityManager) (approved : Approvals) (tree : TaskTree)
    (task : SchedulerTask) (grant : CapabilityGrant) : Prop where
  rooted : tree.Rooted task.rootTaskId grant.target
  human : grant.Executable → NeedsHuman m grant.capability → GivenByHuman approved task grant

/-- The invariant: what holds of the grants, the requests and the parents in a tree. -/
structure Sound (m : CapabilityManager) (approved : Approvals) (tree : TaskTree) : Prop where
  grants : ∀ task ∈ tree.tasks.entries, ∀ grant ∈ task.capabilityGrants,
    tree.Held m approved task grant
  requests : ∀ task ∈ tree.tasks.entries, ∀ record ∈ task.capabilityRequests,
    tree.Asked m task.rootTaskId record
  parents : ∀ task ∈ tree.tasks.entries, ∀ parentTaskId ∈ task.parentTaskId,
    tree.Stays task.rootTaskId parentTaskId
  /-- A child that has not been sent has neither run nor asked for anything. -/
  unsent : ∀ taskId ∈ tree.unsent, ∃ task, tree.tasks.get? taskId = some task ∧
    task.parentTaskId ≠ none ∧ task.block.state.status ≠ .running ∧ task.capabilityRequests = []
  /-- A request is that of one task. -/
  unique : ∀ task ∈ tree.tasks.entries, ∀ task' ∈ tree.tasks.entries,
    ∀ record ∈ task.capabilityRequests, ∀ record' ∈ task'.capabilityRequests,
    record.requestId = record'.requestId → task.id = task'.id
  nodup : ∀ task ∈ tree.tasks.entries,
    (task.capabilityRequests.map CapabilityRequestRecord.requestId).Nodup

/-! ## What a step leaves of a task -/

/-- The tasks that take part in a path. -/
def hopTasks (path : List CapabilityDelegationHop) : List (String × String) :=
  path.map fun hop => (hop.grantorTaskId, hop.granteeTaskId)

/-- A request, and the same one later. -/
structure CapabilityRequestRecord.Continues (record later : CapabilityRequestRecord) : Prop where
  requestId : later.requestId = record.requestId
  requests : later.requests = record.requests
  route : later.route = record.route
  status : record.status = .granted → later.status = .granted
  path : later.delegationPath.map hopTasks = record.delegationPath.map hopTasks

/-- A request continues itself. -/
theorem CapabilityRequestRecord.Continues.refl (record : CapabilityRequestRecord) :
    record.Continues record :=
  ⟨rfl, rfl, rfl, id, rfl⟩

/-- What continues twice continues. -/
theorem CapabilityRequestRecord.Continues.trans {record later last : CapabilityRequestRecord}
    (h : record.Continues later) (h' : later.Continues last) : record.Continues last :=
  ⟨h'.requestId.trans h.requestId, h'.requests.trans h.requests, h'.route.trans h.route,
    fun hstatus => h'.status (h.status hstatus), h'.path.trans h.path⟩

/-- Grants that differ in their use are for the same. -/
theorem eq_target_of_unused {grant grant' : CapabilityGrant} (h : grant'.unused = grant.unused) :
    grant'.target = grant.target := by
  have heq := congrArg CapabilityGrant.target h
  exact heq

/-- Grants that differ in their use have the same source. -/
theorem eq_source_of_unused {grant grant' : CapabilityGrant} (h : grant'.unused = grant.unused) :
    grant'.source = grant.source := by
  have heq := congrArg CapabilityGrant.source h
  exact heq

/-- Grants that differ in their use serve the same. -/
theorem executable_of_unused {grant grant' : CapabilityGrant} (h : grant'.unused = grant.unused) :
    grant'.Executable ↔ grant.Executable := by
  have hexecution := congrArg CapabilityGrant.execution h
  unfold CapabilityGrant.Executable
  rw [show grant'.execution = grant.execution from hexecution]

/-- A task, and the same one later: nothing that it holds or has asked for is gone. -/
structure SchedulerTask.Keeps (task task' : SchedulerTask) : Prop where
  id : task'.id = task.id
  rootTaskId : task'.rootTaskId = task.rootTaskId
  parentTaskId : task'.parentTaskId = task.parentTaskId
  grants : ∀ grant ∈ task.capabilityGrants, ∃ grant' ∈ task'.capabilityGrants,
    grant'.unused = grant.unused
  requests : ∀ record ∈ task.capabilityRequests, ∃ record' ∈ task'.capabilityRequests,
    record.Continues record'

/-- A task keeps itself. -/
theorem SchedulerTask.Keeps.refl (task : SchedulerTask) : task.Keeps task :=
  ⟨rfl, rfl, rfl, fun grant hgrant => ⟨grant, hgrant, rfl⟩,
    fun record hrecord => ⟨record, hrecord, .refl record⟩⟩

/-- What is kept twice is kept. -/
theorem SchedulerTask.Keeps.trans {task task' task'' : SchedulerTask} (h : task.Keeps task')
    (h' : task'.Keeps task'') : task.Keeps task'' := by
  refine ⟨h'.id.trans h.id, h'.rootTaskId.trans h.rootTaskId, h'.parentTaskId.trans h.parentTaskId,
    ?_, ?_⟩
  · intro grant hgrant
    obtain ⟨grant', hgrant', heq⟩ := h.grants grant hgrant
    obtain ⟨grant'', hgrant'', heq'⟩ := h'.grants grant' hgrant'
    exact ⟨grant'', hgrant'', heq'.trans heq⟩
  · intro record hrecord
    obtain ⟨record', hrecord', hcontinues⟩ := h.requests record hrecord
    obtain ⟨record'', hrecord'', hcontinues'⟩ := h'.requests record' hrecord'
    exact ⟨record'', hrecord'', hcontinues.trans hcontinues'⟩

/-! ## What a step leaves of a tree -/

/-- The tasks of the tree are still in it, and those that were sent are so. -/
structure TaskTree.Grows (tree tree' : TaskTree) : Prop where
  sent : ∀ taskId task, tree.tasks.get? taskId = some task → taskId ∉ tree.unsent →
    taskId ∉ tree'.unsent
  tasks : ∀ taskId task, tree.tasks.get? taskId = some task →
    ∃ task', tree'.tasks.get? taskId = some task' ∧ task.Keeps task'

section Grows

variable {tree tree' tree'' : TaskTree} {rootTaskId taskId : String}

/-- A tree grows into itself. -/
theorem TaskTree.Grows.refl (tree : TaskTree) : tree.Grows tree :=
  ⟨fun _ _ _ hsent => hsent, fun _ task htask => ⟨task, htask, .refl task⟩⟩

/-- What grows twice grows. -/
theorem TaskTree.Grows.trans (h : tree.Grows tree') (h' : tree'.Grows tree'') :
    tree.Grows tree'' := by
  constructor
  · intro taskId task htask hsent
    obtain ⟨task', htask', -⟩ := h.tasks taskId task htask
    exact h'.sent taskId task' htask' (h.sent taskId task htask hsent)
  intro taskId task htask
  obtain ⟨task', htask', hkeeps⟩ := h.tasks taskId task htask
  obtain ⟨task'', htask'', hkeeps'⟩ := h'.tasks taskId task' htask'
  exact ⟨task'', htask'', hkeeps.trans hkeeps'⟩

/-- What the root was issued it was issued in a later tree. -/
theorem TaskTree.Rooted.mono {target : String × ResourceScope} (h : tree.Rooted rootTaskId target)
    (hgrows : tree.Grows tree') : tree'.Rooted rootTaskId target := by
  obtain ⟨root, hroot, hparent, grant, hgrant, hsource, hcontains⟩ := h
  obtain ⟨root', hroot', hkeeps⟩ := hgrows.tasks _ root hroot
  obtain ⟨grant', hgrant', hsame⟩ := hkeeps.grants grant hgrant
  refine ⟨root', hroot', hkeeps.parentTaskId.trans hparent, grant', hgrant', ?_, ?_⟩
  · rw [eq_source_of_unused hsame, hsource]
  · rw [eq_target_of_unused hsame]
    exact hcontains

/-- What a contained grant is for is within the tree. -/
theorem TaskTree.Rooted.contains {granted requested : String × ResourceScope}
    (h : tree.Rooted rootTaskId granted) (hcontains : Contains granted requested) :
    tree.Rooted rootTaskId requested := by
  obtain ⟨root, hroot, hparent, grant, hgrant, hsource, hwithin⟩ := h
  exact ⟨root, hroot, hparent, grant, hgrant, hsource, hwithin.trans hcontains⟩

/-- A task that stays does so in a later tree. -/
theorem TaskTree.Stays.mono (h : tree.Stays rootTaskId taskId) (hgrows : tree.Grows tree') :
    tree'.Stays rootTaskId taskId := by
  obtain ⟨hsent, task, htask, hroot⟩ := h
  obtain ⟨task', htask', hkeeps⟩ := hgrows.tasks _ task htask
  exact ⟨hgrows.sent _ task htask hsent, task', htask', hkeeps.rootTaskId.trans hroot⟩

/-- What was approved was so for the later task. -/
theorem GivenByHuman.mono {approved : Approvals} {task task' : SchedulerTask}
    {grant grant' : CapabilityGrant} (h : GivenByHuman approved task grant)
    (hkeeps : task.Keeps task') (hsame : grant'.unused = grant.unused) :
    GivenByHuman approved task' grant' := by
  obtain ⟨record, hrecord, hsource, hroute, hstatus, happroved, htarget⟩ := h
  obtain ⟨record', hrecord', hcontinues⟩ := hkeeps.requests record hrecord
  refine ⟨record', hrecord', ?_, hcontinues.route.trans hroute, hcontinues.status hstatus, ?_, ?_⟩
  · rw [eq_source_of_unused hsame, hcontinues.requestId, hsource]
  · rw [hkeeps.id, hcontinues.requestId]
    exact happroved
  · rw [eq_target_of_unused hsame, hcontinues.requests]
    exact htarget

/-- What was asked for was so in a later tree. -/
theorem TaskTree.Asked.mono {m : CapabilityManager} {record record' : CapabilityRequestRecord}
    (h : tree.Asked m rootTaskId record) (hgrows : tree.Grows tree')
    (hcontinues : record.Continues record') : tree'.Asked m rootTaskId record' := by
  refine ⟨?_, ?_, ?_⟩
  · rw [hcontinues.requests]
    exact h.normal
  · intro hroute request hrequest
    rw [hcontinues.route] at hroute
    rw [hcontinues.requests] at hrequest
    exact (h.human hroute request hrequest).mono hgrows
  · intro path' hpath' hop' hhop'
    obtain ⟨path, hpath, hsame⟩ : ∃ path ∈ record.delegationPath, hopTasks path = hopTasks path' := by
      have hmap := hcontinues.path
      rw [Option.mem_def.mp hpath', Option.map_some] at hmap
      exact Option.map_eq_some_iff.mp hmap.symm
    have hmem : (hop'.grantorTaskId, hop'.granteeTaskId) ∈ hopTasks path := by
      rw [hsame]
      exact List.mem_map_of_mem hhop'
    obtain ⟨hop, hhop, heq⟩ := List.mem_map.mp hmem
    obtain ⟨hgrantor, hgrantee⟩ := Prod.mk.inj heq
    obtain ⟨hstays, hstays'⟩ := h.path path hpath hop hhop
    rw [← hgrantor, ← hgrantee]
    exact ⟨hstays.mono hgrows, hstays'.mono hgrows⟩

end Grows

/-! ## A task changes -/

/-- What a step does to a task. What is new of its grants and requests is sound. -/
structure Follows (m : CapabilityManager) (approved : Approvals) (tree : TaskTree)
    (task task' : SchedulerTask) : Prop extends task.Keeps task' where
  held : ∀ grant' ∈ task'.capabilityGrants,
    (∃ grant ∈ task.capabilityGrants, grant'.unused = grant.unused) ∨
      tree.Rooted task.rootTaskId grant'.target ∧
        (grant'.Executable → NeedsHuman m grant'.capability → GivenByHuman approved task' grant')
  asked : ∀ record' ∈ task'.capabilityRequests,
    (∃ record ∈ task.capabilityRequests, record.Continues record') ∨
      tree.Asked m task.rootTaskId record' ∧ ∀ other ∈ tree.tasks.entries,
        ∀ record ∈ other.capabilityRequests, record.requestId ≠ record'.requestId
  nodup : (task.capabilityRequests.map CapabilityRequestRecord.requestId).Nodup →
    (task'.capabilityRequests.map CapabilityRequestRecord.requestId).Nodup
  unsent : task.id ∈ tree.unsent →
    task'.block.state.status ≠ .running ∧ task'.capabilityRequests = []

section Follows

variable {m : CapabilityManager} {approved : Approvals} {tree : TaskTree}
  {task task' : SchedulerTask}

/-- To set a task leaves the others alone. -/
theorem get?_setTask (tree : TaskTree) (task : SchedulerTask) (taskId : String) :
    (tree.setTask task).tasks.get? taskId =
      if taskId = task.id then some task else tree.tasks.get? taskId :=
  OrderedMap.get?_insert _ _ _

/-- A tree grows when a task is set that keeps what it was. -/
theorem grows_setTask (htask : tree.tasks.get? task.id = some task) (h : task.Keeps task') :
    tree.Grows (tree.setTask task') := by
  refine ⟨fun _ _ _ hsent => hsent, ?_⟩
  intro taskId other hother
  rw [get?_setTask]
  split_ifs with hid
  · rw [h.id] at hid
    rw [hid, htask, Option.some.injEq] at hother
    rw [← hother]
    exact ⟨task', rfl, h⟩
  · exact ⟨other, hother, .refl other⟩

/-- A task of the tree after the change is the changed one, or was there. -/
theorem mem_setTask {other : SchedulerTask} (h : other ∈ (tree.setTask task').tasks.entries) :
    other = task' ∨ other ∈ tree.tasks.entries ∧ other.id ≠ task'.id := by
  have hget := OrderedMap.get?_of_mem h
  rw [get?_setTask] at hget
  split_ifs at hget with hid
  · rw [Option.some.injEq] at hget
    exact .inl hget.symm
  · exact .inr ⟨OrderedMap.mem_of_get? hget, hid⟩

/-- Where a request of the tree after the change comes from: a task that had it, or the changed task, if
the request is new. -/
theorem Follows.origin (htask : tree.tasks.get? task.id = some task)
    (h : Follows m approved tree task task') {other : SchedulerTask} {record : CapabilityRequestRecord}
    (hother : other ∈ (tree.setTask task').tasks.entries) (hrecord : record ∈ other.capabilityRequests) :
    (∃ before ∈ tree.tasks.entries, ∃ record' ∈ before.capabilityRequests,
        before.id = other.id ∧ record'.requestId = record.requestId) ∨
      other.id = task.id ∧ ∀ before ∈ tree.tasks.entries, ∀ record' ∈ before.capabilityRequests,
        record'.requestId ≠ record.requestId := by
  rcases mem_setTask hother with rfl | ⟨hother, -⟩
  · rcases h.asked record hrecord with ⟨record', hrecord', hcontinues⟩ | ⟨-, hnew⟩
    · exact .inl ⟨task, OrderedMap.mem_of_get? htask, record', hrecord', h.id.symm,
        hcontinues.requestId.symm⟩
    · exact .inr ⟨h.id, hnew⟩
  · exact .inl ⟨other, hother, record, hrecord, rfl, rfl⟩

/-- The invariant is kept when a task follows. -/
theorem Sound.setTask (h : Sound m approved tree) (htask : tree.tasks.get? task.id = some task)
    (hfollows : Follows m approved tree task task') : Sound m approved (tree.setTask task') := by
  have hmem := OrderedMap.mem_of_get? htask
  have hgrows := grows_setTask htask hfollows.toKeeps
  refine ⟨?_, ?_, ?_, ?_, ?_, ?_⟩
  · -- The grants: of the task itself they follow its old ones, or are given by a human.
    intro other hother grant hgrant
    rcases mem_setTask hother with rfl | ⟨hother, -⟩
    · rcases hfollows.held grant hgrant with ⟨grant', hgrant', hsame⟩ | ⟨hrooted, hhuman⟩
      · have hheld := h.grants task hmem grant' hgrant'
        constructor
        · rw [hfollows.rootTaskId, eq_target_of_unused hsame]
          exact hheld.rooted.mono hgrows
        · intro hexecutable hneeds
          have hcapability : grant.capability = grant'.capability :=
            congrArg Prod.fst (eq_target_of_unused hsame)
          rw [hcapability] at hneeds
          exact (hheld.human ((executable_of_unused hsame).mp hexecutable) hneeds).mono
            hfollows.toKeeps hsame
      · refine ⟨?_, hhuman⟩
        rw [hfollows.rootTaskId]
        exact hrooted.mono hgrows
    · have hheld := h.grants other hother grant hgrant
      exact ⟨hheld.rooted.mono hgrows, hheld.human⟩
  · -- The requests: each goes on from one that was there, or was asked now.
    intro other hother record hrecord
    rcases mem_setTask hother with rfl | ⟨hother, -⟩
    · rw [hfollows.rootTaskId]
      rcases hfollows.asked record hrecord with ⟨record', hrecord', hcontinues⟩ | ⟨hasked, -⟩
      · exact (h.requests task hmem record' hrecord').mono hgrows hcontinues
      · exact hasked.mono hgrows (.refl record)
    · exact (h.requests other hother record hrecord).mono hgrows (.refl record)
  · intro other hother parentTaskId hparent
    rcases mem_setTask hother with rfl | ⟨hother, -⟩
    · rw [hfollows.rootTaskId]
      rw [hfollows.parentTaskId] at hparent
      exact (h.parents task hmem parentTaskId hparent).mono hgrows
    · exact (h.parents other hother parentTaskId hparent).mono hgrows
  · -- A task that waits to be sent has neither run nor asked.
    intro taskId hunsent
    obtain ⟨other, hother, hparent, hrunning, hrequests⟩ := h.unsent taskId hunsent
    rw [get?_setTask]
    split_ifs with hid
    · rw [hid, hfollows.id, htask, Option.some.injEq] at hother
      have hin : task.id ∈ tree.unsent := by
        rw [← hfollows.id, ← hid]
        exact hunsent
      obtain ⟨hrunning', hrequests'⟩ := hfollows.unsent hin
      refine ⟨task', rfl, ?_, hrunning', hrequests'⟩
      rw [hfollows.parentTaskId, hother]
      exact hparent
    · exact ⟨other, hother, hparent, hrunning, hrequests⟩
  · -- The identifiers of requests stay unique: a new one was never used.
    intro other hother other' hother' record hrecord record' hrecord' heq
    rcases hfollows.origin htask hother hrecord with ⟨before, hbefore, r, hr, hid, hrid⟩ | ⟨hid, hnew⟩
    · rcases hfollows.origin htask hother' hrecord' with
        ⟨before', hbefore', r', hr', hid', hrid'⟩ | ⟨-, hnew'⟩
      · rw [← hid, ← hid']
        exact h.unique before hbefore before' hbefore' r hr r' hr' (by rw [hrid, hrid', heq])
      · exact absurd (hrid.trans heq) (hnew' before hbefore r hr)
    · rcases hfollows.origin htask hother' hrecord' with
        ⟨before', hbefore', r', hr', -, hrid'⟩ | ⟨hid', -⟩
      · exact absurd (hrid'.trans heq.symm) (hnew before' hbefore' r' hr')
      · rw [hid, hid']
  · intro other hother
    rcases mem_setTask hother with rfl | ⟨hother, -⟩
    · exact hfollows.nodup (h.nodup task hmem)
    · exact h.nodup other hother

end Follows

/-! ## Tasks come and go -/

section Registration

variable {m : CapabilityManager} {approved : Approvals} {tree : TaskTree} {task : SchedulerTask}

/-- The trees have the same tasks, and the same of them have been sent. -/
structure TaskTree.Same (tree tree' : TaskTree) : Prop where
  tasks : tree'.tasks = tree.tasks
  unsent : tree'.unsent = tree.unsent

/-- A tree is the same as itself. -/
theorem TaskTree.Same.refl (tree : TaskTree) : tree.Same tree := ⟨rfl, rfl⟩

/-- What is the same twice is the same. -/
theorem TaskTree.Same.trans {tree' tree'' : TaskTree} (h : tree.Same tree') (h' : tree'.Same tree'') :
    tree.Same tree'' :=
  ⟨h'.tasks.trans h.tasks, h'.unsent.trans h.unsent⟩

/-- A tree with the same tasks is a later one. -/
theorem TaskTree.Same.grows {tree' : TaskTree} (h : tree.Same tree') : tree.Grows tree' := by
  constructor
  · intro taskId other _ hsent
    rw [h.unsent]
    exact hsent
  · intro taskId other hother
    rw [h.tasks]
    exact ⟨other, hother, .refl other⟩

/-- The invariant is about the tasks, and about what is unsent of them. -/
theorem Sound.same (h : Sound m approved tree) {tree' : TaskTree} (hsame : tree.Same tree') :
    Sound m approved tree' := by
  have hgrows := hsame.grows
  constructor
  · intro other hother grant hgrant
    rw [hsame.tasks] at hother
    have hheld := h.grants other hother grant hgrant
    exact ⟨hheld.rooted.mono hgrows, hheld.human⟩
  · intro other hother record hrecord
    rw [hsame.tasks] at hother
    exact (h.requests other hother record hrecord).mono hgrows (.refl record)
  · intro other hother parentTaskId hparent
    rw [hsame.tasks] at hother
    exact (h.parents other hother parentTaskId hparent).mono hgrows
  · rw [hsame.tasks, hsame.unsent]
    exact h.unsent
  · rw [hsame.tasks]
    exact h.unique
  · rw [hsame.tasks]
    exact h.nodup

/-- Further approvals keep the invariant. -/
theorem Sound.approve (h : Sound m approved tree) (more : Approvals) :
    Sound m (approved ++ more) tree := by
  refine ⟨?_, h.requests, h.parents, h.unsent, h.unique, h.nodup⟩
  intro task htask grant hgrant
  refine ⟨(h.grants task htask grant hgrant).rooted, ?_⟩
  intro hexecutable hneeds
  obtain ⟨record, hrecord, hsource, hroute, hstatus, happroved, htarget⟩ :=
    (h.grants task htask grant hgrant).human hexecutable hneeds
  exact ⟨record, hrecord, hsource, hroute, hstatus, List.mem_append_left _ happroved, htarget⟩

/-- The tree with one task more. -/
def TaskTree.register (tree : TaskTree) (task : SchedulerTask) (unsent : List String) : TaskTree :=
  { tree with tasks := tree.tasks.insert task, unsent := tree.unsent ++ unsent }

/-- To register a task leaves the others alone. -/
theorem get?_register (tree : TaskTree) (task : SchedulerTask) (unsent : List String)
    (taskId : String) : (tree.register task unsent).tasks.get? taskId =
      if taskId = task.id then some task else tree.tasks.get? taskId :=
  OrderedMap.get?_insert _ _ _

/-- A tree grows when a new task is registered. -/
theorem grows_register (hnew : tree.tasks.get? task.id = none) {unsent : List String}
    (hunsent : ∀ taskId ∈ unsent, taskId = task.id) : tree.Grows (tree.register task unsent) := by
  constructor
  · intro taskId other hother hsent hmem
    rcases List.mem_append.mp hmem with hmem | hmem
    · exact hsent hmem
    · rw [hunsent taskId hmem, hnew] at hother
      cases hother
  · intro taskId other hother
    rw [get?_register]
    split_ifs with hid
    · rw [hid, hnew] at hother
      cases hother
    · exact ⟨other, hother, .refl other⟩

/-- The invariant is kept when a task is registered that has not asked for anything. -/
theorem Sound.register (h : Sound m approved tree) (hnew : tree.tasks.get? task.id = none)
    (hrequests : task.capabilityRequests = []) {unsent : List String}
    (hunsent : ∀ taskId ∈ unsent, taskId = task.id ∧ task.parentTaskId ≠ none ∧
      task.block.state.status ≠ .running)
    (hparent : ∀ parentTaskId ∈ task.parentTaskId, tree.Stays task.rootTaskId parentTaskId)
    (hgrants : ∀ grant ∈ task.capabilityGrants,
      (tree.register task unsent).Rooted task.rootTaskId grant.target ∧
        (grant.Executable → ¬ NeedsHuman m grant.capability)) :
    Sound m approved (tree.register task unsent) := by
  have hgrows := grows_register hnew fun taskId htaskId => (hunsent taskId htaskId).1
  have hmem : ∀ other ∈ (tree.register task unsent).tasks.entries,
      other = task ∨ other ∈ tree.tasks.entries := by
    intro other hother
    exact OrderedMap.mem_entries_insert hother
  refine ⟨?_, ?_, ?_, ?_, ?_, ?_⟩
  · -- The task that is registered has grants within the tree, and has not asked for anything.
    intro other hother grant hgrant
    rcases hmem other hother with rfl | hother
    · refine ⟨(hgrants grant hgrant).1, ?_⟩
      intro hexecutable hneeds
      exact absurd hneeds ((hgrants grant hgrant).2 hexecutable)
    · have hheld := h.grants other hother grant hgrant
      exact ⟨hheld.rooted.mono hgrows, hheld.human⟩
  · intro other hother record hrecord
    rcases hmem other hother with rfl | hother
    · rw [hrequests] at hrecord
      cases hrecord
    · exact (h.requests other hother record hrecord).mono hgrows (.refl record)
  · intro other hother parentTaskId hparentTaskId
    rcases hmem other hother with rfl | hother
    · exact (hparent parentTaskId hparentTaskId).mono hgrows
    · exact (h.parents other hother parentTaskId hparentTaskId).mono hgrows
  · -- Who waits to be sent: the tasks of before, and those named now.
    intro taskId htaskId
    rw [get?_register]
    rcases List.mem_append.mp htaskId with htaskId | htaskId
    · obtain ⟨other, hother, hrest⟩ := h.unsent taskId htaskId
      rw [if_neg]
      · exact ⟨other, hother, hrest⟩
      · intro hid
        rw [hid, hnew] at hother
        cases hother
    · obtain ⟨hid, hchild, hrunning⟩ := hunsent taskId htaskId
      rw [if_pos hid]
      exact ⟨task, rfl, hchild, hrunning, hrequests⟩
  · intro other hother other' hother' record hrecord record' hrecord'
    rcases hmem other hother with rfl | hother
    · rw [hrequests] at hrecord
      cases hrecord
    · rcases hmem other' hother' with rfl | hother'
      · rw [hrequests] at hrecord'
        cases hrecord'
      · exact h.unique other hother other' hother' record hrecord record' hrecord'
  · intro other hother
    rcases hmem other hother with rfl | hother
    · rw [hrequests]
      exact List.nodup_nil
    · exact h.nodup other hother

/-- The tree when a child has been sent. -/
def TaskTree.send (tree : TaskTree) (childTaskId : String) : TaskTree :=
  { tree with unsent := tree.unsent.filter (· ≠ childTaskId) }

/-- The invariant is kept when a child is sent. -/
theorem Sound.send (h : Sound m approved tree) (childTaskId : String) :
    Sound m approved (tree.send childTaskId) := by
  have hgrows : tree.Grows (tree.send childTaskId) := by
    constructor
    · intro taskId other _ hsent hmem
      exact hsent (List.mem_filter.mp hmem).1
    · intro taskId other hother
      exact ⟨other, hother, .refl other⟩
  refine ⟨?_, ?_, ?_, ?_, h.unique, h.nodup⟩
  · intro other hother grant hgrant
    have hheld := h.grants other hother grant hgrant
    exact ⟨hheld.rooted.mono hgrows, hheld.human⟩
  · intro other hother record hrecord
    exact (h.requests other hother record hrecord).mono hgrows (.refl record)
  · intro other hother parentTaskId hparentTaskId
    exact (h.parents other hother parentTaskId hparentTaskId).mono hgrows
  · intro taskId htaskId
    exact h.unsent taskId (List.mem_filter.mp htaskId).1

/-- The tree when a child is taken back. -/
def TaskTree.takeBack (tree : TaskTree) (childTaskId : String) : TaskTree :=
  { tree.send childTaskId with tasks := tree.tasks.delete childTaskId }

/-- What stays in a tree is not taken back. -/
theorem TaskTree.Stays.takeBack {rootTaskId taskId childTaskId : String}
    (h : tree.Stays rootTaskId taskId) (hunsent : childTaskId ∈ tree.unsent) :
    (tree.takeBack childTaskId).Stays rootTaskId taskId := by
  obtain ⟨hsent, other, hother, hroot⟩ := h
  constructor
  · intro hmem
    exact hsent (List.mem_filter.mp hmem).1
  · refine ⟨other, ?_, hroot⟩
    have hne : taskId ≠ childTaskId := by
      rintro rfl
      exact hsent hunsent
    show (tree.tasks.delete childTaskId).get? taskId = some other
    rw [OrderedMap.get?_delete_of_ne _ hne, hother]

/-- A root is not taken back. -/
theorem TaskTree.Rooted.takeBack {rootTaskId childTaskId : String} {target : String × ResourceScope}
    (h : tree.Rooted rootTaskId target) (hsound : Sound m approved tree)
    (hunsent : childTaskId ∈ tree.unsent) :
    (tree.takeBack childTaskId).Rooted rootTaskId target := by
  obtain ⟨root, hroot, hparent, hgrant⟩ := h
  refine ⟨root, ?_, hparent, hgrant⟩
  have hne : rootTaskId ≠ childTaskId := by
    rintro rfl
    obtain ⟨child, hchild, hparent', -⟩ := hsound.unsent _ hunsent
    rw [hroot, Option.some.injEq] at hchild
    rw [hchild] at hparent
    exact hparent' hparent
  show (tree.tasks.delete childTaskId).get? rootTaskId = some root
  rw [OrderedMap.get?_delete_of_ne _ hne, hroot]

/-- The invariant is kept when a child is taken back that has not been sent: nobody's parent or grantor
is gone. -/
theorem Sound.takeBack (h : Sound m approved tree) {childTaskId : String}
    (hunsent : childTaskId ∈ tree.unsent) : Sound m approved (tree.takeBack childTaskId) := by
  have hmem : ∀ other ∈ (tree.takeBack childTaskId).tasks.entries, other ∈ tree.tasks.entries :=
    fun other hother => (OrderedMap.mem_entries_delete.mp hother).1
  refine ⟨?_, ?_, ?_, ?_, ?_, fun other hother => h.nodup other (hmem other hother)⟩
  · intro other hother grant hgrant
    have hheld := h.grants other (hmem other hother) grant hgrant
    exact ⟨hheld.rooted.takeBack h hunsent, hheld.human⟩
  · intro other hother record hrecord
    have hasked := h.requests other (hmem other hother) record hrecord
    refine ⟨hasked.normal, ?_, ?_⟩
    · intro hroute request hrequest
      exact (hasked.human hroute request hrequest).takeBack h hunsent
    · intro path hpath hop hhop
      obtain ⟨hgrantor, hgrantee⟩ := hasked.path path hpath hop hhop
      exact ⟨hgrantor.takeBack hunsent, hgrantee.takeBack hunsent⟩
  · intro other hother parentTaskId hparent
    exact (h.parents other (hmem other hother) parentTaskId hparent).takeBack hunsent
  · intro taskId htaskId
    obtain ⟨hin, hne⟩ := List.mem_filter.mp htaskId
    obtain ⟨other, hother, hrest⟩ := h.unsent taskId hin
    refine ⟨other, ?_, hrest⟩
    show (tree.tasks.delete childTaskId).get? taskId = some other
    rw [OrderedMap.get?_delete_of_ne _ (of_decide_eq_true hne), hother]
  · intro other hother other' hother'
    exact h.unique other (hmem other hother) other' (hmem other' hother')

end Registration

end OsAgent.Authority
