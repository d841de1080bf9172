import OsAgent.Authority.Changes

/-!
# Creating tasks keeps the invariant

The steps by which tasks come into the tree: the host submits a root, and a running task spawns children,
each of which is then sent or taken back. Most of what they do leaves the tasks as they are (`Same`), and
the rest changes tasks one after the other (`Evolves`).
-/

namespace OsAgent.Authority

open OsAgent.Library OsAgent.Capability OsAgent.Kernel

/-- A tree, and the same one later, with the invariant. No task came into it. -/
structure Evolves (m : CapabilityManager) (approved : Approvals) (tree tree' : TaskTree) : Prop where
  sound : Sound m approved tree'
  grows : tree.Grows tree'
  new : ∀ taskId, tree.tasks.get? taskId = none → tree'.tasks.get? taskId = none

section Evolves

variable {m : CapabilityManager} {approved : Approvals} {tree tree' tree'' : TaskTree}

/-- A tree evolves into itself. -/
theorem Evolves.refl (h : Sound m approved tree) : Evolves m approved tree tree :=
  ⟨h, .refl tree, fun _ hnew => hnew⟩

/-- What evolves twice evolves. -/
theorem Evolves.trans (h : Evolves m approved tree tree') (h' : Evolves m approved tree' tree'') :
    Evolves m approved tree tree'' :=
  ⟨h'.sound, h.grows.trans h'.grows, fun taskId hnew => h'.new taskId (h.new taskId hnew)⟩

end Evolves

section Reading

variable {m : CapabilityManager} {approved : Approvals} {tree : TaskTree} {α β : Type}
  {Q : β → TaskTree → Prop} {E : CapabilityError → TaskTree → Prop} {scheduler : TaskScheduler}

/-- A task is read, or it is missing. -/
theorem wp_requireTask_bind {taskId : String} {f : SchedulerTask → TreeM β}
    (h : ∀ task, tree.tasks.get? taskId = some task → task.id = taskId → wp (f task) Q E tree)
    (hE : ∀ e, E e tree) : wp (requireTask taskId >>= f) Q E tree := by
  unfold requireTask
  rw [wp_bind, wp_bind, wp_get]
  cases hget : tree.tasks.get? taskId with
  | none => exact hE _
  | some task => exact h task hget (OrderedMap.key_of_get? hget)

/-- To read the clock changes nothing of the tasks. -/
theorem wp_now_bind {f : Timestamp → TreeM β}
    (h : ∀ now tree', tree.Same tree' → wp (f now) Q E tree') :
    wp (scheduler.now >>= f) Q E tree := by
  unfold TaskScheduler.now
  rw [wp_bind, wp_modifyGet]
  exact h _ _ ⟨rfl, rfl⟩

/-- Identifiers of grants are taken by a computation of the manager. -/
theorem wp_issue (x : Issue α) : wp (issue x)
    (fun a tree' => tree.Same tree' ∧ ∃ n n', x.run n = .ok (a, n')) (fun _ => tree.Same) tree := by
  unfold issue
  rw [wp_bind, wp_get, wp_bind, wp_lift]
  constructor
  · rintro ⟨a, n⟩ hrun
    rw [wp_bind, wp_modify, wp_pure]
    exact ⟨⟨rfl, rfl⟩, _, n, hrun⟩
  · intro e _
    exact .refl tree

/-- The loop gives an identifier that is not used, and leaves the tasks alone. -/
theorem wp_untilUnused {next : TreeM String} {used : TaskTree → String → Bool} {message : String}
    (hnext : ∀ tree, Ends next tree.Same tree) (attempts : ℕ) (tree : TaskTree) :
    wp (untilUnused next used message attempts)
      (fun id tree' => tree.Same tree' ∧ used tree' id = false) (fun _ => tree.Same) tree := by
  induction attempts generalizing tree with
  | zero => exact .refl tree
  | succ attempts ih =>
    unfold untilUnused
    refine wp_bind_of (hnext tree) ?_ fun _ _ hsame => hsame
    intro id tree' hsame
    rw [wp_bind, wp_get, wp_ite]
    split_ifs with hused
    · refine wp_mono (ih tree') ?_ fun _ _ hsame' => hsame.trans hsame'
      rintro id' tree'' ⟨hsame', hunused⟩
      exact ⟨hsame.trans hsame', hunused⟩
    · rw [wp_pure]
      exact ⟨hsame, by simpa using hused⟩

/-- To take an identifier changes nothing of the tasks. -/
theorem wp_nextTaskId (tree : TaskTree) : Ends scheduler.nextTaskId tree.Same tree := by
  unfold Ends TaskScheduler.nextTaskId
  rw [wp_bind, wp_get, wp_bind, wp_set]
  dsimp only
  split_ifs
  · exact ⟨rfl, rfl⟩
  · exact ⟨rfl, rfl⟩

/-- To take an identifier of a request changes nothing of the tasks. -/
theorem wp_nextRequestId (tree : TaskTree) : Ends scheduler.nextRequestId tree.Same tree := by
  unfold Ends TaskScheduler.nextRequestId
  rw [wp_bind, wp_get, wp_bind, wp_set, wp_bind, wp_lift]
  constructor
  · intro _ _
    exact ⟨rfl, rfl⟩
  · intro _ _
    exact ⟨rfl, rfl⟩

/-- A task identifier is new to the tree. -/
theorem wp_generateTaskId (excludedIds : List String) : wp (scheduler.generateTaskId excludedIds)
    (fun taskId tree' => tree.Same tree' ∧ tree.tasks.get? taskId = none ∧ taskId ∉ excludedIds)
    (fun _ => tree.Same) tree := by
  refine wp_mono (wp_untilUnused wp_nextTaskId 100 tree) ?_ fun _ _ hsame => hsame
  rintro taskId tree' ⟨hsame, hunused⟩
  rw [Bool.or_eq_false_iff, decide_eq_false_iff_not] at hunused
  refine ⟨hsame, ?_, hunused.2⟩
  have hhas := hunused.1
  rw [hsame.tasks] at hhas
  unfold OrderedMap.has at hhas
  simpa using hhas

/-- No request of the tree has the identifier. -/
theorem wp_generateCapabilityRequestId : wp scheduler.generateCapabilityRequestId
    (fun requestId tree' => tree.Same tree' ∧ ∀ task ∈ tree.tasks.entries,
      ∀ record ∈ task.capabilityRequests, record.requestId ≠ requestId)
    (fun _ => tree.Same) tree := by
  refine wp_mono (wp_untilUnused wp_nextRequestId 100 tree) ?_ fun _ _ hsame => hsame
  rintro requestId tree' ⟨hsame, hunused⟩
  refine ⟨hsame, ?_⟩
  intro task htask record hrecord heq
  rw [hsame.tasks, List.any_eq_false] at hunused
  apply hunused task htask
  rw [List.any_eq_true]
  exact ⟨record, hrecord, decide_eq_true heq⟩

end Reading

/-! ## A new task -/

section Creation

variable {m : CapabilityManager} {approved : Approvals} {tree : TaskTree} {scheduler : TaskScheduler}

/-- What a created task has. -/
theorem createAgent_ok {id : String} {characterId : Option String} {parent : Option SchedulerTask}
    {createdAt : Timestamp} {grants : List CapabilityGrant} {task : SchedulerTask}
    (h : SchedulerTask.createAgent id characterId parent createdAt grants = .ok task) :
    task.id = id ∧ task.capabilityGrants = grants ∧ task.capabilityRequests = [] ∧
      task.block.state.status = .ready ∧ task.parentTaskId = parent.map SchedulerTask.id ∧
      task.rootTaskId = parent.elim id fun parent => parent.rootTaskId := by
  unfold SchedulerTask.createAgent at h
  rw [check_bind_eq_ok] at h
  have hmade := h.2
  split_ifs at hmade with hsubject hnodup
  cases hmade
  exact ⟨rfl, rfl, rfl, rfl, rfl, rfl⟩

/-- What a task is when it was just created. -/
structure Created (m : CapabilityManager) (tree : TaskTree) (parent : Option SchedulerTask)
    (excludedIds : List String) (task : SchedulerTask) : Prop where
  requests : task.capabilityRequests = []
  ready : task.block.state.status = .ready
  parentTaskId : task.parentTaskId = parent.map SchedulerTask.id
  rootTaskId : task.rootTaskId = parent.elim task.id fun parent => parent.rootTaskId
  root : parent = none → ∀ grant ∈ task.capabilityGrants,
    grant.source = .root ∧ (grant.Executable → ¬ NeedsHuman m grant.capability)
  child : ∀ p ∈ parent, tree.tasks.get? task.id = none ∧ task.id ∉ excludedIds ∧
    ∀ grant ∈ task.capabilityGrants, ¬ NeedsHuman m grant.capability ∧
      ∃ source ∈ p.capabilityGrants, Contains source.target grant.target

/-- The grants of a new task are the host's, or derived from its parent's. -/
theorem created_of_grants {parent : Option SchedulerTask} {excludedIds : List String}
    {taskId : String} {characterId : Option String} {capabilities : List CapabilityInput}
    {issuedAt n n' : ℕ} {grants : List CapabilityGrant} {task : SchedulerTask}
    (honce : parent ≠ none → NormalizesOnce scheduler.capabilityManager.urlParser capabilities)
    (hnew : parent ≠ none → tree.tasks.get? taskId = none ∧ taskId ∉ excludedIds)
    (hgrants : (scheduler.startingGrants parent taskId capabilities issuedAt).run n = .ok (grants, n'))
    (h : SchedulerTask.createAgent taskId characterId parent issuedAt grants = .ok task) :
    Created scheduler.capabilityManager tree parent excludedIds task := by
  obtain ⟨hid, hheld, hrequests, hready, hparent, hroot⟩ := createAgent_ok h
  refine ⟨hrequests, hready, hparent, ?_, ?_, ?_⟩
  · rw [hid]
    exact hroot
  · rintro rfl
    rw [hheld]
    exact issueRootGrants_spec hgrants
  · rintro p hp
    obtain rfl := Option.mem_def.mp hp
    have hne : some p ≠ none := Option.some_ne_none p
    rw [hid, hheld]
    refine ⟨(hnew hne).1, (hnew hne).2, ?_⟩
    exact delegate_spec (fun requests hrequests => (honce hne).normalForm hrequests) hgrants

/-- To create an agent changes nothing of the tasks, and the agent can be registered. -/
theorem wp_createAgent (request : CreateAgentRequest) (parent : Option SchedulerTask)
    (excludedIds : List String)
    (honce : parent ≠ none →
      NormalizesOnce scheduler.capabilityManager.urlParser request.capabilities) :
    wp (scheduler.createAgent request parent excludedIds)
      (fun task tree' => tree.Same tree' ∧
        Created scheduler.capabilityManager tree parent excludedIds task)
      (fun _ => tree.Same) tree := by
  -- What follows once the identifier is known is the same for a root and for a child.
  have hrest : ∀ taskId tree', tree.Same tree' →
      (parent ≠ none → tree.tasks.get? taskId = none ∧ taskId ∉ excludedIds) →
      wp (do
        let issuedAt ← scheduler.now
        scheduler.checkCharacter request.characterId request.capabilities
        let grants ← issue (scheduler.startingGrants parent taskId request.capabilities issuedAt)
        SchedulerTask.createAgent taskId request.characterId parent issuedAt grants)
      (fun task tree'' => tree.Same tree'' ∧
        Created scheduler.capabilityManager tree parent excludedIds task)
      (fun _ => tree.Same) tree' := by
    intro taskId tree' hsame hnew
    apply wp_now_bind
    intro issuedAt tree1 hsame1
    rw [wp_bind, wp_lift]
    refine ⟨?_, fun _ _ => hsame.trans hsame1⟩
    intro _ _
    refine wp_bind_of (wp_issue _) ?_ fun _ _ hsame2 => (hsame.trans hsame1).trans hsame2
    rintro grants tree2 ⟨hsame2, n, n', hgrants⟩
    have hsame' := (hsame.trans hsame1).trans hsame2
    rw [wp_lift]
    exact ⟨fun task htask => ⟨hsame', created_of_grants honce hnew hgrants htask⟩, fun _ _ => hsame'⟩
  unfold TaskScheduler.createAgent
  cases parent with
  | none =>
    cases hid : request.id with
    | some taskId =>
      exact hrest taskId tree (.refl tree) fun hne => absurd rfl hne
    | none =>
      refine wp_bind_of (wp_generateTaskId excludedIds) ?_ fun _ _ hsame => hsame
      rintro taskId tree' ⟨hsame, hnew⟩
      exact hrest taskId tree' hsame fun _ => hnew
  | some parent =>
    rw [wp_bind, wp_lift]
    refine ⟨?_, fun _ _ => .refl tree⟩
    intro _ _
    refine wp_bind_of (wp_generateTaskId excludedIds) ?_ fun _ _ hsame => hsame
    rintro taskId tree' ⟨hsame, hnew⟩
    exact hrest taskId tree' hsame fun _ => hnew

/-! ## Roots -/

/-- The root's own grants contain themselves. -/
theorem rooted_register {task : SchedulerTask} (hparent : task.parentTaskId = none)
    (hroot : task.rootTaskId = task.id) {grant : CapabilityGrant}
    (hgrant : grant ∈ task.capabilityGrants) (hsource : grant.source = .root) (unsent : List String) :
    (tree.register task unsent).Rooted task.rootTaskId grant.target := by
  refine ⟨task, ?_, hparent, grant, hgrant, hsource, .refl grant.target⟩
  rw [get?_register, if_pos hroot]

/-- To submit a root keeps the invariant. -/
theorem sound_submit (h : Sound scheduler.capabilityManager approved tree)
    (request : CreateAgentRequest) (registerRoot : Except CapabilityError Unit) :
    Ends (scheduler.submit request registerRoot) (Sound scheduler.capabilityManager approved)
      tree := by
  unfold Ends TaskScheduler.submit
  refine wp_bind_of (wp_createAgent request none [] fun hne => absurd rfl hne) ?_
    fun _ _ hsame => h.same hsame
  rintro task tree' ⟨hsame, hcreated⟩
  have hsound := h.same hsame
  rw [wp_bind, wp_get]
  split_ifs with hhas
  · exact hsound
  · rw [wp_bind, wp_lift]
    refine ⟨?_, fun _ _ => hsound⟩
    intro _ _
    rw [wp_modify]
    have hnew : tree'.tasks.get? task.id = none := by
      unfold OrderedMap.has at hhas
      simpa using hhas
    have hparent : task.parentTaskId = none := hcreated.parentTaskId
    have hregister : Sound scheduler.capabilityManager approved (tree'.register task []) := by
      refine hsound.register hnew hcreated.requests (List.forall_mem_nil _) ?_ ?_
      · intro parentTaskId hmem
        rw [hparent] at hmem
        cases hmem
      · intro grant hgrant
        obtain ⟨hsource, hhuman⟩ := hcreated.root rfl grant hgrant
        exact ⟨rooted_register hparent hcreated.rootTaskId hgrant hsource [], hhuman⟩
    exact hregister.same ⟨rfl, (List.append_nil _).symm⟩

/-! ## Changing a task -/

/-- A method whose task follows keeps the invariant. -/
theorem evolves_setTask {task task' : SchedulerTask} (h : Sound m approved tree)
    (htask : tree.tasks.get? task.id = some task) (hfollows : Follows m approved tree task task') :
    Evolves m approved tree (tree.setTask task') := by
  refine ⟨h.setTask htask hfollows, grows_setTask htask hfollows.toKeeps, ?_⟩
  intro taskId hnew
  rw [get?_setTask, if_neg]
  · exact hnew
  · intro hid
    rw [hid, hfollows.id, htask] at hnew
    cases hnew

/-- A method on a task keeps the invariant, if the task follows itself. -/
theorem ends_onTask {α : Type} {taskId : String}
    {method : SchedulerTask → Except CapabilityError α × SchedulerTask} (h : Sound m approved tree)
    (hmethod : ∀ task, tree.tasks.get? task.id = some task → task.id = taskId →
      Follows m approved tree task (method task).2) :
    Ends (onTask taskId method) (Evolves m approved tree) tree := by
  unfold Ends onTask
  apply wp_requireTask_bind
  · intro task htask hid
    have hget : tree.tasks.get? task.id = some task := by
      rw [hid]
      exact htask
    have hevolves := evolves_setTask h hget (hmethod task hget hid)
    rw [wp_bind, wp_modify, wp_lift]
    exact ⟨fun _ _ => hevolves, fun _ _ => hevolves⟩
  · intro e
    exact .refl h

/-- A method of the rest of the block keeps the invariant, if the task was sent. -/
theorem ends_onBlock {α : Type} {taskId : String} {method : TaskM α} (h : Sound m approved tree)
    (hsent : taskId ∉ tree.unsent) :
    Ends (onBlock taskId method) (Evolves m approved tree) tree := by
  apply ends_onTask h
  rintro task htask rfl
  split
  · exact follows_withBlock _ fun hunsent => absurd hunsent hsent
  · exact follows_withBlock _ fun hunsent => absurd hunsent hsent

/-- A task that was sent is one that was sent later. -/
theorem Evolves.sent {tree' : TaskTree} (h : Evolves m approved tree tree') {task : SchedulerTask}
    (htask : tree.tasks.get? task.id = some task) (hsent : task.id ∉ tree.unsent) :
    task.id ∉ tree'.unsent :=
  h.grows.sent task.id task htask hsent

/-! ## Children -/

/-- To check a delegation changes nothing of the tasks. -/
theorem wp_checkDelegation (parent : SchedulerTask) (options : CreateAgentRequest) :
    Ends (scheduler.checkDelegation parent options) tree.Same tree := by
  unfold TaskScheduler.checkDelegation
  apply wp_now_bind
  intro now tree' hsame
  rw [wp_bind, wp_lift]
  refine ⟨?_, fun _ _ => hsame⟩
  rintro (_ | _) _
  · exact hsame
  · exact hsame

/-- To check a child changes nothing of the tasks. -/
theorem wp_checkChild (parent : SchedulerTask) (options : CreateAgentRequest) :
    Ends (scheduler.checkChild parent options) tree.Same tree := by
  unfold TaskScheduler.checkChild
  cases options.characterId with
  | none =>
    dsimp only
    split_ifs
    · exact .refl tree
    · exact wp_checkDelegation parent options
  | some characterId =>
    unfold Ends
    rw [wp_bind, wp_lift]
    refine ⟨?_, fun _ _ => .refl tree⟩
    intro allowed _
    split_ifs
    · rw [wp_bind, wp_lift]
      refine ⟨?_, fun _ _ => .refl tree⟩
      intro requests _
      rw [wp_bind, wp_lift]
      refine ⟨?_, fun _ _ => .refl tree⟩
      rintro (_ | capability) _
      · exact wp_checkDelegation parent options
      · exact .refl tree
    · exact .refl tree

/-- To check children changes nothing of the tasks. -/
theorem wp_checkChildren (parent : SchedulerTask) (childOptions : List CreateAgentRequest)
    (tree : TaskTree) : Ends (scheduler.checkChildren parent childOptions) tree.Same tree := by
  induction childOptions generalizing tree with
  | nil => exact .refl tree
  | cons options childOptions ih =>
    unfold Ends TaskScheduler.checkChildren
    refine wp_bind_of (wp_checkChild parent options) ?_ fun _ _ hsame => hsame
    rintro (_ | rejection) tree' hsame
    · exact wp_mono (ih tree') (fun _ _ hsame' => hsame.trans hsame')
        fun _ _ hsame' => hsame.trans hsame'
    · exact hsame

/-- The children are created one after the other, with identifiers of their own. -/
theorem wp_createChildren (parent : SchedulerTask) (childOptions : List CreateAgentRequest)
    (allocatedIds : List String)
    (honce : ∀ options ∈ childOptions,
      NormalizesOnce scheduler.capabilityManager.urlParser options.capabilities) (tree : TaskTree) :
    wp (scheduler.createChildren parent childOptions allocatedIds)
      (fun children tree' => tree.Same tree' ∧ (children.map SchedulerTask.id).Nodup ∧
        ∀ child ∈ children,
          Created scheduler.capabilityManager tree (some parent) allocatedIds child)
      (fun _ => tree.Same) tree := by
  -- Along the options: each child excludes the identifiers of those before it.
  induction childOptions generalizing allocatedIds tree with
  | nil => exact ⟨.refl tree, List.nodup_nil, List.forall_mem_nil _⟩
  | cons options childOptions ih =>
    rw [List.forall_mem_cons] at honce
    unfold TaskScheduler.createChildren
    refine wp_bind_of (wp_createAgent options (some parent) allocatedIds fun _ => honce.1) ?_
      fun _ _ hsame => hsame
    rintro child tree' ⟨hsame, hchild⟩
    refine wp_bind_of (ih (child.id :: allocatedIds) honce.2 tree') ?_
      fun _ _ hsame' => hsame.trans hsame'
    rintro children tree'' ⟨hsame', hnodup, hchildren⟩
    rw [wp_pure]
    refine ⟨hsame.trans hsame', ?_, ?_⟩
    · rw [List.map_cons, List.nodup_cons]
      refine ⟨?_, hnodup⟩
      -- The identifier of the first was excluded for the others.
      intro hmem
      obtain ⟨other, hother, heq⟩ := List.mem_map.mp hmem
      have hexcluded := ((hchildren other hother).child parent rfl).2.1
      rw [heq] at hexcluded
      exact hexcluded List.mem_cons_self
    · intro other hother
      rcases List.mem_cons.mp hother with rfl | hother
      · exact hchild
      · obtain ⟨hrequests, hready, hparent, hroot, hhost, hderived⟩ := hchildren other hother
        refine ⟨hrequests, hready, hparent, hroot, hhost, ?_⟩
        intro p hp
        obtain ⟨hnew, hexcluded, hgrants⟩ := hderived p hp
        rw [hsame.tasks] at hnew
        exact ⟨hnew, fun hmem => hexcluded (List.mem_cons_of_mem _ hmem), hgrants⟩

/-- A task that can be registered below its parent. -/
structure Joins (m : CapabilityManager) (tree : TaskTree) (task : SchedulerTask) : Prop where
  new : tree.tasks.get? task.id = none
  requests : task.capabilityRequests = []
  ready : task.block.state.status = .ready
  child : task.parentTaskId ≠ none
  parent : ∀ parentTaskId ∈ task.parentTaskId, tree.Stays task.rootTaskId parentTaskId
  grants : ∀ grant ∈ task.capabilityGrants,
    tree.Rooted task.rootTaskId grant.target ∧ ¬ NeedsHuman m grant.capability

/-- A task that can be registered can be so in a later tree. -/
theorem Joins.mono {tree' : TaskTree} {task : SchedulerTask} (h : Joins m tree task)
    (hgrows : tree.Grows tree') (hnew : tree'.tasks.get? task.id = none) : Joins m tree' task := by
  refine ⟨hnew, h.requests, h.ready, h.child, ?_, ?_⟩
  · intro parentTaskId hparent
    exact (h.parent parentTaskId hparent).mono hgrows
  · intro grant hgrant
    exact ⟨(h.grants grant hgrant).1.mono hgrows, (h.grants grant hgrant).2⟩

/-- A child that was just created can be registered below its parent, which was sent. -/
theorem Created.joins {parent child : SchedulerTask} {excludedIds : List String}
    (h : Created m tree (some parent) excludedIds child) (hsound : Sound m approved tree)
    (hparent : tree.tasks.get? parent.id = some parent) (hsent : parent.id ∉ tree.unsent) :
    Joins m tree child := by
  obtain ⟨hnew, -, hgrants⟩ := h.child parent rfl
  have hroot : child.rootTaskId = parent.rootTaskId := h.rootTaskId
  refine ⟨hnew, h.requests, h.ready, ?_, ?_, ?_⟩
  · rw [h.parentTaskId]
    exact Option.some_ne_none _
  · intro parentTaskId hmem
    rw [h.parentTaskId, Option.map_some, Option.mem_some_iff] at hmem
    rw [hroot, ← hmem]
    exact stays_of_sent hparent hsent
  · intro grant hgrant
    obtain ⟨hhuman, source, hsource, hcontains⟩ := hgrants grant hgrant
    have hheld := hsound.grants parent (OrderedMap.mem_of_get? hparent) source hsource
    rw [hroot]
    exact ⟨hheld.rooted.contains hcontains, hhuman⟩

/-- To register children keeps the invariant. -/
theorem sound_registerChildren {children : List SchedulerTask} (h : Sound m approved tree)
    (hjoins : ∀ child ∈ children, Joins m tree child)
    (hnodup : (children.map SchedulerTask.id).Nodup) :
    Sound m approved (TaskScheduler.registerChildren children tree) := by
  -- Along the children: each is registered into the tree of those before it.
  induction children generalizing tree with
  | nil =>
    apply h.same
    exact ⟨rfl, List.append_nil _⟩
  | cons child children ih =>
    rw [List.forall_mem_cons] at hjoins
    rw [List.map_cons, List.nodup_cons] at hnodup
    obtain ⟨hchild, hchildren⟩ := hjoins
    -- The tree grows, and the other children still join it.
    have hgrows : tree.Grows (tree.register child [child.id]) := by
      apply grows_register hchild.new
      intro taskId hmem
      exact List.mem_singleton.mp hmem
    have hsound : Sound m approved (tree.register child [child.id]) := by
      refine h.register hchild.new hchild.requests ?_ hchild.parent ?_
      · intro taskId hmem
        refine ⟨List.mem_singleton.mp hmem, hchild.child, ?_⟩
        rw [hchild.ready]
        exact TaskStatus.noConfusion
      · intro grant hgrant
        exact ⟨(hchild.grants grant hgrant).1.mono hgrows, fun _ => (hchild.grants grant hgrant).2⟩
    have hrest := ih hsound
      (fun other hother => (hchildren other hother).mono hgrows (by
        rw [get?_register, if_neg]
        · exact (hchildren other hother).new
        · intro hid
          apply hnodup.1
          rw [← hid]
          exact List.mem_map_of_mem hother)) hnodup.2
    apply hrest.same
    refine ⟨rfl, ?_⟩
    show tree.unsent ++ (child :: children).map SchedulerTask.id =
      tree.unsent ++ [child.id] ++ children.map SchedulerTask.id
    rw [List.map_cons, List.append_assoc, List.singleton_append]

/-- Spawning keeps the invariant: the children are registered together, below a parent that runs. -/
theorem sound_startAsyncWork (h : Sound scheduler.capabilityManager approved tree)
    (parentTaskId : String) (tools : List AsyncWorkRegistration)
    (childOptions : List CreateAgentRequest) (graphNodeAliases : Option (List String))
    (generationId : String) (reservation : Except String Unit)
    (honce : ∀ options ∈ childOptions,
      NormalizesOnce scheduler.capabilityManager.urlParser options.capabilities) :
    Ends (scheduler.startAsyncWork parentTaskId tools childOptions graphNodeAliases generationId
      reservation) (Sound scheduler.capabilityManager approved) tree := by
  unfold Ends TaskScheduler.startAsyncWork
  apply wp_requireTask_bind
  · rintro parent hparent rfl
    dsimp only
    -- Only a running parent creates children.
    split_ifs with hrunning
    · exact h
    · exact h
    · exact h
    · exact h
    · rw [not_not] at hrunning
      have hsent := h.sent_of_running hparent hrunning
      refine wp_bind_of (wp_checkChildren parent childOptions tree) ?_ fun _ _ hsame => h.same hsame
      -- A rejected request creates none; one without a place for the work neither.
      rintro (_ | rejection) tree1 hsame1
      · cases reservation with
        | error message => exact h.same hsame1
        | ok _ =>
          refine wp_bind_of (wp_createChildren parent childOptions _ honce tree1) ?_
            fun _ _ hsame => h.same (hsame1.trans hsame)
          -- The children are made first and registered together, with no step in between.
          rintro children tree2 ⟨hsame2, hnodup, hchildren⟩
          apply wp_now_bind
          intro now tree3 hsame3
          have hsame := (hsame1.trans hsame2).trans hsame3
          have hsound1 := h.same hsame1
          have hparent1 : tree1.tasks.get? parent.id = some parent := by
            rw [hsame1.tasks]
            exact hparent
          have hsent1 : parent.id ∉ tree1.unsent := by
            rw [hsame1.unsent]
            exact hsent
          have hsent3 : parent.id ∉ tree3.unsent := by
            rw [hsame.unsent]
            exact hsent
          refine wp_bind_of (ends_onBlock (h.same hsame) hsent3) ?_ fun _ _ hevolves => hevolves.sound
          intro _ tree4 hevolves
          rw [wp_bind, wp_modify, wp_pure]
          -- What holds of the parent still does after the block.
          apply sound_registerChildren hevolves.sound _ hnodup
          intro child hchild
          have hjoins := (hchildren child hchild).joins hsound1 hparent1 hsent1
          have hgrows : tree1.Grows tree4 := ((hsame2.trans hsame3).grows).trans hevolves.grows
          apply hjoins.mono hgrows
          apply hevolves.new
          rw [(hsame2.trans hsame3).tasks]
          exact hjoins.new
      · exact h.same hsame1
  · intro e
    exact h

/-- Sending a child keeps the invariant, also when it fails and the child is taken back. -/
theorem sound_sendSpawnedChild (h : Sound scheduler.capabilityManager approved tree)
    (childTaskId : String) (failure : Option String) :
    Ends (scheduler.sendSpawnedChild childTaskId failure)
      (Sound scheduler.capabilityManager approved) tree := by
  unfold Ends TaskScheduler.sendSpawnedChild
  rw [wp_bind, wp_get]
  -- Only a child that waits to be sent is sent.
  split_ifs with hunsent
  · apply wp_requireTask_bind
    · rintro child hchild rfl
      rw [wp_bind, wp_modify]
      -- If the queue refuses it, the child is taken back out of the tree.
      cases failure with
      | none => exact h.send child.id
      | some error =>
        cases hparent : child.parentTaskId with
        | none => exact h.send child.id
        | some parentTaskId =>
          dsimp only
          rw [wp_bind, wp_modify]
          have hback : Sound scheduler.capabilityManager approved (tree.takeBack child.id) :=
            h.takeBack hunsent
          have hstays := (h.parents child (OrderedMap.mem_of_get? hchild) parentTaskId hparent).takeBack
            hunsent
          show wp _ _ _ (tree.takeBack child.id)
          apply wp_requireTask_bind
          · intro parent _ _
            split_ifs
            · exact hback
            · apply wp_now_bind
              intro now tree' hsame
              have hsent : parentTaskId ∉ tree'.unsent := by
                rw [hsame.unsent]
                exact hstays.1
              exact wp_mono (ends_onBlock (hback.same hsame) hsent)
                (fun _ _ hevolves => hevolves.sound) fun _ _ hevolves => hevolves.sound
          · intro e
            exact hback
    · intro e
      exact h
  · exact h

end Creation

end OsAgent.Authority
