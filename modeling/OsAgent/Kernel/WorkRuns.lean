import OsAgent.Kernel.Deliveries

/-!
# Runs of the work table

A run is a sequence of calls of the methods on the table of asynchronous work. `WorkRun` keeps every
update with the state in which it was claimed. `WorkRun.Exact` says what the table is for: no result is
lost, changed, or delivered twice, and every update tells what is still to come.
-/

namespace OsAgent.Kernel

open OsAgent.Library OsAgent.Capability

/-- An update, and the state in which it was claimed. -/
structure Delivery where
  before : TaskControlBlock
  update : AsyncWorkUpdate

/-- A task after some calls, with the context that it started with, and the updates since then. -/
structure WorkRun where
  initial : List ContextItem
  task : TaskControlBlock
  deliveries : List Delivery := []

namespace WorkRun

/-- The run after a call. A delivery is noted with the task after it. -/
def after (r : WorkRun) (call : WorkCall) : WorkRun :=
  match call.perform r.task with
  | .ok update task =>
    { r with
      task
      deliveries := r.deliveries ++ (update.map fun update => ⟨r.task, update⟩).toList }
  | .error _ task => { r with task }

/-- The updates that the context has gained. -/
def updates (r : WorkRun) : List AsyncWorkUpdate := r.deliveries.map Delivery.update

/-- The results that they brought. -/
def results (r : WorkRun) : List AsyncWorkResult := r.updates.flatMap AsyncWorkUpdate.results

end WorkRun

/-- The runs of a new task. -/
def workSystem : TransitionSystem WorkRun where
  init r := r.task.asyncWorkGenerations = [] ∧ r.task.context = r.initial ∧ r.deliveries = []
  step r r' := ∃ call : WorkCall, r' = r.after call

/-- What an update says of the open generation. -/
structure Delivery.Exact (d : Delivery) (generation : AsyncWorkGeneration) : Prop where
  active : d.before.activeAsyncWorkGeneration = some generation
  generationId : d.update.generationId = generation.generationId
  /-- The results are of its work. -/
  results : ∀ x ∈ d.update.results, ∃ work ∈ generation.work,
    work.terminal = true ∧ work.workId = x.workId
  /-- What is pending is its work that has not come to its end. -/
  pending : d.update.pending.map AsyncWorkPending.workId =
    (generation.work.filter fun work => !work.terminal).map fun work => work.workId
  disjoint : ∀ x ∈ d.update.results, ∀ y ∈ d.update.pending, x.workId ≠ y.workId

/-- What the table is for. -/
structure WorkRun.Exact (r : WorkRun) : Prop where
  /-- At most one generation is open, and it is the last one. -/
  lastOpen : ∀ generation ∈ r.task.asyncWorkGenerations.dropLast, generation.closedAt.isSome = true
  /-- The result of work that has come to its end never changes. -/
  lasting : ∀ r', workSystem.Later r r' → ∀ work ∈ r.task.works, work.terminal = true →
    ∃ work' ∈ r'.task.works, work'.terminal = true ∧ work'.result = work.result
  /-- The updates are what the context has gained. -/
  context : r.task.context = r.initial ++ r.updates.map ContextItem.asyncWorkUpdate
  /-- The result of delivered work occurs in the updates, once, and no other does. -/
  once : ∀ work ∈ r.task.works, r.results.filter (fun x => x.workId = work.workId) =
    if work.deliveredAt.isSome then [work.result 0] else []
  /-- So one update has it. -/
  inOne : ∀ work ∈ r.task.works,
    (r.updates.filter fun update => update.results.any fun x => x.workId = work.workId).length =
      if work.deliveredAt.isSome then 1 else 0
  deliveries : ∀ d ∈ r.deliveries, ∃ generation, d.Exact generation
  /-- A generation is closed when all its work has come to its end and been delivered. -/
  closed : ∀ generation ∈ r.task.asyncWorkGenerations, generation.closedAt.isSome = true ↔
    ∀ work ∈ generation.work, work.terminal = true ∧ work.deliveredAt.isSome = true
  /-- An open generation has work that has not. -/
  active : ∀ generation ∈ r.task.asyncWorkGenerations, generation.closedAt = none →
    ∃ work ∈ generation.work, work.deliveredAt = none ∨ work.terminal = false

/-! ## The invariant of the runs -/

/-- The invariant of the runs. -/
structure WorkRun.Valid (r : WorkRun) : Prop where
  table : WorkTable r.task.asyncWorkGenerations r.results
  context : r.task.context = r.initial ++ r.updates.map ContextItem.asyncWorkUpdate
  deliveries : ∀ d ∈ r.deliveries, ∃ generation, d.Exact generation

/-- What an outcome does to the table. -/
theorem WorkTable.outcome {s s' : TaskControlBlock} {update : Option AsyncWorkUpdate}
    {results : List AsyncWorkResult} (h : WorkTable s.asyncWorkGenerations results)
    (houtcome : Outcome s s' update) :
    WorkTable s'.asyncWorkGenerations
      (results ++ update.toList.flatMap AsyncWorkUpdate.results) := by
  cases houtcome with
  | same => simpa using h
  | registered before generation work hbefore hopen hgenerations hwork hnodup hfresh hrunning =>
    have hnew := h.register hbefore hopen hgenerations hwork hnodup hfresh hrunning
    simpa using hnew
  | revised hgenerations hopen hrevised =>
    rw [hgenerations] at h
    simpa using h.revise hopen hrevised
  | claimed now hactive hgenerations hopen =>
    rw [hgenerations] at h
    simpa using h.claim hopen now

/-- A claim tells of the open generation what there is to tell. -/
theorem exact_of_claimed {s : TaskControlBlock} {results : List AsyncWorkResult}
    {before : List AsyncWorkGeneration} {generation : AsyncWorkGeneration} (now : Timestamp)
    (h : WorkTable s.asyncWorkGenerations results)
    (hactive : s.activeAsyncWorkGeneration = some generation)
    (hgenerations : s.asyncWorkGenerations = before ++ [generation]) :
    Delivery.Exact ⟨s, generation.update now⟩ generation where
  active := hactive
  generationId := rfl
  results := by
    intro x hx
    obtain ⟨work, hwork, rfl⟩ := List.mem_map.mp hx
    obtain ⟨hmem, hundelivered⟩ := List.mem_filter.mp hwork
    unfold AsyncWorkRecord.undelivered at hundelivered
    exact ⟨work, hmem, (of_decide_eq_true hundelivered).1, rfl⟩
  pending := by
    show ((generation.work.filter _).map AsyncWorkRecord.pending).map _ = _
    rw [List.map_map]
    rfl
  disjoint := by
    -- Two kinds of entries cannot tell of the same work: one is running, the other is not.
    intro x hx y hy hsame
    obtain ⟨work, hwork, rfl⟩ := List.mem_map.mp hx
    obtain ⟨work', hwork', rfl⟩ := List.mem_map.mp hy
    obtain ⟨hmem, hundelivered⟩ := List.mem_filter.mp hwork
    obtain ⟨hmem', hrunning⟩ := List.mem_filter.mp hwork'
    have hids : (generation.work.map fun w => w.workId).Nodup := by
      have hall := h.ids
      rw [hgenerations, worksOf_append, worksOf_singleton, List.map_append] at hall
      exact (List.nodup_append.mp hall).2.1
    obtain rfl := List.inj_on_of_nodup_map hids hmem hmem' hsame
    unfold AsyncWorkRecord.undelivered at hundelivered
    rw [(of_decide_eq_true hundelivered).1] at hrunning
    cases hrunning

/-- What a call does to a run: it throws and changes nothing, or it has an outcome. -/
theorem WorkRun.after_cases {r : WorkRun} (h : LastOpen r.task.asyncWorkGenerations)
    (call : WorkCall) :
    r.after call = r ∨ ∃ task update, Outcome r.task task update ∧
      r.after call = { r with
        task
        deliveries := r.deliveries ++ (update.map fun update => ⟨r.task, update⟩).toList } := by
  have houtcome := outcome_perform h call
  unfold WorkRun.after
  unfold HasOutcome wp at houtcome
  cases hcall : call.perform r.task with
  | ok update task =>
    rw [hcall] at houtcome
    exact Or.inr ⟨task, update, houtcome, rfl⟩
  | error e task =>
    rw [hcall] at houtcome
    rw [houtcome]
    exact Or.inl rfl

/-- Every call keeps the invariant. -/
theorem WorkRun.Valid.after {r : WorkRun} (h : r.Valid) (call : WorkCall) : (r.after call).Valid := by
  rcases WorkRun.after_cases h.table.last call with hsame | ⟨task, update, houtcome, hafter⟩
  · rwa [hsame]
  rw [hafter]
  have hresults : WorkRun.results { r with
      task
      deliveries := r.deliveries ++ (update.map fun update => ⟨r.task, update⟩).toList } =
        r.results ++ update.toList.flatMap AsyncWorkUpdate.results := by
    cases update <;> simp [WorkRun.results, WorkRun.updates]
  exact {
    table := by
      rw [hresults]
      exact h.table.outcome houtcome
    context := by
      have hcontext := h.context
      cases houtcome with
      | same => simpa [WorkRun.updates] using hcontext
      | registered => simpa [WorkRun.updates] using hcontext
      | revised => simpa [WorkRun.updates] using hcontext
      | claimed now hactive hgenerations hopen => simp [WorkRun.updates, hcontext]
    deliveries := by
      -- A delivery of before keeps its place; a new one is that of a claim.
      intro d hd
      rcases List.mem_append.mp hd with hold | hnew
      · exact h.deliveries d hold
      · clear hd
        cases houtcome with
        | same => cases hnew
        | registered => cases hnew
        | revised => cases hnew
        | claimed now hactive hgenerations hopen =>
          rw [List.mem_singleton.mp hnew]
          exact ⟨_, exact_of_claimed now h.table hactive hgenerations⟩ }

/-- The invariant holds along every run. -/
theorem valid_of_reachable {r : WorkRun} (h : workSystem.Reachable r) : r.Valid := by
  apply h.invariant
  · rintro r ⟨hgenerations, hcontext, hdeliveries⟩
    have hupdates : r.updates = [] := by
      unfold WorkRun.updates
      rw [hdeliveries]
      rfl
    exact {
      table := by
        unfold WorkRun.results
        rw [hgenerations, hupdates]
        exact WorkTable.empty
      context := by simp [hupdates, hcontext]
      deliveries := by simp [hdeliveries] }
  · rintro r r' _ hvalid ⟨call, rfl⟩
    exact hvalid.after call

/-! ## What never changes -/

/-- An outcome keeps the result of work that has come to its end. -/
theorem Outcome.lasting {s s' : TaskControlBlock} {update : Option AsyncWorkUpdate}
    (h : Outcome s s' update) :
    ∀ work ∈ s.works, work.terminal = true →
      ∃ work' ∈ s'.works, work'.terminal = true ∧ work'.result = work.result := by
  intro work hwork hterminal
  -- The work is of an older generation, or of the one that the call changed.
  cases h with
  | same => exact ⟨work, hwork, hterminal, rfl⟩
  | registered before generation new hbefore hopen hgenerations =>
    refine ⟨work, ?_, hterminal, rfl⟩
    show work ∈ worksOf (before ++ [{ generation with work := generation.work ++ new }])
    rw [worksOf_append, worksOf_singleton, ← List.append_assoc]
    apply List.mem_append_left
    have hold : work ∈ worksOf s.asyncWorkGenerations := hwork
    rcases hgenerations with hsplit | ⟨hsplit, -⟩
    · rwa [hsplit, worksOf_append, worksOf_singleton] at hold
    · rw [hsplit] at hold
      exact List.mem_append_left _ hold
  | @revised before generation generation' hgenerations hopen hrevised =>
    have hold : work ∈ worksOf s.asyncWorkGenerations := hwork
    rw [hgenerations, worksOf_append, worksOf_singleton] at hold
    show ∃ work' ∈ worksOf (before ++ [generation']), _
    rw [worksOf_append, worksOf_singleton]
    rcases List.mem_append.mp hold with hold | hold
    · exact ⟨work, List.mem_append_left _ hold, hterminal, rfl⟩
    · obtain ⟨work', hwork', hrev⟩ := exists_right_of_mem hrevised.work hold
      obtain ⟨hterminal', hresult, -⟩ := hrev.result hterminal
      exact ⟨work', List.mem_append_right _ hwork', hterminal', hresult⟩
  | @claimed before generation now hactive hgenerations hopen =>
    have hold : work ∈ worksOf s.asyncWorkGenerations := hwork
    rw [hgenerations, worksOf_append, worksOf_singleton] at hold
    show ∃ work' ∈ worksOf (before ++ [generation.claimed now]), _
    rw [worksOf_append, worksOf_singleton]
    rcases List.mem_append.mp hold with hold | hold
    · exact ⟨work, List.mem_append_left _ hold, hterminal, rfl⟩
    · refine ⟨work.deliver now, List.mem_append_right _ (List.mem_map_of_mem hold), ?_,
        work.result_deliver now⟩
      rwa [work.terminal_deliver]

/-- So does a whole run. -/
theorem lasting_of_later {r r' : WorkRun} (hr : workSystem.Reachable r)
    (h : workSystem.Later r r') :
    ∀ work ∈ r.task.works, work.terminal = true →
      ∃ work' ∈ r'.task.works, work'.terminal = true ∧ work'.result = work.result := by
  intro work hwork hterminal
  apply h.invariant hr
    (P := fun r' => ∃ work' ∈ r'.task.works, work'.terminal = true ∧ work'.result = work.result)
  · exact ⟨work, hwork, hterminal, rfl⟩
  · rintro t t' ht ⟨work', hwork', hterminal', hresult⟩ ⟨call, rfl⟩
    rcases WorkRun.after_cases (valid_of_reachable ht).table.last call with
      hsame | ⟨task, update, houtcome, hafter⟩
    · rw [hsame]
      exact ⟨work', hwork', hterminal', hresult⟩
    · rw [hafter]
      obtain ⟨work'', hwork'', hterminal'', hresult'⟩ :=
        houtcome.lasting work' hwork' hterminal'
      exact ⟨work'', hwork'', hterminal'', hresult'.trans hresult⟩

/-! ## Each result once -/

/-- The results that carry the identity of some work are its own, if it was delivered. -/
theorem WorkTable.once {generations : List AsyncWorkGeneration} {results : List AsyncWorkResult}
    (h : WorkTable generations results) {work : AsyncWorkRecord}
    (hwork : work ∈ worksOf generations) :
    results.filter (fun x => x.workId = work.workId) =
      if work.deliveredAt.isSome then [work.result 0] else [] := by
  have hperm := h.results.filter fun x => x.workId = work.workId
  have hdelivered : (deliveredResults (worksOf generations)).filter
      (fun x => x.workId = work.workId) =
        if work.deliveredAt.isSome then [work.result 0] else [] := by
    have hkey : (worksOf generations).filter (fun w => w.workId = work.workId) = [work] := by
      have hmem := filter_key_mem (fun w : AsyncWorkRecord => w.workId) h.ids
        (List.singleton_sublist.mpr hwork)
      simpa using hmem
    have hcomm : ((worksOf generations).filter AsyncWorkRecord.delivered).filter
        (fun w => w.workId = work.workId) = [work].filter AsyncWorkRecord.delivered := by
      rw [← hkey, List.filter_filter, List.filter_filter]
      exact List.filter_congr fun w _ => Bool.and_comm _ _
    unfold deliveredResults
    rw [List.filter_map]
    show (((worksOf generations).filter AsyncWorkRecord.delivered).filter
      (fun w => w.workId = work.workId)).map (·.result 0) = _
    rw [hcomm]
    -- Work that was delivered is counted once, since no identity occurs twice.
    by_cases hseen : work.delivered = true
    · have hsome : work.deliveredAt.isSome = true := hseen
      rw [List.filter_cons_of_pos hseen, if_pos hsome]
      rfl
    · have hnone : ¬ work.deliveredAt.isSome = true := hseen
      rw [List.filter_cons_of_neg hseen, if_neg hnone]
      rfl
  rw [hdelivered] at hperm
  split_ifs with hseen
  · rw [if_pos hseen] at hperm
    exact List.perm_singleton.mp hperm
  · rw [if_neg hseen] at hperm
    exact List.perm_nil.mp hperm

/-- One update has the result of delivered work, and none that of other work. -/
theorem WorkTable.inOne {generations : List AsyncWorkGeneration} {updates : List AsyncWorkUpdate}
    (h : WorkTable generations (updates.flatMap AsyncWorkUpdate.results)) {work : AsyncWorkRecord}
    (hwork : work ∈ worksOf generations) :
    (updates.filter fun update => update.results.any fun x => x.workId = work.workId).length =
      if work.deliveredAt.isSome then 1 else 0 := by
  have honce := h.once hwork
  -- An update that has the identity has the result.
  have hown : ∀ update ∈ updates, ∀ x ∈ update.results, x.workId = work.workId →
      work.deliveredAt.isSome = true ∧ x = work.result 0 := by
    intro update hupdate x hx hid
    have hmem : x ∈ (updates.flatMap AsyncWorkUpdate.results).filter
        (fun x => x.workId = work.workId) :=
      List.mem_filter.mpr ⟨List.mem_flatMap.mpr ⟨update, hupdate, hx⟩, decide_eq_true hid⟩
    rw [honce] at hmem
    split_ifs at hmem with hseen
    · exact ⟨hseen, List.mem_singleton.mp hmem⟩
    · cases hmem
  split_ifs with hseen
  · apply le_antisymm
    · have hnodup : (updates.flatMap fun update =>
          update.results.map AsyncWorkResult.workId).Nodup := by
        have hids : ((deliveredResults (worksOf generations)).map AsyncWorkResult.workId).Nodup := by
          unfold deliveredResults
          rw [List.map_map]
          exact h.ids.sublist (List.filter_sublist.map fun w : AsyncWorkRecord => w.workId)
        have hresults := (h.results.map AsyncWorkResult.workId).nodup_iff.mpr hids
        rwa [List.map_flatMap] at hresults
      apply length_filter_le_one hnodup (b := work.workId)
      intro update _ hany
      obtain ⟨x, hx, hid⟩ := List.any_eq_true.mp hany
      rw [decide_eq_true_eq] at hid
      exact hid ▸ List.mem_map_of_mem hx
    · have hmem : work.result 0 ∈ updates.flatMap AsyncWorkUpdate.results := by
        have hfilter : work.result 0 ∈ (updates.flatMap AsyncWorkUpdate.results).filter
            (fun x => x.workId = work.workId) := by
          rw [honce, if_pos hseen]
          exact List.mem_singleton.mpr rfl
        exact (List.mem_filter.mp hfilter).1
      obtain ⟨update, hupdate, hx⟩ := List.mem_flatMap.mp hmem
      apply List.length_pos_of_mem (a := update)
      apply List.mem_filter.mpr
      exact ⟨hupdate, List.any_eq_true.mpr ⟨work.result 0, hx, decide_eq_true rfl⟩⟩
  · rw [List.length_eq_zero_iff, List.filter_eq_nil_iff]
    intro update hupdate hany
    obtain ⟨x, hx, hid⟩ := List.any_eq_true.mp hany
    exact hseen (hown update hupdate x hx (of_decide_eq_true hid)).1

/-- In every run, the table is what it is for. -/
theorem exact_of_reachable {r : WorkRun} (h : workSystem.Reachable r) : r.Exact := by
  obtain ⟨htable, hcontext, hdeliveries⟩ := valid_of_reachable h
  exact {
    lastOpen := by
      intro generation hgeneration
      have hclosed := htable.last generation hgeneration
      unfold AsyncWorkGeneration.isOpen at hclosed
      simpa using hclosed
    lasting := fun r' hlater => lasting_of_later h hlater
    context := hcontext
    once := fun work hwork => htable.once hwork
    inOne := fun work hwork => htable.inOne hwork
    deliveries := hdeliveries
    closed := by
      -- A generation is closed exactly when all its work was delivered.
      intro generation hgeneration
      constructor
      · intro hclosed work hwork
        have hseen := htable.closed generation hgeneration
          (by unfold AsyncWorkGeneration.isOpen; simpa using hclosed) work hwork
        have hmem : work ∈ worksOf r.task.asyncWorkGenerations :=
          List.mem_flatMap.mpr ⟨generation, hgeneration, hwork⟩
        exact ⟨htable.delivered work hmem hseen, hseen⟩
      · intro hall
        by_contra hopen
        obtain ⟨work, hwork, hunseen⟩ := htable.active generation hgeneration
          (by unfold AsyncWorkGeneration.isOpen; simpa using hopen)
        exact Bool.false_ne_true (hunseen.symm.trans (hall work hwork).2)
    active := by
      intro generation hgeneration hopen
      obtain ⟨work, hwork, hunseen⟩ := htable.active generation hgeneration
        (by unfold AsyncWorkGeneration.isOpen; simp [hopen])
      unfold AsyncWorkRecord.delivered at hunseen
      exact ⟨work, hwork, Or.inl (by simpa using hunseen)⟩ }

/-! ## A run -/

/-- A tool and a child are registered, the tool fails and its error is claimed, the child is blocked and
that is claimed, and the child ends and its result is claimed. -/
def claimedRun : WorkRun :=
  [.registerAsyncWork [{ workId := "read", kind := .tool, label := "read" },
      { workId := "child", kind := .subagent, label := "child", childTaskId := some "c" }] "g" 1,
    .failToolWork "read" "missing" 2, .claimAsyncWorkUpdate 3,
    .markSubagentWaitingForCapability "c" "r" [] 4, .claimAsyncWorkUpdate 5,
    .completeSubagentWork "child" (.cancelled "late") 6, .claimAsyncWorkUpdate 7].foldl
      WorkRun.after ⟨[], { state := .running 0 }, []⟩

/-- The run with a delivery is reachable. -/
theorem reachable_claimedRun : workSystem.Reachable claimedRun := by
  have hstart : workSystem.Reachable ⟨[], { state := .running 0 }, []⟩ := .of_init ⟨rfl, rfl, rfl⟩
  unfold claimedRun
  iterate 7 rw [List.foldl_cons]
  rw [List.foldl_nil]
  iterate 7 refine TransitionSystem.Reachable.step ?_ ⟨_, rfl⟩
  exact hstart

/-- Three updates have brought the two results, and the generation is closed. -/
theorem exact_claimedRun :
    claimedRun.Exact ∧ claimedRun.updates.length = 3 ∧
      claimedRun.results.map AsyncWorkResult.workId = ["read", "child"] ∧
      claimedRun.task.asyncWorkGenerations.map AsyncWorkGeneration.closedAt = [some 7] :=
  ⟨exact_of_reachable reachable_claimedRun, by decide +kernel, by decide +kernel, by decide +kernel⟩

end OsAgent.Kernel
