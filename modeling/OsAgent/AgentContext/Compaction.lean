import OsAgent.AgentContext.Draining
import OsAgent.AgentContext.Durability
import OsAgent.AgentContext.Moves

/-!
# Compaction ends

A compacted frame is no larger than the target of its budget, and the target is below the size from which
a frame is compacted. So nothing more is compacted until the frame gets new entries, and the plan of the
frame goes on where it was. Every attempt at a summary is counted, and the count is bounded until it is set
back, so a summary that fails is not tried for ever. `compaction_ends` is all of this, over every run.
-/

namespace OsAgent.Context

open OsAgent.Library

/-! ## The compacted frame -/

/-- The name of a task's state. -/
def ContextTaskState.name (state : ContextTaskState) : Option JsonValue :=
  (JsonValue.object state.properties).get? "state"

/-- What a plan says of its tasks, without their results. -/
def ContextTaskChain.outline (chain : ContextTaskChain) : List (String × String × Option JsonValue) :=
  chain.tasks.map fun task => (task.id, task.objective, task.state.name)

/-- A compacted task keeps its outline. -/
theorem outline_compact (sealedSourceRef : String) (task : ContextTask) :
    (task.compact sealedSourceRef).id = task.id ∧ (task.compact sealedSourceRef).objective = task.objective ∧
      (task.compact sealedSourceRef).state.name = task.state.name := by
  unfold ContextTask.compact
  split
  · rename_i result hstate
    rw [hstate]
    exact ⟨rfl, rfl, rfl⟩
  · rename_i reason partialResult hstate
    rw [hstate]
    exact ⟨rfl, rfl, rfl⟩
  · exact ⟨rfl, rfl, rfl⟩

/-- A plan with work left is kept, without the results of its tasks. -/
theorem outline_compactedFrame {frame : ContextFrame} (summary : ContextSummary)
    (historyRef sealedSourceRef : String) (h : frame.data.taskChain.settled = false) :
    (compactedFrame frame summary historyRef sealedSourceRef).data.taskChain.outline =
      frame.data.taskChain.outline := by
  have hchain : (compactedFrame frame summary historyRef sealedSourceRef).data.taskChain =
      { frame.data.taskChain with
        tasks := frame.data.taskChain.tasks.map (·.compact sealedSourceRef) } := by
    unfold compactedFrame
    simp only [h, Bool.false_eq_true, if_false]
    cases frame <;> rfl
  unfold ContextTaskChain.outline
  rw [hchain, List.map_map]
  apply List.map_congr_left
  intro task _
  obtain ⟨hid, hobjective, hname⟩ := outline_compact sealedSourceRef task
  show (_, _, _) = (_, _, _)
  rw [hid, hobjective, hname]

/-- A compacted frame is the frame with other data. -/
theorem compactedFrame_eq (frame : ContextFrame) (summary : ContextSummary)
    (historyRef sealedSourceRef : String) :
    compactedFrame frame summary historyRef sealedSourceRef =
      frame.withData (compactedFrame frame summary historyRef sealedSourceRef).data := by
  unfold compactedFrame
  dsimp only
  cases frame <;> split_ifs <;> rfl

/-- Compaction leaves the budget. -/
theorem budget_compactedFrame (frame : ContextFrame) (summary : ContextSummary)
    (historyRef sealedSourceRef : String) :
    (compactedFrame frame summary historyRef sealedSourceRef).data.budget = frame.data.budget := by
  unfold compactedFrame
  dsimp only
  cases frame <;> split_ifs <;> rfl

/-- A summary that is not handed on to the parent. -/
def ContextSummaryPurpose.Compacts (purpose : ContextSummaryPurpose) : Prop :=
  purpose = .compact ∨ purpose = .idle

/-- What a frame is like after it was compacted. -/
structure Compacted (frame frame' : ContextFrame) : Prop where
  small : frame'.size ≤ frame'.data.budget.targetTokens
  outline : frame.data.taskChain.settled = false →
    frame'.data.taskChain.outline = frame.data.taskChain.outline

/-- A summary that compacts keeps the outline of the chain. -/
theorem integrateSummary_compacts {state : ContextCheckpoint} (createId : ℕ → String) (id : String)
    (summary : ContextSummary) {pending : PendingContextSummary} (hpending : state.pendingSummary = some pending)
    (hpurpose : pending.purpose.Compacts) (hlower : state.context.Lower) :
    Returns (integrateSummary id summary)
      (fun _ m => Compacted (active state.context) (active m.state.context)) (state.mutation createId) := by
  simp only [integrateSummary, Returns, wp_bind, wp_draft, wp_lift, wp_nextId, wp_pushWrite,
    wp_ite, wp_assign, wp_assignContext, implies_true, and_true]
  intro pending' hpresent _ _ _ _ _ _ _ _ _ hsize
  have hsame : pending' = pending := by
    rw [requirePresent_eq_ok, ContextCheckpoint.mutation, hpending] at hpresent
    exact (Option.some.inj (Option.filter_eq_some_iff.mp hpresent).1).symm
  have hfits := requireContext_eq_ok.mp hsize
  have hcompacts : pending'.purpose = .compact ∨ pending'.purpose = .idle := by
    rw [hsame]
    exact hpurpose
  rw [if_pos hcompacts, compactedFrame_eq]
  refine (wp_putFrame hlower _).mpr ?_
  intro _ _
  rw [AgentContext.active_withActive, ← compactedFrame_eq]
  constructor
  · rw [budget_compactedFrame]
    exact hfits
  · exact outline_compactedFrame summary _ _

/-! ## What becomes of a pending summary -/

/-- The attempts that a successful operation starts. -/
def Operation.attempts : Operation → ℕ
  | .beginSummaryAttempt => 1
  | _ => 0

/-- A pending summary stays, and its attempts are counted; or it ends, as its frame is compacted. -/
inductive Pends (op : Operation) (pending : PendingContextSummary) (state state' : ContextCheckpoint) : Prop
  | kept (pending' : PendingContextSummary) (h : state'.pendingSummary = some pending')
    (attempts : op ≠ .retrySummary → pending'.attempts = pending.attempts + op.attempts)
  | ended (h : state'.pendingSummary = none)
    (compacts : pending.purpose.Compacts → Compacted (active state.context) (active state'.context))

/-- A summary that is integrated is no longer pending. -/
theorem integrateSummary_ends (state : ContextCheckpoint) (createId : ℕ → String) (id : String)
    (summary : ContextSummary) :
    Returns (integrateSummary id summary)
      (fun _ m => m.state.pendingSummary = none ∧ m.state.policy = state.policy) (state.mutation createId) := by
  simp only [integrateSummary, Returns, wp_bind, wp_draft, wp_lift, wp_nextId, wp_pushWrite,
    wp_ite, wp_assign, wp_assignContext, implies_true, and_true]
  intro _ _ _ _ _ _ _ _ _ _ _ _
  split_ifs
  · exact returns_putFrame _ fun _ _ _ => ⟨trivial, rfl⟩
  · exact fun _ _ _ _ => ⟨trivial, rfl⟩

/-- After a summary was integrated none is pending, and the outline is kept where it compacts. -/
theorem integrateSummary_pends {op : Operation} {state : ContextCheckpoint} (createId : ℕ → String)
    (id : String) (summary : ContextSummary) {pending : PendingContextSummary}
    (hpending : state.pendingSummary = some pending) (hlower : state.context.Lower) :
    Returns (integrateSummary id summary)
      (fun _ m => Pends op pending state m.state ∧
        m.state.policy.maxSummaryAttempts = state.policy.maxSummaryAttempts) (state.mutation createId) := by
  have hends := integrateSummary_ends state createId id summary
  by_cases hpurpose : pending.purpose.Compacts
  · have hcompacts := integrateSummary_compacts createId id summary hpending hpurpose hlower
    refine wp_mono (wp_and hends hcompacts) ?_ (fun _ _ _ => trivial)
    rintro _ m ⟨⟨hnone, hpolicy⟩, hcompacted⟩
    exact ⟨.ended hnone fun _ => hcompacted, by rw [hpolicy]⟩
  · refine wp_mono hends ?_ (fun _ _ _ => trivial)
    rintro _ m ⟨hnone, hpolicy⟩
    exact ⟨.ended hnone fun h => absurd h hpurpose, by rw [hpolicy]⟩

/-- While a summary is pending, every operation counts what it starts. -/
theorem Operation.Makes.pends {sha256 : String → String} {state : ContextCheckpoint} {op : Operation}
    {change : Change Unit} {receiptKeys : List String} (h : op.Makes sha256 state change receiptKeys)
    (createId : ℕ → String) {pending : PendingContextSummary} (hpending : state.pendingSummary = some pending)
    (hlower : state.context.Lower) :
    Returns change
      (fun _ m => Pends op pending state m.state ∧
        m.state.policy.maxSummaryAttempts = state.policy.maxSummaryAttempts) (state.mutation createId) := by
  have hdraft : (state.mutation createId).state.pendingSummary = some pending := hpending
  -- Only an attempt counts; the other operations keep the summary or end it.
  cases h with
  | receive =>
    simp only [acceptDeliveries, Returns, wp_bind, wp_assign, wp_modify]
    exact ⟨.kept pending hpending fun _ => rfl, rfl⟩
  | receiveAvailable =>
    simp only [acceptDeliveries, Returns, wp_bind, wp_assign, wp_modify]
    exact ⟨.kept pending hpending fun _ => rfl, rfl⟩
  | prepare hnone =>
    rw [hpending] at hnone
    cases hnone
  | apply =>
    simp only [applyRound, Returns, wp_bind, wp_draft, wp_lift, requireContext_eq_ok, hdraft,
      Option.isNone_some, Bool.false_eq_true, IsEmpty.forall_iff, implies_true, and_true]
  | beginSummaryAttempt =>
    simp only [countAttempt, Returns, wp_bind, wp_draft, wp_lift, wp_assign, implies_true, and_true]
    intro pending' hpresent _ _
    rw [hdraft, requirePresent_eq_ok] at hpresent
    obtain rfl := Option.some.inj hpresent
    exact ⟨.kept _ rfl fun _ => rfl, rfl⟩
  | configureBudget =>
    simp only [setBudgets, Returns, wp_bind, wp_assign, wp_draft]
    -- The budgets change, and the pending summary is looked up in the changed state.
    refine wp_mono (cursorAt_putBudgets _ _ _ fun frame hf => mem_cursorAt hf) ?_ (fun _ _ h => h)
    rintro _ m ⟨hstate, -⟩
    have hkept : m.state.pendingSummary = some pending := by
      rw [hstate]
      exact hpending
    have hlimit : m.state.policy.maxSummaryAttempts = state.policy.maxSummaryAttempts := by
      rw [hstate]
      rfl
    rw [hkept]
    simp only [wp_bind, wp_archive, wp_assign]
    exact ⟨.kept _ rfl fun _ => rfl, hlimit⟩
  | retrySummary =>
    simp only [resetAttempts, Returns, wp_assign, hdraft, Option.map_some]
    exact ⟨.kept _ rfl fun hretry => absurd rfl hretry, rfl⟩
  | failSummary =>
    simp only [recordFailure, Returns, wp_bind, wp_draft, wp_lift, wp_assign, implies_true, and_true]
    intro pending' hpresent
    rw [hdraft, requirePresent_eq_ok] at hpresent
    obtain rfl := Option.some.inj (Option.filter_eq_some_iff.mp hpresent).1
    exact ⟨.kept _ rfl fun _ => rfl, rfl⟩
  | commitSummaryPhase => exact integrateSummary_pends createId _ _ hpending hlower
  | acknowledgeRound => exact ⟨.kept pending hpending fun _ => rfl, rfl⟩
  | commitSummary => exact integrateSummary_pends createId _ _ hpending hlower

/-! ## Preparing after compaction -/

section Runs

variable (sha256 : String → String)

/-- Nothing is drained where nothing is absorbed. -/
theorem drainDeliveries_nothing {deliveries : List ContextDelivery} {m : Mutation}
    (h : ∀ delivery ∈ deliveries, delivery.absorbed m.state.context = false) :
    drainDeliveries sha256 deliveries m = .ok false m := by
  induction deliveries with
  | nil => rfl
  | cons delivery rest ih =>
    have hid : ((deliveryTarget m.state.context delivery).getD (.one m.state.context.level1)).data.id ≠
        (active m.state.context).data.id := by
      have hnot := h delivery List.mem_cons_self
      simpa [ContextDelivery.absorbed] using hnot
    have hrest := ih fun d hd => h d (List.mem_cons_of_mem _ hd)
    apply eq_of_wp
    simp only [drainDeliveries, wp_bind, wp_draft, wp_ite, if_pos hid]
    exact wp_result hrest

/-- A frame that is small enough stays as it is if it gets nothing. -/
theorem drainInbox_nothing {state : ContextCheckpoint} (createId : ℕ → String)
    (h : ∀ delivery ∈ state.inbox, delivery.absorbed state.context = false)
    (hsmall : (active state.context).size < (active state.context).data.budget.compactAtTokens) :
    Returns (drainInbox sha256) (fun _ m => m.state = state) (state.mutation createId) := by
  have hnothing := drainDeliveries_nothing sha256 (m := state.mutation createId) h
  have hnot : ¬ (active (state.mutation createId).state.context).data.budget.compactAtTokens ≤
      (active (state.mutation createId).state.context).size := Nat.not_le.mpr hsmall
  simp only [drainInbox, Returns, wp_bind, wp_draft, wp_ite, wp_pure]
  split_ifs
  · rfl
  · refine (wp_of_eq hnothing).mpr ?_
    rw [if_neg (by decide), if_neg hnot]
    rfl

/-! ## Runs -/

/-- A compacted frame is below the size from which frames are compacted. -/
theorem Compacted.small_of_valid {frame : ContextFrame} {state : ContextCheckpoint}
    (h : Compacted frame (active state.context)) (hvalid : validateCheckpoint state = .ok ()) :
    (active state.context).size < (active state.context).data.budget.compactAtTokens := by
  have hbudget := (wellFormed_of_validateCheckpoint hvalid).active_data.budget
  simp only [validateBudget, bind_eq_ok, exists_unit, requireContext_eq_ok] at hbudget
  have hsmall := h.small
  omega

/-- The summary with an identity is pending. -/
def Session.Summarises (id : String) (s : Session) : Prop :=
  ∃ pending, s.state.pendingSummary = some pending ∧ pending.id = id

/-- A run during which a summary is pending and `retrySummary` does not succeed, with how many attempts it
starts. -/
inductive Attempts (id : String) (s : Session) : ℕ → Session → Prop
  | start (h : s.Summarises id) : Attempts id s 0 s
  | operation {n : ℕ} {t u : Session} {op : Operation} (h : Attempts id s n t) (env : Surroundings)
    (hop : op ≠ .retrySummary) (hrun : op.perform sha256 env t = .ok () u) (hid : u.Summarises id) :
    Attempts id s (n + op.attempts) u
  | thrown {n : ℕ} {t u : Session} {op : Operation} {fault : Fault} (h : Attempts id s n t)
    (env : Surroundings) (hrun : op.perform sha256 env t = .error fault u) : Attempts id s n u
  | restart {n : ℕ} {t u : Session} (h : Attempts id s n t) (env : Surroundings)
    (hrestore : restoreAgentContextManager env t.key t.store = .ok u) : Attempts id s n u

/-- What a successful operation does to a pending summary. -/
theorem pends_of_perform {s s' : Session} (hd : Durable s) {env : Surroundings} {op : Operation}
    (hrun : op.perform sha256 env s = .ok () s') {pending : PendingContextSummary}
    (hpending : s.state.pendingSummary = some pending) :
    Pends op pending s.state s'.state ∧
      s'.state.policy.maxSummaryAttempts = s.state.policy.maxSummaryAttempts := by
  -- What a change does to the pending summary, its commit does too.
  have hcommitted {change : Change Unit} {receiptKeys : List String}
      (hmakes : op.Makes sha256 s.state change receiptKeys) (hc : Committed env change receiptKeys s s') :
      Pends op pending s.state s'.state ∧
        s'.state.policy.maxSummaryAttempts = s.state.policy.maxSummaryAttempts := by
    obtain ⟨-, m, hm, -, hstate⟩ := hc
    rw [hstate]
    refine (prepared (Q := fun m => Pends op pending s.state m.state ∧
      m.state.policy.maxSummaryAttempts = s.state.policy.maxSummaryAttempts) hm
      (hmakes.pends env.createId hpending hd.lower) ?_).1
    rintro m revision ⟨hpends, hlimit⟩
    refine ⟨?_, hlimit⟩
    cases hpends with
    | kept pending' h attempts => exact .kept pending' h attempts
    | ended h compacts => exact .ended h compacts
  -- An attempt has its own lemma, since it is never skipped.
  by_cases hbegin : op = .beginSummaryAttempt
  · subst hbegin
    have hattempt : wp (Operation.beginSummaryAttempt.perform sha256 env)
        (fun _ => Committed env countAttempt [] s) (fun _ s' => s' = s) s := by
      simp only [Operation.perform, Context.beginSummaryAttempt, wp_bind, wp_get, wp_pure]
      exact mutate_commits env countAttempt [] s
    have hc := wp_ok (Q := fun _ => Committed env countAttempt [] s) hattempt hrun
    exact hcommitted .beginSummaryAttempt hc
  · rcases wp_ok (perform_commits sha256 env op s) hrun with rfl | ⟨change, receiptKeys, hmakes, hc⟩
    · -- Nothing was done, as there is a receipt already.
      have hnone : op.attempts = 0 := by
        cases op with
        | beginSummaryAttempt => exact absurd rfl hbegin
        | _ => rfl
      exact ⟨.kept pending hpending fun _ => by rw [hnone, Nat.add_zero], rfl⟩
    · exact hcommitted hmakes hc

/-- The count of a pending summary's attempts grows by those that are started. -/
theorem attempts_of_run {id : String} {s t : Session} {n : ℕ}
    (h : (sessions sha256 fun _ _ => True).Reachable s) (hrun : Attempts sha256 id s n t) :
    (sessions sha256 fun _ _ => True).Reachable t ∧ t.Summarises id ∧
      t.state.policy.maxSummaryAttempts = s.state.policy.maxSummaryAttempts ∧
      ∀ pending ∈ t.state.pendingSummary, n ≤ pending.attempts := by
  -- Along the run: an operation counts at most its own attempt.
  induction hrun with
  | start hid => exact ⟨h, hid, rfl, fun _ _ => Nat.zero_le _⟩
  | @operation n t u op hrun env hop hperform hid ih =>
    obtain ⟨hreach, ⟨pending, hpending, -⟩, hlimit, hcount⟩ := ih
    have hlast : u = finalState (op.perform sha256 env t) := by
      rw [hperform]
      rfl
    have hbefore := hcount pending hpending
    obtain ⟨hpends, hkept⟩ :=
      pends_of_perform sha256 (durable_of_reachable sha256 hreach) hperform hpending
    refine ⟨hreach.step (.inl ⟨env, op, trivial, hlast⟩), hid, hkept.trans hlimit, ?_⟩
    intro pending' hpending'
    cases hpends with
    | kept pending'' hsome attempts =>
      have hsame : pending'' = pending' := Option.some.inj (hsome.symm.trans hpending')
      rw [← hsame, attempts hop]
      omega
    -- The summary has ended, so it is not pending afterwards.
    | ended hnone =>
      rw [hnone] at hpending'
      cases hpending'
  | @thrown n t u op fault hrun env hperform ih =>
    have hsame := wp_error (E := fun _ s' => s' = t) (perform_commits sha256 env op t) hperform
    rw [hsame]
    exact ih
  | @restart n t u hrun env hrestore ih =>
    rw [(durable_of_reachable sha256 ih.1).restored hrestore]
    exact ih

/-- Once a frame was compacted, it is not compacted again before it gets something, its plan goes on, and no
summary is tried more often than the policy says. -/
theorem compaction_ends {s : Session} (h : (sessions sha256 fun _ _ => True).Reachable s) :
    (∀ env (op : Operation) s' pending, s.state.pendingSummary = some pending → pending.purpose.Compacts →
      op.perform sha256 env s = .ok () s' → s'.state.pendingSummary = none →
        (∀ env', (∀ delivery ∈ s'.state.inbox, delivery.absorbed s'.state.context = false) →
          (finalState (Context.prepare sha256 env' s')).state.pendingSummary = none) ∧
        ((active s.state.context).data.taskChain.settled = false →
          (active s'.state.context).data.taskChain.outline =
            (active s.state.context).data.taskChain.outline)) ∧
      ∀ id n t, Attempts sha256 id s n t → n ≤ s.state.policy.maxSummaryAttempts := by
  have hd := durable_of_reachable sha256 h
  constructor
  · intro env op s' pending hpending hpurpose hperform hdone
    have hlast : s' = finalState (op.perform sha256 env s) := by
      rw [hperform]
      rfl
    have hd' := durable_of_reachable sha256 (h.step (.inl ⟨env, op, trivial, hlast⟩))
    -- The frame was compacted, since the summary was pending before and is not any more.
    have hcompacted : Compacted (active s.state.context) (active s'.state.context) := by
      cases (pends_of_perform sha256 hd hperform hpending).1 with
      | kept pending' hsome =>
        rw [hdone] at hsome
        cases hsome
      | ended hnone compacts => exact compacts hpurpose
    refine ⟨?_, hcompacted.outline⟩
    intro env' hinbox
    -- What remains is small, so the loop over an inbox without input schedules nothing.
    have hnothing := drainInbox_nothing sha256 env'.createId hinbox (hcompacted.small_of_valid hd'.valid)
    refine wp_finalState (P := fun s'' : Session => s''.state.pendingSummary = none) ?_
    simp only [Context.prepare, Ends, wp_bind, wp_get, wp_ite, wp_pure]
    rw [if_pos (by rw [hdone]; rfl)]
    refine wp_mono (mutate_commits env' _ [] s') ?_ ?_
    · rintro _ s'' ⟨-, m, hm, -, hstate⟩
      rw [hstate]
      refine (prepared (Q := fun m => m.state.pendingSummary = none) hm ?_ fun _ _ hnone => hnone).1
      refine wp_mono hnothing ?_ (fun _ _ h => h)
      rintro _ m' hsame
      rw [hsame]
      exact hdone
    · rintro _ s'' rfl
      exact hdone
  · -- Each attempt counts, and the checkpoint would not be valid beyond the limit.
    intro id n t hrun
    obtain ⟨hreach, ⟨pending, hpending, -⟩, hlimit, hcount⟩ := attempts_of_run sha256 h hrun
    have hvalid := (durable_of_reachable sha256 hreach).valid
    simp only [validateCheckpoint, validatePending, bind_eq_ok, exists_unit, checkIfPresent_eq_ok,
      requireContext_eq_ok] at hvalid
    have hbound := (hvalid.2.2.2.2 pending hpending).2.2.2.2.2.2.2.1
    have hn := hcount pending hpending
    omega

end Runs

section Witness

/-- A manager whose frames have room for a summary. -/
def roomyOptions : ContextManagerOptions where
  key := "agent"
  instructions := []
  objective := "serve"
  policy := ⟨fun _ => ⟨2000, 1500, 1000, 5⟩, 1, 1, 1⟩
  initiallyIdle := true

/-- A summary that cites its source. -/
def citingSummary : ContextSummary := { ContextSummary.only "done" with sourceRefs := ["context-history://b0"] }

/-- Whether the context of the manager is compacted, and what it asks for afterwards. -/
def compacts : Bool :=
  match createAgentContextManager (steady "a") roomyOptions .empty with
  | .error _ => false
  | .ok s =>
    match (Operation.commitSummary "2" "b1" citingSummary).perform id (steady "c") (compacting s) with
    | .error .. => false
    | .ok _ s' =>
      s'.state.pendingSummary.isNone && s'.state.inbox.isEmpty &&
        match (compacting s).state.pendingSummary with
        | some pending => pending.purpose = .compact
        | none => false

/-- A manager that has compacted its context has nothing to summarise when it is prepared. -/
theorem compaction_ends_compacting : ∃ s s', createAgentContextManager (steady "a") roomyOptions .empty = .ok s ∧
    (Operation.commitSummary "2" "b1" citingSummary).perform id (steady "c") (compacting s) = .ok () s' ∧
      (finalState (Context.prepare id (steady "d") s')).state.pendingSummary = none := by
  have hcompacts : compacts = true := by decide +kernel
  unfold compacts at hcompacts
  cases hcreated : createAgentContextManager (steady "a") roomyOptions .empty with
  | error e => simp [hcreated] at hcompacts
  | ok s =>
    cases hperform : (Operation.commitSummary "2" "b1" citingSummary).perform id (steady "c") (compacting s) with
    | error e s' => simp [hcreated, hperform] at hcompacts
    | ok u s' =>
      simp only [hcreated, hperform, Bool.and_eq_true, Option.isNone_iff_eq_none, List.isEmpty_iff] at hcompacts
      obtain ⟨⟨hdone, hempty⟩, hpurpose⟩ := hcompacts
      cases hpending : (compacting s).state.pendingSummary with
      | none => simp [hpending] at hpurpose
      | some pending =>
        have hreach : (sessions id fun _ _ => True).Reachable (compacting s) := by
          have hstart : (sessions id fun _ _ => True).Reachable s := .of_init ⟨_, _, hcreated⟩
          exact hstart.step (.inl ⟨_, _, trivial, rfl⟩)
        have hcompact : pending.purpose.Compacts := by
          simp only [hpending, decide_eq_true_eq] at hpurpose
          exact .inl hpurpose
        have hends := (compaction_ends id hreach).1 _ _ s' pending hpending hcompact hperform hdone
        refine ⟨s, s', rfl, hperform, hends.1 (steady "d") ?_⟩
        rw [hempty]
        exact fun _ hmem => absurd hmem List.not_mem_nil

end Witness

end OsAgent.Context
