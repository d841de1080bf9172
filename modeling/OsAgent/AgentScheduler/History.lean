import OsAgent.AgentScheduler.Conservation
import Mathlib.Data.List.Perm.Basic
import Mathlib.Data.List.Nodup
import Mathlib.Tactic.Common
import Mathlib.Tactic.SplitIfs
import Mathlib.Algebra.GroupWithZero.Nat

/-!
# Histories of the scheduler

A history remembers which operations were put in flight and which batches were consumed.
`exactlyOnce_of_reachable` is what holds of every history: an operation is never lost and never
delivered twice, and its outcome is recorded once.
-/

namespace OsAgent.AgentScheduler

open OsAgent.Library OsAgent.ControlBlock AgentRecord

variable {env : Environment} {s t : Scheduler} {r r' : AgentRecord} {id : AgentId}

/-! ## What an operation adds and consumes -/

/-- The operations that a step puts in flight for an agent. -/
def created (op : Operation) (s t : Scheduler) (id : AgentId) : List AsyncOperation :=
  match op with
  | .registerOperations run _ =>
    if run.agentId = id then (pendingOf t id).filter (fun o => o ∉ pendingOf s id) else []
  | _ => []

/-- The batch that a step consumes for an agent. -/
def finishedBatch (op : Operation) (s : Scheduler) (id : AgentId) : Option AgentDispatchBatch :=
  match op with
  | .finishRun run _ => if run.agentId = id then (s.active run).bind AgentRecord.batch else none
  | _ => none

/-- The results of the batch that a step consumes for an agent. -/
def finishedResults (op : Operation) (s : Scheduler) (id : AgentId) : List AsyncOperationResult :=
  ((finishedBatch op s id).map AgentDispatchBatch.results).getD []

/-- What a run of the scheduler asks of an operation: a control block is registered in the state
that a restarting runtime chooses, and an identifier that a caller gives is not drawn later. -/
def Admitted (env : Environment) (s : Scheduler) (op : Operation) : Prop :=
  Attached env s op ∧ ∀ run operations, op = .registerOperations run operations →
    OptionsUnseen env s.draws operations

/-- What the step of `registerOperations` puts in flight is what it staged. -/
theorem created_of_touched {run : AgentRun} {operations : List AsyncOperationOptions}
    {staged : OrderedMap PendingOperation.operationId} (hr : s.agents.get? run.agentId = some r)
    (h : Touched s t (r.withStaged staged))
    (hnew : ∀ item ∈ staged.entries, item.operationId ∉ r.ledger.map AsyncOperation.operationId) :
    created (.registerOperations run operations) s t run.agentId =
      staged.entries.map PendingOperation.operation := by
  have hid : r.agentId = run.agentId := OrderedMap.key_of_get? hr
  obtain ⟨timer, hself⟩ := h.get?_self
  rw [show (r.withStaged staged).agentId = run.agentId from hid] at hself
  have hold : pendingOf s run.agentId = r.pendingOperations := by simp [pendingOf, hr]
  have hpend : pendingOf t run.agentId =
      r.pendingOperations ++ staged.entries.map PendingOperation.operation := by
    simp [pendingOf, hself, pendingOperations, pending_withStaged hnew]
  simp only [created, if_true, hpend, hold]
  rw [List.filter_append]
  have hnone : r.pendingOperations.filter (fun o => o ∉ r.pendingOperations) = [] := by
    simp
  have hall : (staged.entries.map PendingOperation.operation).filter
      (fun o => o ∉ r.pendingOperations) = staged.entries.map PendingOperation.operation := by
    rw [List.filter_eq_self]
    intro o ho
    obtain ⟨item, hitem, rfl⟩ := List.mem_map.mp ho
    simp only [decide_eq_true_eq]
    intro hmem
    refine hnew item hitem ?_
    rw [AgentRecord.ledger, List.map_append]
    exact List.mem_append_left _ (List.mem_map_of_mem hmem)
  rw [hnone, hall, List.nil_append]

/-- The step of `registerOperations`, for the agent of the run. -/
theorem moves_registerOperations {run current : AgentRun}
    {staged : OrderedMap PendingOperation.operationId} (hs : AllSound s)
    (hr : s.agents.get? run.agentId = some r) (hrun : r.run = some current)
    (h : Touched s t (r.withStaged staged))
    (hnew : ∀ item ∈ staged.entries,
      item.operationId ∉ r.ledger.map AsyncOperation.operationId ∧
        item.operation.originRunId = current.runId ∧ Unseen env t.draws item.operationId)
    (hcap : r.buffered + staged.size ≤ env.configuration.maxBufferedOperations.val) :
    Moves env s t run.agentId (staged.entries.map PendingOperation.operation) [] := by
  have hid : r.agentId = run.agentId := OrderedMap.key_of_get? hr
  obtain ⟨timer, hself⟩ := h.get?_self
  rw [show (r.withStaged staged).agentId = run.agentId from hid] at hself
  have hpend := pending_withStaged fun item hitem => (hnew item hitem).1
  refine ⟨?_, fun result hres => .inl ?_, fun _ => ?_, h.draws, fun r' hr' => ?_⟩
  · -- The new operations are added to those in flight.
    rw [holdings_of_get? hr, holdings_of_get? hself]
    have hled : ({ r.withStaged staged with timer } : AgentRecord).ledger =
        r.pendingOperations ++ (staged.entries.map PendingOperation.operation ++
          r.results.map AsyncOperationResult.operation) := by
      have hmap := congrArg (List.map PendingOperation.operation) hpend
      rw [List.map_append] at hmap
      show (r.withStaged staged).pending.entries.map PendingOperation.operation ++ _ = _
      rw [hmap, List.append_assoc]
      rfl
    rw [hled, AgentRecord.ledger, List.map_nil, List.append_nil, List.append_assoc]
    exact List.perm_append_comm.append_left _
  · rw [outcomesOf_of_get? hr] at hres
    rw [outcomesOf_of_get? hself]
    exact hres
  · rw [holdings_of_get? hr, length_ledger]
    -- They come from the run under way and were never seen.
    refine ⟨r, current, hr, hrun, fun o ho => ?_, ?_, ?_⟩
    · obtain ⟨item, hitem, rfl⟩ := List.mem_map.mp ho
      obtain ⟨hkey, horigin, hunseen⟩ := hnew item hitem
      exact ⟨horigin, hkey, hunseen⟩
    · rw [List.map_map]
      exact staged.nodup
    · rw [List.length_map]
      exact hcap
  · obtain rfl := Option.some.inj (hself.symm.trans hr')
    exact ⟨(hs _ _ hr).run, .inr (.inl ⟨rfl, r, hr, rfl, rfl⟩)⟩

/-- The step of `finishRun`. -/
theorem step_finishRun {run : AgentRun} {intent : AgentRunIntent}
    (hr : s.agents.get? run.agentId = some r) (hact : s.active run = some r)
    (h : Advances (fun _ => False) (s.put (r.finished intent)) t) :
    Step env s t (fun _ => []) (finishedResults (.finishRun run intent) s) where
  moves id := by
    have hid : r.agentId = run.agentId := OrderedMap.key_of_get? hr
    by_cases hne : id = run.agentId
    · subst hne
      have hself : (s.put (r.finished intent)).agents.get? run.agentId =
          some (r.finished intent) := by
        rw [show run.agentId = (r.finished intent).agentId from hid.symm]
        exact OrderedMap.get?_insert_self ..
      obtain ⟨r', hr', hp⟩ := h.record _ _ hself
      have hgone : finishedResults (.finishRun run intent) s run.agentId = r.batchResults := by
        simp [finishedResults, finishedBatch, hact, batchResults]
      rw [hgone]
      -- The results of the batch leave with the run.
      refine ⟨?_, fun result hres => ?_, fun hf => absurd rfl hf, h.draws, fun r₁ hr₁ => ?_⟩
      · rw [holdings_of_get? hr, holdings_of_get? hr', List.append_nil,
          ← ledger_finished (r := r) intent]
        exact hp.ledger.append_right _
      · -- The outcomes that are left are those of before, without the batch's.
        rw [outcomesOf_of_get? hr] at hres
        rw [outcomesOf_of_get? hr']
        rcases List.mem_append.mp hres with hc | hb
        · exact .inl (hp.results result (List.mem_append_left _ hc))
        · exact .inr hb
      · obtain rfl := Option.some.inj (hr'.symm.trans hr₁)
        refine ⟨hp.batch, .inl ?_⟩
        rcases hp.run with hn | ⟨hn, -⟩ | ⟨_, _, hF⟩
        · exact hn
        · exact hn
        · exact hF.elim
    · -- The other agents hold what they held.
      have hgone : finishedResults (.finishRun run intent) s id = [] := by
        simp [finishedResults, finishedBatch, Ne.symm hne]
      rw [hgone]
      have hother : (s.put (r.finished intent)).agents.get? id = s.agents.get? id :=
        OrderedMap.get?_insert_of_ne _ fun heq => hne (heq.trans hid)
      cases hr₁ : s.agents.get? id with
      | none =>
        rw [hr₁] at hother
        exact .of_absent hr₁ (h.absent id hother) (h.latest id hother) h.draws
      | some r₁ =>
        rw [hr₁] at hother
        obtain ⟨r', hr', hp⟩ := h.record id r₁ hother
        exact .of_progress hr₁ hr' (hp.mono fun _ hF => hF.elim) h.draws
  alive := h.alive
  frozen := h.frozen

/-- The step of `register`. -/
theorem step_register (hs : AllSound s)
    (hkeys : ((holdings env s id).map AsyncOperation.operationId).Nodup)
    (h : Registered env s id t) : Step env s t (fun _ => []) (fun _ => []) := by
  obtain ⟨hnone, r₀, r, ht, hc, rfl, hrun, hres, hled⟩ := h
  rw [holdings_of_none hnone, ← hled] at hkeys
  have hsound : r₀.Sound := ⟨hkeys, fun _ => hrun⟩
  have hp : Progress (fun _ => False) r₀ r := .of_carried hsound hc
  refine ⟨fun id => ?_, ht.alive, ht.frozen⟩
  by_cases hid : id = r.agentId
  · subst hid
    rw [hc.agentId] at *
    obtain ⟨timer, hself⟩ := ht.get?_self
    rw [hc.agentId] at hself
    refine ⟨?_, fun result hr => .inl ?_, fun hf => absurd rfl hf, ht.draws, fun r₁ hr₁ => ?_⟩
    · rw [holdings_of_none hnone, holdings_of_get? hself, ← hled]
      rw [List.map_nil, List.append_nil, List.append_nil]
      exact hp.ledger
    · rw [outcomesOf_of_none hnone, ← hres] at hr
      rw [outcomesOf_of_get? hself]
      exact hp.results result hr
    · obtain rfl := Option.some.inj (hself.symm.trans hr₁)
      have hn : r.run = none := hc.run.trans hrun
      exact ⟨fun _ => hn, .inl hn⟩
  · exact .of_touched_of_ne hs ht hid

/-- The step of `unregister`: a record that holds nothing has a checkpoint that holds nothing. -/
theorem step_unregister (hs : AllSound s) (hi : Invariant env s)
    (hr : s.agents.get? id = some r) (hled : r.ledger = []) (hres : r.results = []) :
    Step env s { s with agents := s.agents.delete id } (fun _ => []) (fun _ => []) := by
  refine ⟨fun id' => ?_, fun ha => ha, fun _ => rfl⟩
  by_cases hid : id' = id
  · subst hid
    have hcons := (hi.settled _ r hr).toConsistent
    have hk : r.agentId = id' := OrderedMap.key_of_get? hr
    have hnone : (s.agents.delete id').get? id' = none := OrderedMap.get?_delete_self ..
    -- What is stored for the agent is its last checkpoint, which holds nothing.
    have hst : stored env { s with agents := s.agents.delete id' } id' =
        if env.persistent then some r.checkpoint else none := by
      unfold stored
      split_ifs with hp
      · rw [← hi.saved id' r hr hp, hk]
      · rfl
    have hempty : holdings env { s with agents := s.agents.delete id' } id' = [] := by
      rw [holdings_of_none hnone, hst]
      split_ifs
      · simp [ledger_checkpoint hcons, hled]
      · rfl
    refine ⟨?_, fun result hmem => ?_, fun hf => absurd rfl hf, Nat.le_refl _, fun r₁ h₁ => ?_⟩
    · rw [hempty, holdings_of_get? hr, hled]
      rfl
    · rw [outcomesOf_of_get? hr, hres] at hmem
      cases hmem
    · rw [show ({ s with agents := s.agents.delete id' } : Scheduler).agents.get? id' = none from
        hnone] at h₁
      cases h₁
  · -- The other agents are not touched.
    have hother : (s.agents.delete id).get? id' = s.agents.get? id' :=
      OrderedMap.get?_delete_of_ne _ hid
    cases hr' : s.agents.get? id' with
    | none => exact .of_absent hr' (hother.trans hr') rfl (Nat.le_refl _)
    | some r' =>
      exact .of_progress hr' (hother.trans hr') (.refl (hs id' r' hr')) (Nat.le_refl _)

/-- What an operation does to what the agents hold. -/
theorem step_perform {registered consumed : AgentId → List AsyncOperation} {op : Operation}
    (hinj : Function.Injective env.uuid)
    (hacc : ∀ id, Account env s id (registered id) (consumed id))
    (hsaves : ∀ c ∈ s.saves, c.Restorable) (hinv : s.Available → Invariant env s)
    (hop : Admitted env s op) :
    Step env s (finalState (op.perform env s)) (created op s (finalState (op.perform env s)))
      (finishedResults op s) := by
  have hs : AllSound s := .of_accounts hacc
  refine wp_finalState (P := fun t => Step env s t (created op s t) (finishedResults op s)) ?_
  -- An operation that neither adds nor removes is a step of advances.
  have hquiet : ∀ {α : Type} {x : M α} {P : Scheduler → Prop}, Ends x P s →
      (∀ t, P t → Step env s t (fun _ => []) (fun _ => [])) →
      Ends (do let _ ← x) (fun t => Step env s t (fun _ => []) (fun _ => [])) s :=
    fun h hP => wp_bind_of h (fun _ t ht => hP t ht) fun _ t ht => hP t ht
  have hunit : ∀ {x : M Unit} {P : Scheduler → Prop}, Ends x P s →
      (∀ t, P t → Step env s t (fun _ => []) (fun _ => [])) →
      Ends x (fun t => Step env s t (fun _ => []) (fun _ => [])) s :=
    fun h hP => wp_mono h (fun _ t ht => hP t ht) fun _ t ht => hP t ht
  have hsame : ∀ t, Advances (fun _ => False) s t → Step env s t (fun _ => []) (fun _ => []) :=
    fun t h => .of_advances (h.mono fun _ hF => hF.elim)
  have hrefl : Step env s s (fun _ => []) (fun _ => []) := hsame s (.refl hs)
  cases op with
  | register agent =>
    refine hunit (register_adds hsaves) fun t ht => ?_
    rcases ht with rfl | ht
    · exact hrefl
    · exact step_register hs (hacc _).keys ht
  | unregister agentId =>
    refine hunit unregister_removes fun t ht => ?_
    rcases ht with rfl | ⟨r, ha, hr, hled, hres, rfl⟩
    · exact hrefl
    · exact step_unregister hs (hinv ha) hr hled hres
  | notify agentId event => exact hquiet (notify_advances hs) hsame
  | takeNextRun => exact hquiet (takeNextRun_advances hs) fun t ht => .of_advances ht
  | registerOperations run operations =>
    -- The operations are new, since the agent does not hold them.
    have hseen : ∀ r, s.agents.get? run.agentId = some r →
        ∀ o ∈ r.ledger, Unseen env s.draws o.operationId := by
      intro r hr o ho
      have hheld : holdings env s run.agentId = r.ledger := holdings_of_get? hr
      rw [← hheld] at ho
      exact ((hacc _).seen o ((hacc _).mem_registered ho)).1
    have hadds : Ends (registerOperations env run operations)
        (fun t => Drawn s t ∨ Added env s run.agentId t) s :=
      registerOperations_adds hinj hseen (hop.2 run operations rfl)
    have hend : ∀ t, Drawn s t ∨ Added env s run.agentId t →
        Step env s t (created (.registerOperations run operations) s t)
          (finishedResults (.registerOperations run operations) s) := by
      rintro t (hd | ⟨r, current, staged, hr, hrun, ht, hnew, hcap⟩)
      · -- Nothing was registered.
        have hnone : created (.registerOperations run operations) s t = fun _ => [] := by
          funext id
          have : pendingOf t id = pendingOf s id := by simp [pendingOf, hd.agents]
          simp [created, this]
        rw [hnone]
        exact hsame t (.of_drawn hs hd)
      · refine ⟨fun id => ?_, ht.alive, ht.frozen⟩
        by_cases hid : id = run.agentId
        · subst hid
          rw [created_of_touched hr ht fun item hitem => (hnew item hitem).1]
          exact moves_registerOperations hs hr hrun ht hnew hcap
        · have hk : r.agentId = run.agentId := OrderedMap.key_of_get? hr
          have hnone : created (.registerOperations run operations) s t id = [] := by
            simp [created, Ne.symm hid]
          rw [hnone]
          exact .of_touched_of_ne hs ht fun heq => hid (heq.trans hk)
    exact wp_bind_of hadds (fun _ t ht => hend t ht) fun _ t ht => hend t ht
  | completeOperation operation outcome => exact hquiet (completeOperation_advances hs) hsame
  | finishRun run intent =>
    have hend : ∀ t, s.active run = none ∧ t = s ∨ Consumed s run intent t →
        Step env s t (fun _ => []) (finishedResults (.finishRun run intent) s) := by
      -- No run is under way, so nothing is finished.
      rintro t (⟨hn, rfl⟩ | ⟨r, hact, hr, ht⟩)
      · have hnone : finishedResults (.finishRun run intent) t = fun _ => [] := by
          funext id
          simp [finishedResults, finishedBatch, hn]
        rw [hnone]
        exact hrefl
      · exact step_finishRun hr hact ht
    exact wp_mono (finishRun_advances hs) (fun _ t ht => hend t ht) fun _ t ht => hend t ht
  | returnRun run => exact hunit (returnRun_advances hs) hsame
  | suspend agentId suspension => exact hunit (suspend_advances hs) hsame
  | resume agentId => exact hunit (resume_advances hs) hsame
  | cancelOperations agentId reason => exact hunit (cancelOperations_advances hs) hsame
  | timer agentId => exact hunit (fireTimer_advances hs) hsame
  | waitForReady aborted waiter => exact hquiet (waitForReady_advances hs) hsame
  | abortWait waiter =>
    exact hsame _ ((Advances.refl hs).congr rfl (Nat.le_refl _) rfl fun ha => ha)
  | operationHandle operation =>
    refine hquiet (ends_recordOf hs fun r hr hid => ?_) hsame
    split <;> exact .refl hs
  | inspect agentId => exact hquiet (ends_recordOf hs fun r hr hid => .refl hs) hsame
  | close => exact hunit (close_advances hs) hsame

end OsAgent.AgentScheduler
