import OsAgent.AgentScheduler.Progress
import OsAgent.AgentScheduler.Registration
import Mathlib.Tactic.Common
import Mathlib.Tactic.SplitIfs

/-!
# Operations that add

`registerOperations` stages the operations of its options one after another, and then adds what was
staged to the record. An operation that a caller does not name gets an identifier that is drawn. So
what is staged is new to the record if no identifier is drawn that is in use already, and that is
what is asked of the stream of `randomUUID`.

`register` adds what the checkpoint of its agent holds, and `unregister` removes a record that holds
nothing.
-/

namespace OsAgent.AgentScheduler

open OsAgent.Library OsAgent.ControlBlock AgentRecord

variable {env : Environment} {s t : Scheduler} {r : AgentRecord}

/-! ## Identifiers -/

/-- An identifier that is not drawn from the `n`-th drawing on. -/
def Unseen (env : Environment) (n : ℕ) (x : String) : Prop := ∀ k, n ≤ k → env.uuid k ≠ x

/-- Identifiers stay unseen. -/
theorem Unseen.mono {n m : ℕ} {x : String} (h : Unseen env n x) (hnm : n ≤ m) : Unseen env m x :=
  fun k hk => h k (Nat.le_trans hnm hk)

/-- An identifier that was drawn is not drawn again. -/
theorem unseen_of_drawn (hinj : Function.Injective env.uuid) {k n : ℕ} (hk : k < n) :
    Unseen env n (env.uuid k) := by
  intro m hm heq
  have : m = k := hinj heq
  omega

/-- The identifiers that the callers give in an operation's options are not drawn afterwards. -/
def OptionsUnseen (env : Environment) (n : ℕ) (operations : List AsyncOperationOptions) : Prop :=
  ∀ options ∈ operations, ∀ x, options.operationId = some x → Unseen env n x

/-! ## The loop over the options -/

/-- The identifiers that the staged operations are compared with. -/
def Staging.Known (staging : Staging) (x : String) : Prop :=
  x ∈ staging.record.pending.keys ∨ x ∈ staging.terminal.keys

/-- What holds of the operations that have been staged: they belong to the run, and their
identifiers are new to the record. -/
structure Staging.Fresh (env : Environment) (staging : Staging) (n : ℕ)
    (staged : OrderedMap PendingOperation.operationId) : Prop where
  owner : ∀ item ∈ staged.entries,
    item.operation.agentId = staging.run.agentId ∧ item.operation.originRunId = staging.run.runId
  new : ∀ item ∈ staged.entries, ¬staging.Known item.operationId
  unseen : ∀ item ∈ staged.entries, Unseen env n item.operationId

/-- Nothing is staged at the start. -/
theorem Staging.Fresh.empty (staging : Staging) (n : ℕ) : staging.Fresh env n .empty where
  owner _ h := by cases h
  new _ h := by cases h
  unseen _ h := by cases h

/-- Drawing keeps what is staged. -/
theorem Staging.Fresh.mono {staging : Staging} {n m : ℕ}
    {staged : OrderedMap PendingOperation.operationId} (h : staging.Fresh env n staged)
    (hnm : n ≤ m) : staging.Fresh env m staged :=
  { h with unseen := fun item hitem => (h.unseen item hitem).mono hnm }

/-- One more operation is staged. -/
theorem Staging.Fresh.insert {staging : Staging} {n : ℕ}
    {staged : OrderedMap PendingOperation.operationId} (h : staging.Fresh env n staged)
    {item : PendingOperation} (hagent : item.operation.agentId = staging.run.agentId)
    (horigin : item.operation.originRunId = staging.run.runId)
    (hnew : ¬staging.Known item.operationId) (hunseen : Unseen env n item.operationId) :
    staging.Fresh env n (staged.insert item) := by
  have hmem : ∀ x ∈ (staged.insert item).entries, x = item ∨ x ∈ staged.entries := by
    intro x hx
    have hget := OrderedMap.get?_of_mem hx
    rw [OrderedMap.get?_insert] at hget
    split_ifs at hget with hk
    · exact .inl (Option.some.inj hget).symm
    · exact .inr (OrderedMap.mem_of_get? hget)
  refine ⟨fun x hx => ?_, fun x hx => ?_, fun x hx => ?_⟩
  · rcases hmem x hx with rfl | hx
    · exact ⟨hagent, horigin⟩
    · exact h.owner x hx
  · rcases hmem x hx with rfl | hx
    · exact hnew
    · exact h.new x hx
  · rcases hmem x hx with rfl | hx
    · exact hunseen
    · exact h.unseen x hx

/-- One step of the loop stages an operation that is new, or none. -/
theorem wp_stageOperation_fresh {E : Fault → Scheduler → Prop} {staging : Staging}
    {staged : OrderedMap PendingOperation.operationId} {options : AsyncOperationOptions}
    (hinj : Function.Injective env.uuid) (hE : ∀ c m, E (.scheduler c m) t)
    (hknown : ∀ x, staging.Known x → Unseen env t.draws x)
    (hoptions : ∀ x, options.operationId = some x → Unseen env t.draws x)
    (h : staging.Fresh env t.draws staged) :
    wp (stageOperation env staging staged options)
      (fun step t' => t.draws ≤ t'.draws ∧ staging.Fresh env t'.draws step.2) E t := by
  unfold stageOperation
  rw [wp_bind]
  refine wp_nonemptyIfPresent ?_ hE
  cases hprev : staging.previous staged options with
  | some item => exact ⟨Nat.le_refl _, h⟩
  | none =>
    cases hterm : options.operationId.bind staging.terminal.get? with
    | some operation =>
      unfold stageEnded
      simp only [wp_bind, wp_newController, wp_pure]
      exact wp_abort fun _ => ⟨Nat.le_refl _, h⟩
    | none =>
      unfold stageNew
      simp only [wp_bind, wp_pure]
      refine wp_positiveInteger (fun _ => ?_) hE
      refine wp_positiveInteger (fun _ => ?_) hE
      cases hid : options.operationId with
      | some x =>
        -- A named operation was looked up in the record, among the ended, and among the staged.
        refine ⟨Nat.le_refl _, h.insert rfl rfl ?_ (hoptions x hid)⟩
        rw [Staging.previous, hid, Option.bind_some, Option.or_eq_none_iff] at hprev
        rw [hid, Option.bind_some] at hterm
        have hpending := OrderedMap.get?_eq_none_iff.mp hprev.1
        have hended := OrderedMap.get?_eq_none_iff.mp hterm
        exact fun hk => hk.elim hpending hended
      | none =>
        -- A drawn identifier is none of those that are in use.
        have hlt : t.draws < t.draws + 1 := Nat.lt_succ_self _
        refine ⟨Nat.le_succ _, (h.mono (Nat.le_succ _)).insert rfl rfl ?_ ?_⟩
        · exact fun hk => hknown _ hk t.draws (Nat.le_refl _) rfl
        · exact unseen_of_drawn hinj hlt

/-- The loop stages operations that are new. -/
theorem wp_stageOperations_fresh {E : Fault → Scheduler → Prop} {staging : Staging}
    {operations : List AsyncOperationOptions} {staged : OrderedMap PendingOperation.operationId}
    (hinj : Function.Injective env.uuid) (hE : ∀ c m t', E (.scheduler c m) t')
    (hknown : ∀ x, staging.Known x → Unseen env t.draws x)
    (hoptions : OptionsUnseen env t.draws operations) (h : staging.Fresh env t.draws staged) :
    wp (stageOperations env staging operations staged)
      (fun res t' => staging.Fresh env t'.draws res.2) E t := by
  induction operations generalizing t staged with
  | nil => exact h
  | cons first rest ih =>
    unfold stageOperations
    have hfirst := hoptions first List.mem_cons_self
    refine wp_bind_of (wp_stageOperation_fresh hinj (fun c m => hE c m t) hknown hfirst h) ?_
      fun _ _ he => he
    rintro step t₁ ⟨hle, h₁⟩
    have hknown₁ : ∀ x, staging.Known x → Unseen env t₁.draws x :=
      fun x hx => (hknown x hx).mono hle
    have hrest : OptionsUnseen env t₁.draws rest :=
      fun o ho x hx => (hoptions o (List.mem_cons_of_mem _ ho) x hx).mono hle
    exact wp_bind_of (ih hknown₁ hrest h₁) (fun _ _ h₂ => h₂) fun _ _ he => he

/-! ## The record afterwards -/

/-- The identifiers of a record's operations are those that staged operations are compared with. -/
theorem known_iff (run : AgentRun) (startedAt : ℕ) (x : String) :
    (Staging.mk run r (.ofList ((r.completed.entries ++ r.batchResults).map
      AsyncOperationResult.operation)) startedAt).Known x ↔
      x ∈ r.ledger.map AsyncOperation.operationId := by
  have hp : r.pending.keys = r.pendingOperations.map AsyncOperation.operationId := by
    simp [OrderedMap.keys, pendingOperations, PendingOperation.operationId]
  have ht : ∀ es : List AsyncOperation, x ∈ (OrderedMap.ofList es :
      OrderedMap AsyncOperation.operationId).keys ↔ x ∈ es.map AsyncOperation.operationId := by
    intro es
    rw [OrderedMap.ofList, OrderedMap.mem_keys_insertAll]
    simp [OrderedMap.keys]
  rw [Staging.Known, ht, hp, AgentRecord.ledger, AgentRecord.results, List.map_append,
    List.map_append, List.map_append, List.map_append, List.mem_append, List.mem_append,
    List.mem_append]

/-- What is staged is added to the operations in flight. -/
theorem pending_withStaged {staged : OrderedMap PendingOperation.operationId}
    (hnew : ∀ item ∈ staged.entries, item.operationId ∉ r.ledger.map AsyncOperation.operationId) :
    (r.withStaged staged).pending.entries = r.pending.entries ++ staged.entries := by
  refine OrderedMap.entries_insertAll staged.nodup fun item hitem => ?_
  rw [OrderedMap.get?_eq_none_iff]
  intro hmem
  refine hnew item hitem ?_
  rw [AgentRecord.ledger, List.map_append, List.mem_append]
  left
  simpa [OrderedMap.keys, pendingOperations, PendingOperation.operationId] using hmem

/-- A registration of operations has led from `s` to `t`: operations of the agent's run, under new
identifiers, were added to its record, up to the capacity. -/
def Added (env : Environment) (s : Scheduler) (id : AgentId) (t : Scheduler) : Prop :=
  ∃ r current staged, s.agents.get? id = some r ∧ r.run = some current ∧
    Touched s t (r.withStaged staged) ∧
    (∀ item ∈ staged.entries,
      item.operationId ∉ r.ledger.map AsyncOperation.operationId ∧
        item.operation.originRunId = current.runId ∧ Unseen env t.draws item.operationId) ∧
    r.buffered + staged.size ≤ env.configuration.maxBufferedOperations.val

/-- `registerOperations` draws and changes nothing else, or it adds operations. -/
theorem registerOperations_adds {run : AgentRun} {operations : List AsyncOperationOptions}
    (hinj : Function.Injective env.uuid)
    (hseen : ∀ r, s.agents.get? run.agentId = some r →
      ∀ o ∈ r.ledger, Unseen env s.draws o.operationId)
    (hoptions : OptionsUnseen env s.draws operations) :
    Ends (registerOperations env run operations)
      (fun t => Drawn s t ∨ Added env s run.agentId t) s := by
  unfold registerOperations Ends
  rw [wp_bind]
  refine wp_activeRecord (fun _ => .inl (.refl s)) fun r current hr hid hrun hrunId _ => ?_
  rw [wp_bind, wp_now]
  have hd₀ : Drawn s { s with readings := s.readings + 1 } := { Drawn.refl s with }
  have hknown : ∀ x, (Staging.mk run r (.ofList ((r.completed.entries ++ r.batchResults).map
      AsyncOperationResult.operation)) (env.clock s.readings)).Known x → Unseen env s.draws x := by
    intro x hx
    obtain ⟨o, ho, rfl⟩ := List.mem_map.mp ((known_iff run _ x).mp hx)
    exact hseen r (hid ▸ hr) o ho
  have hstage := wp_and
    (wp_stageOperations (E := fun _ t' => Drawn s t')
      (fun _ _ _ h => hd₀.trans h))
    (wp_stageOperations_fresh (E := fun _ _ => True) (t := { s with readings := s.readings + 1 })
      hinj (fun _ _ _ => trivial) hknown hoptions (.empty _ _))
  refine wp_bind_of hstage ?_ fun _ _ he => .inl he.1
  rintro ⟨items, staged⟩ t ⟨hd, hf⟩
  have hd' : Drawn s t := hd₀.trans hd
  simp only [wp_ite, wp_bind, wp_fail, wp_update]
  split_ifs with hcap
  · exact .inl hd'
  · have hbase : Touched s t r :=
      (Touched.refl hr).congr hd'.agents hd'.draws hd'.saves hd'.closed hd'.failure
    have ht := hbase.put (r.withStaged staged) rfl
    have hdone : ∀ t', Touched s t' (r.withStaged staged) → t.draws ≤ t'.draws →
        Added env s run.agentId t' := by
      intro t' h' hle
      refine ⟨r, current, staged, hid ▸ hr, hrun, h', fun item hitem => ⟨?_, ?_, ?_⟩, ?_⟩
      · exact fun hmem => hf.new item hitem ((known_iff run _ _).mpr hmem)
      · exact (hf.owner item hitem).2.trans hrunId.symm
      · exact (hf.unseen item hitem).mono hle
      · exact Nat.not_lt.mp hcap
    have hself : (t.put (r.withStaged staged)).agents.get? (r.withStaged staged).agentId =
        some (r.withStaged staged) := OrderedMap.get?_insert_self ..
    -- Saving draws nothing.
    have hpersist := wp_and (@wp_persist_touched env _ _ _ ht)
      (@wp_persist_touched env _ _ _ (Touched.refl hself))
    refine wp_mono hpersist ?_ fun e t' h => .inr (hdone t' h.1 h.2.draws)
    rintro _ t' ⟨h₁, h₂⟩
    refine wp_armTimer fun timer n => .inr (hdone _ ?_ h₂.draws)
    exact ((h₁.put { r.withStaged staged with timer } rfl).read n).of_clearTimeout rfl

/-! ## Registration and its end -/

namespace AgentSchedulerCheckpoint

/-- The batch of a checkpoint, queued or running. -/
def batch (c : AgentSchedulerCheckpoint) : Option AgentDispatchBatch :=
  (c.running.map AgentRun.batch).or c.queuedBatch

/-- The results that a checkpoint holds. -/
def results (c : AgentSchedulerCheckpoint) : List AsyncOperationResult :=
  c.completedResults ++ (c.batch.map AgentDispatchBatch.results).getD []

/-- The operations that a checkpoint holds, in flight or ended. -/
def ledger (c : AgentSchedulerCheckpoint) : List AsyncOperation :=
  c.pendingOperations ++ c.results.map AsyncOperationResult.operation

end AgentSchedulerCheckpoint

/-- The batch of a record is saved, whether it is queued or running. -/
theorem batch_checkpoint (hr : r.Consistent) : r.checkpoint.batch = r.batch := by
  unfold AgentSchedulerCheckpoint.batch
  cases hrun : r.run with
  | none => simp [checkpoint, snapshot, hrun]
  | some run => simp [checkpoint, snapshot, hrun, (hr.run run hrun).2]

/-- The results of a record are saved. -/
theorem results_checkpoint (hr : r.Consistent) : r.checkpoint.results = r.results := by
  rw [AgentSchedulerCheckpoint.results, batch_checkpoint hr]
  rfl

/-- The operations of a record are saved. -/
theorem ledger_checkpoint (hr : r.Consistent) : r.checkpoint.ledger = r.ledger := by
  rw [AgentSchedulerCheckpoint.ledger, results_checkpoint hr]
  rfl

/-- A registration has led from `s` to `t`: it wrote a record that holds what is stored of the
agent, and reconciled it. -/
def Registered (env : Environment) (s : Scheduler) (id : AgentId) (t : Scheduler) : Prop :=
  s.agents.get? id = none ∧ ∃ r₀ r, Touched s t r ∧ Carried r₀ r ∧ r₀.agentId = id ∧
    r₀.run = none ∧
    r₀.results = ((stored env s id).map AgentSchedulerCheckpoint.results).getD [] ∧
    r₀.ledger = ((stored env s id).map AgentSchedulerCheckpoint.ledger).getD []

/-- `register` changes nothing, or it writes a record that holds what is stored of the agent. -/
theorem register_adds {agent : SchedulingHandle} (hsaves : ∀ c ∈ s.saves, c.Restorable) :
    Ends (register env agent) (fun t => t = s ∨ Registered env s agent.agentId t) s := by
  unfold register Ends
  rw [wp_bind]
  refine wp_positiveInteger (fun _ => ?_) (fun _ _ => .inl rfl)
  rw [wp_bind, wp_get]
  by_cases hhas : s.agents.has agent.agentId = true
  · simp only [if_pos hhas]
    exact .inl rfl
  · simp only [if_neg hhas]
    have hnone : s.agents.get? agent.agentId = none := by
      simpa [OrderedMap.has] using hhas
    by_cases hst : agent.state ≠ .ready ∧ agent.state ≠ .sleeping
    · simp only [if_pos hst]
      exact .inl rfl
    · simp only [if_neg hst]
      -- Whatever the record, it is written and reconciled.
      have hrest : ∀ t (r₀ : AgentRecord), Touched s (t.put r₀) r₀ → r₀.agentId = agent.agentId →
          r₀.run = none →
          r₀.results = ((stored env s agent.agentId).map
            AgentSchedulerCheckpoint.results).getD [] →
          r₀.ledger = ((stored env s agent.agentId).map
            AgentSchedulerCheckpoint.ledger).getD [] →
          Ends (do update r₀; reconcile env r₀)
            (fun t => t = s ∨ Registered env s agent.agentId t) t := by
        intro t r₀ h hid hrun hres hled
        have hend : ∀ t', Held s (Carried r₀) t' → t' = s ∨ Registered env s agent.agentId t' := by
          rintro t' ⟨r, hr, hc⟩
          exact .inr ⟨hnone, r₀, r, hr, hc, hid, hrun, hres, hled⟩
        exact wp_mono (wp_reconcile_carried h) (fun _ t' => hend t') fun _ t' => hend t'
      refine wp_bind_of (wp_load (Q := fun c t => c = stored env s agent.agentId ∧ s = t)
        (E := fun _ _ => False) ⟨rfl, rfl⟩) ?_ fun _ _ he => he.elim
      rintro _ _ ⟨rfl, rfl⟩
      cases hc : stored env s agent.agentId with
      | none =>
        rw [hc] at hrest
        exact hrest s (fresh agent) (.register (.refl s)) rfl rfl rfl rfl
      | some c =>
        rw [hc] at hrest
        obtain ⟨hmem, hcid⟩ := mem_of_stored hc
        obtain ⟨r, hr, rfl⟩ := hsaves c hmem
        simp only [wp_bind]
        refine wp_restoreRecord hr.toConsistent hcid fun pending hpending => ?_
        have hops : pending.entries.map PendingOperation.operation = r.pendingOperations := by
          rw [hpending, map_operation_numbered]
        have hres : (restored r agent pending).results = r.checkpoint.results :=
          (results_checkpoint hr.toConsistent).symm
        have hled : (restored r agent pending).ledger = r.checkpoint.ledger := by
          rw [ledger_checkpoint hr.toConsistent, AgentRecord.ledger, AgentRecord.ledger,
            ← hops]
          rfl
        exact hrest _ (restored r agent pending) (.reopened _) rfl rfl hres hled

/-- `unregister` changes nothing, or removes a record that holds nothing. -/
theorem unregister_removes {agentId : AgentId} :
    Ends (unregister agentId) (fun t => t = s ∨ ∃ r, s.Available ∧
      s.agents.get? agentId = some r ∧ r.ledger = [] ∧ r.results = [] ∧
        t = { s with agents := s.agents.delete agentId }) s := by
  unfold unregister Ends
  rw [wp_bind]
  refine wp_recordOf (fun r ha hr => ?_) (fun _ _ => .inl rfl) (fun _ _ => .inl rfl)
  simp only [wp_ite, wp_bind, wp_fail, wp_modify]
  split_ifs with h
  · exact .inl trivial
  · simp only [not_or, Nat.pos_iff_ne_zero, not_not, OrderedMap.size_eq_zero_iff] at h
    obtain ⟨-, hp, hc, -, hb, -⟩ := h
    have hb' : r.batch = none := by simpa using hb
    have hres : r.results = [] := by simp [AgentRecord.results, batchResults, hc, hb']
    refine .inr ⟨r, ha, hr, ?_, hres, trivial⟩
    simp [AgentRecord.ledger, hres, pendingOperations, hp]

/-- `close` stops the timers and keeps the records. -/
theorem close_advances {P : AgentRun → Prop} (hs : AllSound s) :
    Ends close (Advances P s) s := by
  unfold close stopTimers Ends
  simp only [wp_bind, wp_modify]
  refine ⟨fun id r hr => ?_, fun id hid => ?_, Nat.le_refl _, fun _ _ => rfl,
    fun ha => (by cases ha.1), fun _ => rfl⟩
  · refine ⟨r.clearTimeout, ?_, .of_clearTimeout (hs id r hr) rfl⟩
    rw [OrderedMap.get?_map, hr, Option.map_some]
  · rw [OrderedMap.get?_map, hid, Option.map_none]

/-- `waitForReady` keeps the records. -/
theorem waitForReady_advances {P : AgentRun → Prop} {aborted : Bool} {waiter : ℕ}
    (hs : AllSound s) : Ends (waitForReady env aborted waiter) (Advances P s) s := by
  unfold waitForReady Ends
  rw [wp_bind]
  refine wp_available (fun _ => ?_) (fun _ _ _ => .refl hs) fun _ _ => .refl hs
  simp only [wp_ite, wp_bind, wp_pure, wp_get, wp_set]
  split_ifs
  · exact .refl hs
  · exact .refl hs
  · exact (Advances.refl hs).congr rfl (Nat.le_refl _) rfl fun ha => ha

end OsAgent.AgentScheduler
