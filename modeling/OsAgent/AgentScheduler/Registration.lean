import OsAgent.AgentScheduler.Operations
import Mathlib.Tactic.Common
import Mathlib.Tactic.SplitIfs

/-!
# Registration

An agent is registered without a checkpoint, or with the newest one that the store has. In the
second case the control block's state is the one that a restarting runtime chooses, and it fits
whatever the checkpoint holds: `reconcile` brings the restored record to rest.
-/

namespace OsAgent.AgentScheduler

open OsAgent.Library OsAgent.ControlBlock AgentRecord

variable {env : Environment} {s t : Scheduler} {r : AgentRecord}

/-- The checkpoint that a registration finds. -/
def stored (env : Environment) (s : Scheduler) (id : AgentId) : Option AgentSchedulerCheckpoint :=
  if env.persistent then latest s.saves id else none

/-- The newest checkpoint of an agent is one of its checkpoints. -/
theorem mem_of_latest {saves : List AgentSchedulerCheckpoint} {id : AgentId}
    {c : AgentSchedulerCheckpoint} (h : latest saves id = some c) : c ∈ saves ∧ c.agentId = id := by
  unfold latest at h
  have hid := List.find?_some h
  exact ⟨List.mem_of_find?_eq_some h, of_decide_eq_true hid⟩

/-- What is stored of an agent is one of its checkpoints. -/
theorem mem_of_stored {id : AgentId} {c : AgentSchedulerCheckpoint} (h : stored env s id = some c) :
    c ∈ s.saves ∧ c.agentId = id := by
  unfold stored at h
  split_ifs at h
  exact mem_of_latest h

/-- Loading reads what is stored. -/
theorem wp_load {Q : Option AgentSchedulerCheckpoint → Scheduler → Prop}
    {E : Fault → Scheduler → Prop} {id : AgentId} (h : Q (stored env t id) t) :
    wp (load env id) Q E t := h

/-- Operations in flight with controllers that are created from the `n`-th on. -/
def numbered (n : ℕ) : List AsyncOperation → List PendingOperation
  | [] => []
  | operation :: rest => { operation, controller := n } :: numbered (n + 1) rest

/-- Controllers do not matter for the operations. -/
theorem map_operation_numbered (n : ℕ) (operations : List AsyncOperation) :
    (numbered n operations).map PendingOperation.operation = operations := by
  induction operations generalizing n with
  | nil => rfl
  | cons operation rest ih => simp [numbered, ih]

/-- As many operations are in flight as before. -/
theorem size_eq_of_numbered {pending : OrderedMap PendingOperation.operationId} {n : ℕ}
    (h : pending.entries = numbered n r.pendingOperations) : pending.size = r.pending.size := by
  have hmap := congrArg List.length (map_operation_numbered n r.pendingOperations)
  rw [← h, List.length_map, pendingOperations, List.length_map] at hmap
  exact hmap

/-- Restoring the operations in flight creates their controllers. -/
theorem wp_restorePending {E : Fault → Scheduler → Prop} {operations : List AsyncOperation} :
    wp (restorePending operations)
      (fun items t' => items = numbered t.controllers operations ∧
        t' = { t with controllers := t.controllers + operations.length }) E t := by
  induction operations generalizing t with
  | nil => exact ⟨rfl, rfl⟩
  | cons operation rest ih =>
    unfold restorePending
    simp only [wp_bind, wp_newController, wp_pure]
    refine wp_mono ih ?_ fun _ _ he => he
    rintro items t' ⟨rfl, rfl⟩
    refine ⟨rfl, ?_⟩
    rw [List.length_cons, Nat.add_assoc, Nat.add_comm 1]

/-- A checkpoint of a record is restored to that record, with new controllers, without its run, and
with its timer not armed. -/
theorem record_checkpoint (agent : SchedulingHandle) {items : List PendingOperation}
    (hr : r.Consistent) (hitems : items.map PendingOperation.operation = r.pendingOperations) :
    ∃ pending : OrderedMap PendingOperation.operationId,
      pending.entries = items ∧
      r.checkpoint.record agent items = { r with agent, pending, run := none, timer := none } := by
  have hkeys : items.map PendingOperation.operationId =
      r.pending.entries.map PendingOperation.operationId := by
    have := congrArg (List.map AsyncOperation.operationId) hitems
    rwa [pendingOperations, List.map_map, List.map_map] at this
  refine ⟨.ofList items, OrderedMap.entries_ofList (hkeys ▸ r.pending.nodup), ?_⟩
  have hbatch : (r.run.map AgentRun.batch).or (if r.run.isSome then none else r.batch) =
      r.batch := by
    cases hrun : r.run with
    | none => simp
    | some run => simp [(hr.run run hrun).2]
  unfold AgentSchedulerCheckpoint.record
  simp [checkpoint, snapshot, hbatch]

/-- The state of a control block suits the newest checkpoint that a registration finds. -/
def Admissible (env : Environment) (s : Scheduler) (agent : SchedulingHandle) : Prop :=
  env.persistent = true → ∀ c, latest s.saves agent.agentId = some c →
    c.Restorable ∧ ∃ needsRun, agent.state = attachState (some c) needsRun

/-- A checkpoint leaves nothing to do when its record is idle and not suspended. -/
theorem unfinished_checkpoint (h : r.checkpoint.unfinished = false) :
    r.isIdle = true ∧ r.suspension = none := by
  simp only [AgentSchedulerCheckpoint.unfinished, checkpoint, snapshot, Bool.or_eq_false_iff,
    Option.isSome_eq_false_iff, Option.isNone_iff_eq_none, Bool.not_eq_false', List.isEmpty_iff,
    OrderedMap.entries_eq_nil_iff, pendingOperations, List.map_eq_nil_iff] at h
  obtain ⟨⟨⟨⟨⟨hb, hrun⟩, hp⟩, hc⟩, he⟩, hs⟩ := h
  simp only [hrun, Option.isSome_none, Bool.false_eq_true, if_false] at hb
  exact ⟨isIdle_iff.mpr ⟨hb, by simp [hp], by simp [hc], by simp [he]⟩, hs⟩

/-- The control block of a restarted agent sleeps only if its checkpoint leaves nothing to do. -/
theorem attachState_checkpoint (r : AgentRecord) (needsRun : Bool) :
    attachState (some r.checkpoint) needsRun = .ready ∨
      attachState (some r.checkpoint) needsRun = .sleeping ∧ r.isIdle = true ∧
        r.suspension = none := by
  unfold attachState
  split_ifs with h
  · exact .inl rfl
  · simp only [Option.any_some, Bool.or_eq_true, not_or, Bool.not_eq_true] at h
    exact .inr ⟨rfl, unfinished_checkpoint h.1⟩

/-- The wish to continue of a restored record: the checkpoint's, or that of a host that has made
the control block of a sleeping agent ready. -/
def restoredContinuation (r : AgentRecord) (agent : SchedulingHandle) : Bool :=
  if agent.state = .ready ∧ r.agent.state = .sleeping ∧ r.isIdle then true else r.continuation

/-- The record with which an agent is registered again. -/
def restored (r : AgentRecord) (agent : SchedulingHandle)
    (pending : OrderedMap PendingOperation.operationId) : AgentRecord :=
  { r with
    agent := agent
    pending := pending
    run := none
    timer := none
    continuation := restoredContinuation r agent }

/-- The restored record, as registration computes it. -/
theorem restored_eq (agent : SchedulingHandle)
    {pending : OrderedMap PendingOperation.operationId} (hp : pending.size = r.pending.size) :
    (let record : AgentRecord := { r with agent, pending, run := none, timer := none }
     if agent.state = .ready ∧ r.checkpoint.state = .sleeping ∧ record.isIdle then
       { record with continuation := true }
     else record) = restored r agent pending := by
  have hidle : ({ r with agent, pending, run := none, timer := none } : AgentRecord).isIdle =
      r.isIdle := by simp [isIdle, hp]
  have hst : r.checkpoint.state = r.agent.state := rfl
  simp only [hidle, hst]
  unfold restored restoredContinuation
  split_ifs <;> rfl

/-- The scheduler in which the controllers of a record's operations were created, and the record's
agent was queued if it has a batch to be taken. -/
def Scheduler.reopened (t : Scheduler) (r : AgentRecord) : Scheduler :=
  { t with
    controllers := t.controllers + r.pending.size
    queue :=
      if r.batch.isSome ∧ r.suspension.isNone then t.queue ++ [r.agentId] else t.queue }

/-- Restoring the record of a checkpoint that fits the agent. -/
theorem wp_restoreRecord {agent : SchedulingHandle} {Q : AgentRecord → Scheduler → Prop}
    {E : Fault → Scheduler → Prop} (hr : r.Consistent) (hid : r.agentId = agent.agentId)
    (h : ∀ pending, pending.entries = numbered t.controllers r.pendingOperations →
      Q (restored r agent pending) (t.reopened r)) :
    wp (restoreRecord agent r.checkpoint) Q E t := by
  unfold restoreRecord
  have hv : ¬(r.checkpoint.schemaVersion ≠ 1 ∨ r.checkpoint.agentId ≠ agent.agentId) := by
    simp [checkpoint, snapshot, hid]
  simp only [if_neg hv]
  refine wp_bind_of (F := fun _ _ => False) wp_restorePending ?_ fun _ _ he => he.elim
  rintro items t' ⟨rfl, rfl⟩
  have hitems : (numbered t.controllers r.checkpoint.pendingOperations).map
      PendingOperation.operation = r.pendingOperations := map_operation_numbered ..
  obtain ⟨pending, hpending, hrec⟩ := record_checkpoint agent hr hitems
  have hp : pending.size = r.pending.size := size_eq_of_numbered hpending
  have hlen : r.checkpoint.pendingOperations.length = r.pending.size := by
    simp [checkpoint, snapshot, pendingOperations, OrderedMap.size]
  have hres := restored_eq agent hp
  simp only at hres
  simp only [hrec, hres, hlen, wp_ite, wp_bind, wp_pushQueue, wp_pure]
  have := h pending hpending
  unfold Scheduler.reopened at this
  by_cases hq : r.batch.isSome ∧ r.suspension.isNone
  · rw [if_pos hq, hid] at this
    exact (if_pos hq).mpr this
  · rw [if_neg hq] at this
    exact (if_neg hq).mpr this

/-- Reopening a record draws controllers, and changes the record's place in the queue. -/
theorem Touched.reopened {r' : AgentRecord} (t : Scheduler) :
    Touched t ((t.reopened r).put r') r' := by
  have hd : Drawn t { t with controllers := t.controllers + r.pending.size } :=
    { Drawn.refl t with }
  have h : Touched t (Scheduler.put _ r') r' := .register hd
  exact h.requeue (t.reopened r).queue t.running

/-- A restored record can be brought to rest, whatever its checkpoint holds. -/
theorem reconcilable_restored {agent : SchedulingHandle} {needsRun : Bool}
    {pending : OrderedMap PendingOperation.operationId} (hr : r.Savable)
    (hid : r.agentId = agent.agentId) (hp : pending.size = r.pending.size)
    (hstate : agent.state = attachState (some r.checkpoint) needsRun) :
    (restored r agent pending).Reconcilable
      (if r.batch.isSome ∧ r.suspension.isNone then 1 else 0) where
  id := by
    show isPositiveInteger agent.agentId = true
    exact hid ▸ hr.id
  run _ h := by cases h
  due := hr.due
  running h := by cases h
  places := by simp [places, restored]
  waiting _ _ _ _ hpos := by
    intro hsl
    have hsl' : agent.state = .sleeping := hsl
    -- The state of the checkpoint is kept, unless the agent is idle and is needed.
    rcases attachState_checkpoint r needsRun with h | ⟨-, hidle, -⟩
    · rw [hstate, h] at hsl'
      cases hsl'
    · have := (isIdle_iff.mp hidle).2.1
      have : 0 < pending.size := hpos
      omega
  idle hidle hs hc := by
    right
    show agent.state = .sleeping
    have hidle' : r.isIdle = true := by
      obtain ⟨h1, h2, h3, h4⟩ := isIdle_iff.mp hidle
      exact isIdle_iff.mpr ⟨h1, hp ▸ h2, h3, h4⟩
    rcases attachState_checkpoint r needsRun with h | ⟨h, -, -⟩
    · have hc' : restoredContinuation r agent = false := hc
      unfold restoredContinuation at hc'
      split_ifs at hc' with hcond
      have hsl := hr.idle hidle' hs hc'
      exact absurd ⟨hstate.trans h, hsl, hidle'⟩ hcond
    · rw [hstate, h]

/-- The frame of a registration. -/
theorem Open.register (ha : s.Available) (hd : Drawn s t) : Open s (t.put r) r :=
  { Touched.register hd with
    queue := fun _ _ => by rw [← hd.queue]; rfl
    running := hd.running
    closed := hd.closed
    available := ⟨hd.closed.trans ha.1, hd.failure.trans ha.2⟩
    saves := fun c hc => .inl (by rw [← hd.saves]; exact hc) }

/-- The frame of a registration from a checkpoint. -/
theorem Open.reopened {agent : SchedulingHandle}
    {pending : OrderedMap PendingOperation.operationId} (ha : s.Available)
    (hid : r.agentId = agent.agentId) :
    Open s ((s.reopened r).put (restored r agent pending)) (restored r agent pending) := by
  have hd : Drawn s { s with controllers := s.controllers + r.pending.size } :=
    { Drawn.refl s with }
  have ho : Open s (Scheduler.put _ (restored r agent pending)) (restored r agent pending) :=
    .register ha hd
  unfold Scheduler.reopened
  split_ifs
  · rw [hid]
    exact ho.push
  · exact ho

/-- The restored record of an agent that was not queued can be brought to rest. -/
theorem reconcilable_reopened {agent : SchedulingHandle} {needsRun : Bool}
    {pending : OrderedMap PendingOperation.operationId} (hr : r.Savable)
    (hid : r.agentId = agent.agentId)
    (hpending : pending.entries = numbered s.controllers r.pendingOperations)
    (hstate : agent.state = attachState (some r.checkpoint) needsRun)
    (hz : s.queue.count agent.agentId = 0) :
    (restored r agent pending).Reconcilable
      ((s.reopened r).queue.count (restored r agent pending).agentId) := by
  have hsize := size_eq_of_numbered hpending
  have hrec := reconcilable_restored hr hid hsize hstate
  have hcount : (s.reopened r).queue.count agent.agentId =
      if r.batch.isSome ∧ r.suspension.isNone then 1 else 0 := by
    unfold Scheduler.reopened
    split_ifs
    · rw [List.count_append, hz, hid]
      simp
    · exact hz
  rw [← hcount] at hrec
  exact hrec

/-- `register` keeps the invariant, for a control block whose state suits the checkpoint. -/
theorem wp_register {agent : SchedulingHandle} (hi : Invariant env s) (ha : s.Available)
    (hadm : Admissible env s agent) :
    wp (register env agent) (fun _ => Kept env s) (Stopped env s) s := by
  unfold register
  rw [wp_bind]
  refine wp_positiveInteger (fun hid => ?_) (fun c m => .refl hi ha c m)
  rw [wp_bind, wp_get]
  by_cases hhas : s.agents.has agent.agentId = true
  · simp only [hhas, if_true]
    exact .refl hi ha _ _
  · simp only [hhas, Bool.false_eq_true, if_false]
    have hnone : s.agents.get? agent.agentId = none := by
      simpa [OrderedMap.has] using hhas
    have hz := hi.absent _ hnone
    by_cases hst : agent.state ≠ .ready ∧ agent.state ≠ .sleeping
    · simp only [if_pos hst]
      exact .refl hi ha _ _
    · simp only [if_neg hst]
      -- Whatever record the agent starts with, it is brought to rest.
      have hrest : ∀ t r, Open s (t.put r) r → r.agentId = agent.agentId → r.run = none →
          r.Reconcilable (t.queue.count r.agentId) →
          wp (do update r; reconcile env r) (fun _ => Kept env s) (Stopped env s) t := by
        intro t r ho hrid hrun hrec
        rw [wp_bind, wp_update]
        refine wp_mono (wp_reconcile_kept (k := 0) hi ho hrec ?_ ?_ hi.capacity) (fun _ _ h => h)
          fun _ _ h => .broken h
        · rw [hrid, hnone]
          rfl
        · simp [runs, hrun]
      have hfresh : wp (do update (fresh agent); reconcile env (fresh agent))
          (fun _ => Kept env s) (Stopped env s) s := by
        refine hrest s (fresh agent) (.register ha (.refl s)) rfl rfl ?_
        refine { id := hid, run := fun _ h => (by cases h), due := by simp [fresh]
                 running := fun h => (by cases h), places := hz
                 waiting := fun _ _ _ _ h => (by cases h), idle := fun _ _ hc => ?_ }
        have hc' : ¬agent.state = .ready := by simpa [fresh] using hc
        by_contra hsl
        exact hst ⟨hc', fun h => hsl (.inr h)⟩
      simp only [load, wp_bind, wp_get, wp_pure] at hfresh ⊢
      by_cases hp : env.persistent = true
      · rw [if_pos hp]
        cases hc : latest s.saves agent.agentId with
        | none => exact hfresh
        | some c =>
          obtain ⟨⟨r, hr, rfl⟩, needsRun, hstate⟩ := hadm hp c hc
          have hrid : r.agentId = agent.agentId := (mem_of_latest hc).2
          show wp (restoreRecord agent r.checkpoint >>= fun r => (do update r; reconcile env r))
            _ _ s
          rw [wp_bind]
          refine wp_restoreRecord hr.toConsistent hrid fun pending hpending => ?_
          exact hrest _ (restored r agent pending) (.reopened ha hrid) rfl rfl
            (reconcilable_reopened hr hrid hpending hstate hz)
      · rw [if_neg hp]
        exact hfresh

end OsAgent.AgentScheduler
