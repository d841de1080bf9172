import OsAgent.AgentScheduler.Registration
import OsAgent.Library.Transition
import Mathlib.Tactic.Common
import Mathlib.Tactic.SplitIfs

/-!
# Runs of the scheduler

A run is any sequence of operations with any arguments, and of timers that fire. An operation that
throws is a step too: it leaves the state in which it threw.

`coherent_of_reachable` is the invariant of all runs without a failing store: the queue, the control
blocks, and the running counter say what the records hold, and no operation asks a control block for
a transition that it does not have.
-/

namespace OsAgent.AgentScheduler

open OsAgent.Library OsAgent.ControlBlock AgentRecord

/-- What can happen to a scheduler. -/
inductive Operation where
  | register (agent : SchedulingHandle)
  | unregister (agentId : AgentId)
  | notify (agentId : AgentId) (event : AgentWakeEvent)
  | takeNextRun
  | registerOperations (run : AgentRun) (operations : List AsyncOperationOptions)
  | completeOperation (operation : AsyncOperation) (outcome : AsyncOperationOutcome)
  | finishRun (run : AgentRun) (intent : AgentRunIntent)
  | returnRun (run : AgentRun)
  | suspend (agentId : AgentId) (suspension : AgentSuspension)
  | resume (agentId : AgentId)
  | cancelOperations (agentId : AgentId) (reason : String)
  | timer (agentId : AgentId)
  | waitForReady (aborted : Bool) (waiter : ℕ)
  | abortWait (waiter : ℕ)
  | operationHandle (operation : AsyncOperation)
  | inspect (agentId : AgentId)
  | close

/-- Performs an operation, and drops its result. -/
def Operation.perform (env : Environment) : Operation → M Unit
  | register agent => AgentScheduler.register env agent
  | unregister agentId => AgentScheduler.unregister agentId
  | notify agentId event => do let _ ← AgentScheduler.notify env agentId event
  | takeNextRun => do let _ ← AgentScheduler.takeNextRun env
  | registerOperations run operations => do
    let _ ← AgentScheduler.registerOperations env run operations
  | completeOperation operation outcome => do
    let _ ← AgentScheduler.completeOperation env operation outcome
  | finishRun run intent => AgentScheduler.finishRun env run intent
  | returnRun run => AgentScheduler.returnRun env run
  | suspend agentId suspension => AgentScheduler.suspend env agentId suspension
  | resume agentId => AgentScheduler.resume env agentId
  | cancelOperations agentId reason => AgentScheduler.cancelOperations env agentId reason
  | timer agentId => fireTimer env agentId
  | waitForReady aborted waiter => do let _ ← AgentScheduler.waitForReady env aborted waiter
  | abortWait waiter => AgentScheduler.abortWait waiter
  | operationHandle operation => do let _ ← AgentScheduler.operationHandle operation
  | inspect agentId => do let _ ← AgentScheduler.inspect agentId
  | close => AgentScheduler.close

/-- The runs whose every operation is admitted in the state in which it is called, over a store that
may hold checkpoints from before. -/
def system (env : Environment) (stored : List AgentSchedulerCheckpoint → Prop)
    (admits : Scheduler → Operation → Prop) : TransitionSystem Scheduler where
  init s := ∃ saves, stored saves ∧ s = .initial saves
  step s s' := ∃ op, admits s op ∧ s' = finalState (op.perform env s)

/-- An operation keeps the invariant, or the store refuses a save. -/
theorem wp_perform {env : Environment} {s : Scheduler} {op : Operation} (hi : Invariant env s)
    (ha : s.Available) (hclose : op ≠ .close)
    (hadm : ∀ agent, op = .register agent → Admissible env s agent) :
    wp (op.perform env) (fun _ t => Kept env s t ∨ ∃ e, Broken env s e t) (Stopped env s) s := by
  -- What an operation returns does not matter to the invariant.
  have hmap : ∀ {α : Type} {x : M α}, wp x (fun _ => Kept env s) (Stopped env s) s →
      wp (do let _ ← x) (fun _ t => Kept env s t ∨ ∃ e, Broken env s e t) (Stopped env s) s :=
    fun h => wp_bind_of h (fun _ _ hk => .inl hk) fun _ _ he => he
  have hunit : ∀ {x : M Unit}, wp x (fun _ => Kept env s) (Stopped env s) s →
      wp x (fun _ t => Kept env s t ∨ ∃ e, Broken env s e t) (Stopped env s) s :=
    fun h => wp_mono h (fun _ _ hk => .inl hk) fun _ _ he => he
  cases op with
  | register agent => exact hunit (wp_register hi ha (hadm agent rfl))
  | unregister agentId => exact hunit (wp_unregister hi ha)
  | notify agentId event => exact hmap (wp_notify hi ha)
  | takeNextRun => exact hmap (wp_takeNextRun hi ha)
  | registerOperations run operations => exact hmap (wp_registerOperations hi ha)
  | completeOperation operation outcome => exact hmap (wp_completeOperation hi ha)
  | finishRun run intent => exact hunit (wp_finishRun hi ha)
  | returnRun run => exact hunit (wp_returnRun hi ha)
  | suspend agentId suspension => exact hunit (wp_suspend hi ha)
  | resume agentId => exact hunit (wp_resume hi ha)
  | cancelOperations agentId reason => exact hunit (wp_cancelOperations hi ha)
  | timer agentId => exact wp_fireTimer hi ha
  | waitForReady aborted waiter => exact hmap (wp_waitForReady hi ha)
  | abortWait waiter =>
    exact .inl ((Kept.refl hi ha).congr rfl rfl rfl rfl rfl rfl)
  | operationHandle operation =>
    refine hmap (wp_recordOf_kept hi ha fun r hr hid => ?_)
    split <;> exact .refl hi ha
  | inspect agentId =>
    exact hmap (wp_recordOf_kept hi ha fun r hr hid => .refl hi ha)
  | close => exact absurd rfl hclose

/-- The invariant holds of a new scheduler. -/
theorem invariant_initial (env : Environment) (saves : List AgentSchedulerCheckpoint) :
    Invariant env (.initial saves) where
  settled _ _ h := by cases h
  absent _ _ := rfl
  running := rfl
  capacity := Int.natCast_nonneg _
  saved _ _ h := by cases h

/-- A control block is registered in the state that a restarting runtime chooses. -/
def Attached (env : Environment) (s : Scheduler) (op : Operation) : Prop :=
  ∀ agent, op = .register agent → ∀ c, stored env s agent.agentId = some c →
    ∃ needsRun, agent.state = attachState (some c) needsRun

/-- What is stored of an agent that is registered so can be restored. -/
theorem Attached.admissible {env : Environment} {s : Scheduler} {op : Operation}
    (hop : Attached env s op) (hsaves : ∀ c ∈ s.saves, c.Restorable) :
    ∀ agent, op = .register agent → Admissible env s agent := by
  intro agent hreg hp c hc
  have hst : stored env s agent.agentId = some c := by
    rw [stored, if_pos hp]
    exact hc
  exact ⟨hsaves c (mem_of_stored hst).1, hop agent hreg c hst⟩

/-- Without the store refusing anything in between, an operation keeps the scheduler's invariant,
and whatever it saves can be restored. -/
theorem perform_available {env : Environment} {s : Scheduler} {op : Operation} (hinv : Invariant env s) (ha : s.Available)
    (hsaves : ∀ c ∈ s.saves, c.Restorable) (hop : Attached env s op) :
    (∀ c ∈ (finalState (op.perform env s)).saves, c.Restorable) ∧
      ((finalState (op.perform env s)).Available →
        Invariant env (finalState (op.perform env s))) := by
  by_cases hclose : op = .close
  · subst hclose
    exact ⟨hsaves, fun h => by cases h.1⟩
  · have hadm := hop.admissible hsaves
    have hkept : ∀ t, Kept env s t → (∀ c ∈ t.saves, c.Restorable) ∧
        (t.Available → Invariant env t) := fun t hk =>
      ⟨fun c hc => (hk.saves c hc).elim (hsaves c) id, fun _ => hk.invariant⟩
    have hbroken : ∀ e t, Broken env s e t → (∀ c ∈ t.saves, c.Restorable) ∧
        (t.Available → Invariant env t) := fun e t hb =>
      ⟨fun c hc => (hb.saves c hc).elim (hsaves c) id, fun ha => by
        have hfailure := ha.2
        rw [hb.failure] at hfailure
        cases hfailure⟩
    refine wp_finalState (P := fun t => (∀ c ∈ t.saves, c.Restorable) ∧
      (t.Available → Invariant env t)) (wp_mono (wp_perform hinv ha hclose hadm) ?_ ?_)
    · rintro _ t (hk | ⟨e, hb⟩)
      · exact hkept t hk
      · exact hbroken e t hb
    · rintro e t (⟨-, -, -, hk⟩ | hb)
      · exact hkept t hk
      · exact hbroken e t hb

/-! ## Runs over a store that accepts every save -/

/-- What the records, the queue, the control blocks, and the counters say agrees. -/
structure Coherent (env : Environment) (s : Scheduler) : Prop where
  /-- An agent is in the queue exactly once if it has a batch to be taken, and not otherwise. -/
  queue : ∀ id r, s.agents.get? id = some r →
    s.queue.count id = if r.batch.isSome ∧ r.run = none ∧ r.suspension = none then 1 else 0
  /-- Only registered agents are in the queue. -/
  absent : ∀ id, s.agents.get? id = none → id ∉ s.queue
  running_iff : ∀ id r, s.agents.get? id = some r → (r.agent.state = .running ↔ r.run.isSome)
  ready_iff : ∀ id r, s.agents.get? id = some r →
    (r.agent.state = .ready ↔ (r.batch.isSome ∧ r.run = none) ∧ r.suspension = none)
  blocked_iff : ∀ id r, s.agents.get? id = some r →
    (r.agent.state = .blocked ↔
      r.run = none ∧ (r.suspension.isSome ∨ r.batch = none ∧ 0 < r.pending.size))
  /-- A run implies a batch. -/
  run_batch : ∀ id r, s.agents.get? id = some r → r.run.isSome → r.batch.isSome
  /-- There are completed results exactly if a batch is due. -/
  due : ∀ id r, s.agents.get? id = some r → (0 < r.completed.size ↔ r.batchDueAt.isSome)
  /-- The counter counts the agents with a run. -/
  counter : s.running = (s.agents.entries.countP (fun r => r.run.isSome) : ℕ)
  capacity : s.running ≤ env.configuration.maxConcurrentRuns.val

/-- The phase of a record with a run. -/
theorem phase_eq_running_iff {r : AgentRecord} : r.phase = .running ↔ r.run.isSome := by
  cases hrun : r.run <;> cases hs : r.suspension <;> cases hb : r.batch <;>
    simp [phase, hrun, hs, hb]
  split_ifs <;> simp

/-- The phase of a record with a batch to be taken. -/
theorem phase_eq_ready_iff {r : AgentRecord} :
    r.phase = .ready ↔ (r.batch.isSome ∧ r.run = none) ∧ r.suspension = none := by
  cases hrun : r.run <;> cases hs : r.suspension <;> cases hb : r.batch <;>
    simp [phase, hrun, hs, hb]
  split_ifs <;> simp

/-- The phase of a record that waits. -/
theorem phase_eq_blocked_iff {r : AgentRecord} : r.phase = .blocked ↔
    r.run = none ∧ (r.suspension.isSome ∨ r.batch = none ∧ 0 < r.pending.size) := by
  cases hrun : r.run <;> cases hs : r.suspension <;> cases hb : r.batch <;>
    simp [phase, hrun, hs, hb, Nat.pos_iff_ne_zero]

/-- The invariant, in the terms of the records' contents. -/
theorem Invariant.coherent {env : Environment} {s : Scheduler} (hi : Invariant env s) :
    Coherent env s where
  queue id r hr := by
    rw [(hi.settled id r hr).places]
    simp [places]
  absent id hr := by
    have := hi.absent id hr
    rwa [List.count_eq_zero] at this
  running_iff id r hr := by rw [(hi.settled id r hr).state, phase_eq_running_iff]
  ready_iff id r hr := by rw [(hi.settled id r hr).state, phase_eq_ready_iff]
  blocked_iff id r hr := by rw [(hi.settled id r hr).state, phase_eq_blocked_iff]
  run_batch id r hr hrun := by
    obtain ⟨run, h⟩ := Option.isSome_iff_exists.mp hrun
    simp [((hi.settled id r hr).run run h).2]
  due id r hr := (hi.settled id r hr).due
  counter := hi.running
  capacity := hi.capacity

/-- The operations of a run in which no agent is registered that the store has a checkpoint of, and
the scheduler is not closed. -/
def FirstRegistrations (env : Environment) (s : Scheduler) (op : Operation) : Prop :=
  op ≠ .close ∧ ∀ agent, op = .register agent → env.persistent = true →
    latest s.saves agent.agentId = none

/-- In every state of every run whose saves succeed, the scheduler is coherent and has not failed,
and no operation asks a control block for a transition that its table does not have. -/
theorem coherent_of_reachable {env : Environment} (hsave : ∀ n, env.refusal n = none)
    {s : Scheduler} (hs : (system env (fun _ => True) (FirstRegistrations env)).Reachable s) :
    Coherent env s ∧ s.failure = none ∧ ∀ op, FirstRegistrations env s op →
      ∀ edge t, op.perform env s ≠ .error (.invalidTransition edge) t := by
  -- A first registration has no checkpoint, so any is admissible.
  have hadm : ∀ s op, FirstRegistrations env s op → ∀ agent, op = .register agent →
      Admissible env s agent := by
    intro s op hop agent hreg hp c hc
    rw [hop.2 agent hreg hp] at hc
    cases hc
  -- The store refuses no save, so it never breaks the scheduler.
  have hnot : ∀ {s t : Scheduler} {e : Fault}, ¬Broken env s e t := by
    rintro s t e ⟨⟨n, message, hn, -⟩, -, -⟩
    rw [hsave n] at hn
    cases hn
  have hinv : Invariant env s ∧ s.Available := by
    refine hs.invariant (P := fun s => Invariant env s ∧ s.Available) ?_ ?_
    · rintro s ⟨saves, -, rfl⟩
      exact ⟨invariant_initial env saves, rfl, rfl⟩
    · rintro s t - ⟨hi, ha⟩ ⟨op, hop, rfl⟩
      have hwp := wp_perform hi ha hop.1 (hadm s op hop)
      refine wp_finalState (P := fun t => Invariant env t ∧ t.Available) (wp_mono hwp ?_ ?_)
      · rintro _ t (hk | ⟨e, hb⟩)
        · exact ⟨hk.invariant, hk.available⟩
        · exact (hnot hb).elim
      · rintro e t (⟨code, message, -, hk⟩ | hb)
        · exact ⟨hk.invariant, hk.available⟩
        · exact (hnot hb).elim
  obtain ⟨hi, ha⟩ := hinv
  refine ⟨hi.coherent, ha.2, fun op hop edge t hrun => ?_⟩
  rcases wp_error (wp_perform hi ha hop.1 (hadm s op hop)) hrun with ⟨code, message, he, -⟩ | hb
  · cases he
  · exact hnot hb

/-- An environment with the default options, a clock that advances by a second with every reading,
and a store that accepts every save. -/
def quietEnvironment : Environment where
  configuration :=
    { batchWindowMs := ⟨30000, by decide⟩
      operationTimeoutMs := ⟨120000, by decide⟩
      maxConcurrentRuns := ⟨4, by decide⟩
      maxBufferedOperations := ⟨256, by decide⟩
      maxBufferedEvents := ⟨256, by decide⟩
      recentEventLimit := ⟨1024, by decide⟩ }
  clock n := 1000 * n
  uuid n := String.ofList (List.replicate (n + 1) 'u')
  persistent := true
  refusal _ := none

/-- The default options pass their own checks. -/
theorem configure_default :
    configure ⟨none, none, none, none, none, none⟩ = .ok quietEnvironment.configuration := rfl

/-- A scheduler in which a ready agent was registered and its batch was taken. -/
def afterTaking : Scheduler :=
  finalState (Operation.takeNextRun.perform quietEnvironment
    (finalState ((Operation.register ⟨1, .ready⟩).perform quietEnvironment (.initial []))))

/-- The invariant of all runs, in a state with a run. -/
theorem coherent_afterTaking : afterTaking.running = 1 ∧
    Coherent quietEnvironment afterTaking ∧ afterTaking.failure = none ∧
      ∀ op, FirstRegistrations quietEnvironment afterTaking op →
        ∀ edge t, op.perform quietEnvironment afterTaking ≠ .error (.invalidTransition edge) t := by
  refine ⟨by decide, coherent_of_reachable (fun _ => rfl) ?_⟩
  refine .step (.step (.of_init ⟨[], trivial, rfl⟩) ⟨.register ⟨1, .ready⟩, ?_, rfl⟩)
    ⟨.takeNextRun, ?_, rfl⟩
  · exact ⟨by simp, fun agent h _ => rfl⟩
  · exact ⟨by simp, fun agent h _ => by cases h⟩

end OsAgent.AgentScheduler
