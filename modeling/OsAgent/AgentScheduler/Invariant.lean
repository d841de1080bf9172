import OsAgent.AgentScheduler.Rest
import Mathlib.Tactic.Common
import Mathlib.Tactic.SplitIfs

/-!
# The scheduler's invariant

Between two operations of a scheduler whose store accepts every save, every record is at rest, the
queue holds registered agents only, the running counter counts the records with a run, and the
newest checkpoint of an agent is that of its record. Each operation keeps this, whether it returns
or rejects its arguments.
-/

namespace OsAgent.AgentScheduler

open OsAgent.Library OsAgent.ControlBlock

/-- How many runs a record holds. -/
def AgentRecord.runs (r : AgentRecord) : ℕ := if r.run.isSome then 1 else 0

/-- How many runs the agents hold together. -/
def runsOf (agents : OrderedMap AgentRecord.agentId) : ℕ :=
  agents.entries.countP (fun r => r.run.isSome)

/-- What holds between two operations. -/
structure Invariant (env : Environment) (s : Scheduler) : Prop where
  settled : ∀ id r, s.agents.get? id = some r → r.Settled (s.queue.count id)
  absent : ∀ id, s.agents.get? id = none → s.queue.count id = 0
  running : s.running = runsOf s.agents
  capacity : s.running ≤ env.configuration.maxConcurrentRuns.val
  saved : ∀ id r, s.agents.get? id = some r → Saved env s r

/-! ## Counting runs -/

/-- Timers do not matter for the number of runs. -/
theorem runsOf_untimed (agents : OrderedMap AgentRecord.agentId) :
    runsOf (untimed agents) = runsOf agents := by
  simp only [runsOf, untimed, OrderedMap.entries_map, List.countP_map]
  rfl

/-- The number of runs after a record was written. -/
theorem runsOf_insert (agents : OrderedMap AgentRecord.agentId) (r : AgentRecord) :
    runsOf (agents.insert r) + (agents.get? r.agentId).elim 0 AgentRecord.runs =
      runsOf agents + r.runs := by
  cases hr : agents.get? r.agentId with
  | some r₀ => exact OrderedMap.countP_insert _ hr
  | none =>
    simp only [runsOf, OrderedMap.entries_insert_of_get?_eq_none hr, List.countP_append,
      List.countP_singleton, AgentRecord.runs, Option.elim_none]
    omega

/-- Removing a record without a run does not change the number of runs. -/
theorem runsOf_delete {agents : OrderedMap AgentRecord.agentId} {id : AgentId} {r : AgentRecord}
    (h : agents.get? id = some r) (hr : r.run = none) :
    runsOf (agents.delete id) = runsOf agents := by
  simp [runsOf, (OrderedMap.entries_perm_delete h).countP_eq, hr]

/-! ## Establishing the invariant after an operation -/

/-- Timers do not matter for a record at rest. -/
theorem AgentRecord.Settled.of_clearTimeout {r r' : AgentRecord} {count : ℕ}
    (h : r.Settled count) (hr : r'.clearTimeout = r.clearTimeout) : r'.Settled count := by
  rw [eq_of_clearTimeout_eq hr]
  exact { id := h.id, run := h.run, due := h.due, state := h.state, places := h.places
          rested := h.rested }

/-- Timers do not matter for what is saved of a record. -/
theorem checkpoint_of_clearTimeout {r r' : AgentRecord} (hr : r'.clearTimeout = r.clearTimeout) :
    r'.checkpoint = r.checkpoint := by
  rw [eq_of_clearTimeout_eq hr]
  rfl

/-- An operation that began in `s` ended in `t` with the invariant, and everything it saved can be
restored. -/
structure Kept (env : Environment) (s t : Scheduler) : Prop where
  invariant : Invariant env t
  available : t.Available
  saves : ∀ c ∈ t.saves, c ∈ s.saves ∨ c.Restorable

/-- How an operation may throw: it rejects its arguments and keeps the invariant, or the store
refuses a save. -/
inductive Stopped (env : Environment) (s : Scheduler) (e : Fault) (t : Scheduler) : Prop where
  | rejected (code : AgentSchedulerErrorCode) (message : String) (he : e = .scheduler code message)
      (kept : Kept env s t)
  | broken (h : Broken env s e t)

variable {env : Environment} {s t : Scheduler} {r r₀ : AgentRecord} {n : ℤ} {k : ℕ}

/-- An operation that has brought the record of its agent to rest ends with the invariant. -/
theorem Invariant.of_atRest (hi : Invariant env s)
    (h : AtRest env { s with running := n } t r)
    (hk : (s.agents.get? r.agentId).elim 0 AgentRecord.runs = k) (hn : n + k = s.running + r.runs)
    (hcap : n ≤ env.configuration.maxConcurrentRuns.val) : Invariant env t where
  settled id r₁ h₁ := by
    -- The agent itself is at rest; the others are as before.
    by_cases hid : id = r.agentId
    · subst hid
      obtain ⟨timer, hr⟩ := h.get?_self
      obtain rfl := Option.some.inj (hr.symm.trans h₁)
      exact h.settled.of_clearTimeout rfl
    · have hg := h.get?_of_ne hid
      rw [h₁, Option.map_some] at hg
      obtain ⟨r₂, h₂, hr₂⟩ := Option.map_eq_some_iff.mp hg.symm
      rw [h.queue id hid]
      exact (hi.settled id r₂ h₂).of_clearTimeout hr₂.symm
  absent id h₁ := by
    by_cases hid : id = r.agentId
    · subst hid
      obtain ⟨timer, hr⟩ := h.get?_self
      rw [h₁] at hr
      cases hr
    · rw [h.queue id hid]
      refine hi.absent id ?_
      have hg := h.get?_of_ne hid
      rw [h₁] at hg
      exact Option.map_eq_none_iff.mp hg.symm
  running := by
    have hruns := runsOf_insert s.agents r
    -- The runs that are counted are those of the record and of the others.
    have hag : runsOf t.agents = runsOf (s.agents.insert r) := by
      rw [← runsOf_untimed, h.agents, runsOf_untimed]
    rw [hag, h.running]
    have := hi.running
    show n = _
    omega
  capacity := by
    rw [h.running]
    exact hcap
  saved id r₁ h₁ := by
    intro hp
    by_cases hid : id = r.agentId
    · subst hid
      obtain ⟨timer, hr⟩ := h.get?_self
      obtain rfl := Option.some.inj (hr.symm.trans h₁)
      exact h.saved hp
    · have hg := h.get?_of_ne hid
      rw [h₁, Option.map_some] at hg
      obtain ⟨r₂, h₂, hr₂⟩ := Option.map_eq_some_iff.mp hg.symm
      have hk₁ : r₁.agentId = id := OrderedMap.key_of_get? h₁
      have hk₂ : r₂.agentId = id := OrderedMap.key_of_get? h₂
      have hs := hi.saved id r₂ h₂ hp
      rw [hk₂] at hs
      rw [hk₁, h.latest id hid, checkpoint_of_clearTimeout hr₂.symm]
      exact hs

/-- Nothing was changed. -/
theorem Kept.refl (hi : Invariant env s) (ha : s.Available) : Kept env s s :=
  ⟨hi, ha, fun _ h => .inl h⟩

/-- A rejection without a change. -/
theorem Stopped.refl (hi : Invariant env s) (ha : s.Available) (code : AgentSchedulerErrorCode)
    (message : String) : Stopped env s (.scheduler code message) s :=
  .rejected code message rfl (.refl hi ha)

/-- Fields that the invariant does not mention have changed. -/
theorem Kept.congr (h : Kept env s t) {t' : Scheduler} (hagents : t'.agents = t.agents)
    (hqueue : t'.queue = t.queue) (hrunning : t'.running = t.running)
    (hfailure : t'.failure = t.failure) (hclosed : t'.closed = t.closed)
    (hsaves : t'.saves = t.saves) : Kept env s t' where
  invariant := by
    obtain ⟨h1, h2, h3, h4, h5⟩ := h.invariant
    refine ⟨?_, ?_, ?_, ?_, ?_⟩
    · rwa [hagents, hqueue]
    · rwa [hagents, hqueue]
    · rwa [hagents, hrunning]
    · rwa [hrunning]
    · unfold Saved
      rwa [hagents, hsaves]
  available := by
    unfold Scheduler.Available
    rw [hfailure, hclosed]
    exact h.available
  saves := by
    rw [hsaves]
    exact h.saves

/-- The start of an operation on a registered agent. -/
theorem Open.start (ha : s.Available) (hr : s.agents.get? r.agentId = some r) : Open s s r :=
  { Frame.refl hr with
    available := ha
    saves := fun _ h => .inl h }

/-- The agent's place in the queue is changed. -/
theorem Open.requeue (h : Open s t r) (queue : List AgentId)
    (hq : ∀ id, id ≠ r.agentId → queue.count id = t.queue.count id) :
    Open s { t with queue } r :=
  { h with
    queue := fun id hid => (hq id hid).trans (h.queue id hid) }

/-- The end of an operation that has brought its record to rest. -/
theorem AtRest.kept (hi : Invariant env s) (h : AtRest env { s with running := n } t r)
    (hk : (s.agents.get? r.agentId).elim 0 AgentRecord.runs = k) (hn : n + k = s.running + r.runs)
    (hcap : n ≤ env.configuration.maxConcurrentRuns.val) : Kept env s t :=
  ⟨hi.of_atRest h hk hn hcap, h.available, h.saves⟩

/-- The end of an operation that reconciles. -/
theorem wp_reconcile_kept (hi : Invariant env s) (h : Open { s with running := n } t r)
    (hr : r.Reconcilable (t.queue.count r.agentId))
    (hk : (s.agents.get? r.agentId).elim 0 AgentRecord.runs = k) (hn : n + k = s.running + r.runs)
    (hcap : n ≤ env.configuration.maxConcurrentRuns.val) :
    wp (reconcile env r) (fun _ => Kept env s) (Broken env s) t := by
  refine wp_mono (wp_reconcile h hr) ?_ fun e t' he => ⟨he.refused, he.failure, he.saves⟩
  rintro _ t' ⟨r', hat, hrun, hid⟩
  refine hat.kept hi (hid ▸ hk) ?_ hcap
  rw [hn]
  simp [AgentRecord.runs, hrun]

/-- The runs of the record that is there. -/
theorem runs_registered (hr : s.agents.get? r₀.agentId = some r₀) (hid : r.agentId = r₀.agentId) :
    (s.agents.get? r.agentId).elim 0 AgentRecord.runs = r₀.runs := by
  rw [hid, hr]
  rfl

/-- The end of an operation that reconciles and leaves the run as it was. -/
theorem wp_reconcile_of_run_eq (hi : Invariant env s) (hr : s.agents.get? r₀.agentId = some r₀)
    (h : Open s t r) (hrec : r.Reconcilable (t.queue.count r.agentId))
    (hid : r.agentId = r₀.agentId) (hrun : r.run = r₀.run) :
    wp (reconcile env r) (fun _ => Kept env s) (Broken env s) t := by
  refine wp_reconcile_kept hi h hrec (runs_registered hr hid) ?_ hi.capacity
  simp [AgentRecord.runs, hrun]

/-- The end of an operation that leaves the run as it was. -/
theorem AtRest.kept_of_run_eq (hi : Invariant env s) (hr : s.agents.get? r₀.agentId = some r₀)
    (h : AtRest env s t r) (hid : r.agentId = r₀.agentId) (hrun : r.run = r₀.run) :
    Kept env s t := by
  refine h.kept hi (runs_registered hr hid) ?_ hi.capacity
  simp [AgentRecord.runs, hrun]

end OsAgent.AgentScheduler
