import OsAgent.AgentScheduler.Staging
import OsAgent.AgentScheduler.Runs
import Mathlib.Data.List.Perm.Basic
import Mathlib.Data.List.Nodup
import Mathlib.Tactic.Common
import Mathlib.Tactic.SplitIfs

/-!
# No operation is lost, and none is delivered twice

A history of a scheduler remembers, for each agent, which operations were ever put in flight and
which batches were consumed. `exactlyOnce_of_reachable` is the balance between the two: whatever
order the operations, the timers and the failures of the store come in, every operation is at one
place, and its outcome is recorded once.
-/

namespace OsAgent.AgentScheduler

open OsAgent.Library OsAgent.ControlBlock AgentRecord

/-! ## What is held for an agent -/

/-- The operations in flight of an agent. -/
def pendingOf (s : Scheduler) (id : AgentId) : List AsyncOperation :=
  (s.agents.get? id).elim [] pendingOperations

/-- The operations that are held for an agent: in its record, or in its checkpoint as long as it is
not registered. -/
def holdings (env : Environment) (s : Scheduler) (id : AgentId) : List AsyncOperation :=
  match s.agents.get? id with
  | some r => r.ledger
  | none => ((stored env s id).map AgentSchedulerCheckpoint.ledger).getD []

/-- The results that are held for an agent. -/
def outcomesOf (env : Environment) (s : Scheduler) (id : AgentId) : List AsyncOperationResult :=
  match s.agents.get? id with
  | some r => r.results
  | none => ((stored env s id).map AgentSchedulerCheckpoint.results).getD []

variable {env : Environment} {s t : Scheduler} {r r' : AgentRecord} {id : AgentId}

/-- An agent that is registered holds what is in its record. -/
theorem holdings_of_get? (h : s.agents.get? id = some r) : holdings env s id = r.ledger := by
  simp [holdings, h]

/-- The results of an agent that is registered are those in its record. -/
theorem outcomesOf_of_get? (h : s.agents.get? id = some r) :
    outcomesOf env s id = r.results := by
  simp [outcomesOf, h]

/-- An agent that is not registered holds what its checkpoint has. -/
theorem holdings_of_none (h : s.agents.get? id = none) :
    holdings env s id = ((stored env s id).map AgentSchedulerCheckpoint.ledger).getD [] := by
  simp [holdings, h]

/-- The results of an agent that is not registered are those in its checkpoint. -/
theorem outcomesOf_of_none (h : s.agents.get? id = none) :
    outcomesOf env s id = ((stored env s id).map AgentSchedulerCheckpoint.results).getD [] := by
  simp [outcomesOf, h]

/-! ## One step, for one agent -/

/-- A step puts the operations `fresh` in flight and consumes the results `gone`, for one agent. -/
structure Moves (env : Environment) (s t : Scheduler) (id : AgentId) (fresh : List AsyncOperation)
    (gone : List AsyncOperationResult) : Prop where
  balance : (holdings env t id ++ gone.map AsyncOperationResult.operation).Perm
    (holdings env s id ++ fresh)
  outcomes : ∀ result ∈ outcomesOf env s id, result ∈ outcomesOf env t id ∨ result ∈ gone
  /-- New operations belong to the current run, under new identifiers. -/
  fresh : fresh ≠ [] → ∃ r run, s.agents.get? id = some r ∧ r.run = some run ∧
    (∀ o ∈ fresh, o.originRunId = run.runId ∧
      o.operationId ∉ (holdings env s id).map AsyncOperation.operationId ∧
        Unseen env t.draws o.operationId) ∧
    (fresh.map AsyncOperation.operationId).Nodup ∧
    (holdings env s id).length + fresh.length ≤ env.configuration.maxBufferedOperations.val
  draws : s.draws ≤ t.draws
  /-- A run is the current one, or starts under a new identifier. -/
  run : ∀ r', t.agents.get? id = some r' → (r'.batch = none → r'.run = none) ∧
    (r'.run = none ∨
      (gone = [] ∧ ∃ r, s.agents.get? id = some r ∧ r'.run = r.run ∧ r'.batch = r.batch) ∨
      (gone = [] ∧ ∃ run, r'.run = some run ∧ NewRun env s.draws t.draws run))

/-- Nothing is added and nothing is consumed. -/
theorem Moves.of_progress (hr : s.agents.get? id = some r) (hr' : t.agents.get? id = some r')
    (hp : Progress (NewRun env s.draws t.draws) r r') (hd : s.draws ≤ t.draws) :
    Moves env s t id [] [] where
  balance := by
    rw [holdings_of_get? hr, holdings_of_get? hr']
    simpa using hp.ledger
  outcomes result hres := by
    rw [outcomesOf_of_get? hr] at hres
    rw [outcomesOf_of_get? hr']
    exact .inl (hp.results result hres)
  fresh h := absurd rfl h
  draws := hd
  run r₁ h₁ := by
    obtain rfl := Option.some.inj (hr'.symm.trans h₁)
    refine ⟨hp.batch, ?_⟩
    rcases hp.run with h | h | h
    · exact .inl h
    · exact .inr (.inl ⟨rfl, r, hr, h⟩)
    · exact .inr (.inr ⟨rfl, h⟩)

/-- An agent that is not registered is left alone. -/
theorem Moves.of_absent (hr : s.agents.get? id = none) (hr' : t.agents.get? id = none)
    (hl : latest t.saves id = latest s.saves id) (hd : s.draws ≤ t.draws) :
    Moves env s t id [] [] := by
  have hst : stored env t id = stored env s id := by simp [stored, hl]
  refine ⟨?_, fun result hres => .inl ?_, fun h => absurd rfl h, hd, fun r₁ h₁ => ?_⟩
  · rw [holdings_of_none hr, holdings_of_none hr', hst]
    simp
  · rw [outcomesOf_of_none hr] at hres
    rw [outcomesOf_of_none hr', hst]
    exact hres
  · rw [hr'] at h₁
    cases h₁

/-- An agent that an operation on another agent leaves alone. -/
theorem Moves.of_touched_of_ne (hs : AllSound s) (h : Touched s t r') (hid : id ≠ r'.agentId) :
    Moves env s t id [] [] := by
  have hg := h.get?_of_ne hid
  cases hr : s.agents.get? id with
  | none =>
    rw [hr, Option.map_none, Option.map_eq_none_iff] at hg
    exact .of_absent hr hg (h.latest id hid) h.draws
  | some r =>
    rw [hr, Option.map_some] at hg
    obtain ⟨r₁, hr₁, heq⟩ := Option.map_eq_some_iff.mp hg
    exact .of_progress hr hr₁ (.of_clearTimeout (hs id r hr) heq) h.draws

/-- What the agents do, and whether the scheduler goes on. -/
structure Step (env : Environment) (s t : Scheduler) (fresh : AgentId → List AsyncOperation)
    (gone : AgentId → List AsyncOperationResult) : Prop where
  moves : ∀ id, Moves env s t id (fresh id) (gone id)
  alive : t.Available → s.Available
  frozen : ¬s.Available → t.saves = s.saves

/-- A step on which every record only makes progress. -/
theorem Step.of_advances (h : Advances (NewRun env s.draws t.draws) s t) :
    Step env s t (fun _ => []) (fun _ => []) where
  moves id := by
    cases hr : s.agents.get? id with
    | none => exact .of_absent hr (h.absent id hr) (h.latest id hr) h.draws
    | some r =>
      obtain ⟨r', hr', hp⟩ := h.record id r hr
      exact .of_progress hr hr' hp h.draws
  alive := h.alive
  frozen := h.frozen

/-! ## The balance of an agent -/

/-- The operations of an agent that were put in flight are those that it holds and those that were
consumed. -/
structure Account (env : Environment) (s : Scheduler) (id : AgentId)
    (registered consumed : List AsyncOperation) : Prop where
  conserved : registered.Perm (holdings env s id ++ consumed)
  nodup : registered.Nodup
  keys : ((holdings env s id).map AsyncOperation.operationId).Nodup
  seen : ∀ o ∈ registered, Unseen env s.draws o.operationId ∧ Unseen env s.draws o.originRunId
  bound : (holdings env s id).length ≤ env.configuration.maxBufferedOperations.val
  /-- What a run was given, and what was consumed before it, was put in flight by earlier runs. -/
  run : ∀ r, s.agents.get? id = some r → (r.batch = none → r.run = none) ∧
    ∀ run, r.run = some run → Unseen env s.draws run.runId ∧
      ∀ o ∈ r.batchResults.map AsyncOperationResult.operation ++ consumed,
        o.originRunId ≠ run.runId

/-- The records of agents whose accounts balance are sound. -/
theorem AllSound.of_accounts {registered consumed : AgentId → List AsyncOperation}
    (h : ∀ id, Account env s id (registered id) (consumed id)) : AllSound s := by
  intro id r hr
  have hkeys := (h id).keys
  rw [holdings_of_get? hr] at hkeys
  exact ⟨hkeys, ((h id).run r hr).1⟩

variable {registered consumed fresh : List AsyncOperation} {gone : List AsyncOperationResult}

/-- What is held was registered. -/
theorem Account.mem_registered (h : Account env s id registered consumed) {o : AsyncOperation}
    (ho : o ∈ holdings env s id) : o ∈ registered :=
  h.conserved.mem_iff.mpr (List.mem_append_left _ ho)

/-- New operations were not registered before. -/
theorem Account.fresh_not_mem (h : Account env s id registered consumed)
    (hm : Moves env s t id fresh gone) {o : AsyncOperation} (ho : o ∈ fresh) : o ∉ registered := by
  obtain ⟨r, run, hr, hrun, hfresh, -, -⟩ := hm.fresh (List.ne_nil_of_mem ho)
  obtain ⟨horigin, hkey, -⟩ := hfresh o ho
  intro hreg
  rcases List.mem_append.mp (h.conserved.mem_iff.mp hreg) with hh | hc
  · exact hkey (List.mem_map_of_mem hh)
  · exact ((h.run r hr).2 run hrun).2 o (List.mem_append_right _ hc) horigin

/-- The identifiers of the operations that are held remain distinct. -/
theorem Account.keys_step (h : Account env s id registered consumed)
    (hm : Moves env s t id fresh gone) :
    ((holdings env t id).map AsyncOperation.operationId).Nodup := by
  have hall : ((holdings env s id ++ fresh).map AsyncOperation.operationId).Nodup := by
    rw [List.map_append, List.nodup_append]
    by_cases hne : fresh = []
    · subst hne
      simpa using h.keys
    · obtain ⟨r, run, hr, hrun, hfresh, hnd, -⟩ := hm.fresh hne
      refine ⟨h.keys, hnd, fun x hx y hy heq => ?_⟩
      obtain ⟨o, ho, rfl⟩ := List.mem_map.mp hy
      exact (hfresh o ho).2.1 (heq ▸ hx)
  have hperm := (hm.balance.map AsyncOperation.operationId).nodup_iff.mpr hall
  rw [List.map_append] at hperm
  exact (List.nodup_append.mp hperm).1

/-- The capacity is not exceeded. -/
theorem Account.bound_step (h : Account env s id registered consumed)
    (hm : Moves env s t id fresh gone) :
    (holdings env t id).length ≤ env.configuration.maxBufferedOperations.val := by
  have hlen := hm.balance.length_eq
  simp only [List.length_append, List.length_map] at hlen
  by_cases hne : fresh = []
  · subst hne
    have := h.bound
    simp only [List.length_nil] at hlen
    omega
  · obtain ⟨-, -, -, -, -, -, hcap⟩ := hm.fresh hne
    omega

/-- Identifiers that were used are not drawn later. -/
theorem Account.seen_step (h : Account env s id registered consumed)
    (hm : Moves env s t id fresh gone) (o : AsyncOperation) (ho : o ∈ registered ++ fresh) :
    Unseen env t.draws o.operationId ∧ Unseen env t.draws o.originRunId := by
  rcases List.mem_append.mp ho with ho | ho
  · exact ⟨(h.seen o ho).1.mono hm.draws, (h.seen o ho).2.mono hm.draws⟩
  · obtain ⟨r, run, hr, hrun, hfresh, -, -⟩ := hm.fresh (List.ne_nil_of_mem ho)
    obtain ⟨horigin, -, hunseen⟩ := hfresh o ho
    refine ⟨hunseen, ?_⟩
    rw [horigin]
    exact (((h.run r hr).2 run hrun).1).mono hm.draws

/-- An operation that is held before a step, or is put in flight by it, has an origin that is not
drawn during the step. -/
theorem Account.origin_unseen (h : Account env s id registered consumed)
    (hm : Moves env s t id fresh gone) {o : AsyncOperation}
    (ho : o ∈ holdings env t id ++ (consumed ++ gone.map AsyncOperationResult.operation)) :
    Unseen env s.draws o.originRunId := by
  have hmem : o ∈ registered ∨ o ∈ fresh := by
    have hb := hm.balance.mem_iff (a := o)
    have hc := h.conserved.mem_iff (a := o)
    simp only [List.mem_append] at ho hb hc ⊢
    tauto
  rcases hmem with hreg | hnew
  · exact (h.seen o hreg).2
  · obtain ⟨r, run, hr, hrun, hfresh, -, -⟩ := hm.fresh (List.ne_nil_of_mem hnew)
    rw [(hfresh o hnew).1]
    exact ((h.run r hr).2 run hrun).1

/-- A step keeps the balance. -/
theorem Account.step (hinj : Function.Injective env.uuid)
    (h : Account env s id registered consumed) (hm : Moves env s t id fresh gone) :
    Account env t id (registered ++ fresh)
      (consumed ++ gone.map AsyncOperationResult.operation) where
  conserved := by
    have hb := h.conserved.append_right fresh
    have hswap : (holdings env s id ++ consumed ++ fresh).Perm
        (holdings env s id ++ fresh ++ consumed) := by
      rw [List.append_assoc, List.append_assoc]
      exact List.perm_append_comm.append_left _
    have hbal := (hm.balance.symm.append_right consumed)
    have hend : (holdings env t id ++ gone.map AsyncOperationResult.operation ++ consumed).Perm
        (holdings env t id ++ (consumed ++ gone.map AsyncOperationResult.operation)) := by
      rw [List.append_assoc]
      exact List.perm_append_comm.append_left _
    exact hb.trans (hswap.trans (hbal.trans hend))
  nodup := by
    rw [List.nodup_append]
    refine ⟨h.nodup, ?_, fun x hx y hy heq => h.fresh_not_mem hm hy (heq ▸ hx)⟩
    by_cases hne : fresh = []
    · subst hne
      exact List.nodup_nil
    · obtain ⟨-, -, -, -, -, hnd, -⟩ := hm.fresh hne
      exact hnd.of_map _
  keys := h.keys_step hm
  seen := h.seen_step hm
  bound := h.bound_step hm
  run r' hr' := by
    obtain ⟨hbatch, hrun⟩ := hm.run r' hr'
    refine ⟨hbatch, fun run hrun' => ?_⟩
    -- Either there is no run, or the old one goes on, or it is drawn anew.
    rcases hrun with hn | ⟨rfl, r, hr, hsame, hsameBatch⟩ | ⟨rfl, run₁, hrun₁, k, hk, hk', hid⟩
    · rw [hn] at hrun'
      cases hrun'
    · -- The run goes on, with its batch.
      obtain ⟨hunseen, hold⟩ := (h.run r hr).2 run (hsame ▸ hrun')
      refine ⟨hunseen.mono hm.draws, fun o ho => hold o ?_⟩
      have hres : r'.batchResults = r.batchResults := by simp [batchResults, hsameBatch]
      rw [hres] at ho
      simpa using ho
    · -- The run is new, and no operation comes from it.
      obtain rfl := Option.some.inj (hrun₁.symm.trans hrun')
      rw [hid]
      refine ⟨unseen_of_drawn hinj hk', fun o ho => ?_⟩
      have hold : Unseen env s.draws o.originRunId := by
        refine h.origin_unseen hm ?_
        rw [holdings_of_get? hr']
        rcases List.mem_append.mp ho with ho | ho
        · refine List.mem_append_left _ ?_
          simp only [AgentRecord.ledger, AgentRecord.results, List.map_append, List.mem_append]
          exact .inr (.inr ho)
        · exact List.mem_append_right _ ho
      exact fun heq => hold k hk heq.symm

end OsAgent.AgentScheduler
