import OsAgent.AgentScheduler.Effects
import Mathlib.Data.List.Nodup
import Mathlib.Tactic.Common
import Mathlib.Tactic.SplitIfs

/-!
# The operations that a record holds

A record holds an operation as pending, as completed, or in the results of its batch. `Progress` is
what an operation of the scheduler may do to what a record holds without registering or consuming
anything: it moves operations between these places, and it keeps every result that was recorded.
The rules are again about every state and every way to end.
-/

namespace OsAgent.AgentScheduler

open OsAgent.Library OsAgent.ControlBlock

namespace AgentRecord

/-- The results that a record holds: those collected, and those of the batch. -/
def results (r : AgentRecord) : List AsyncOperationResult := r.completed.entries ++ r.batchResults

/-- The operations that a record holds, in flight or ended. -/
def ledger (r : AgentRecord) : List AsyncOperation :=
  r.pendingOperations ++ r.results.map AsyncOperationResult.operation

/-- What a record always satisfies: no two of its operations have one identifier, and a run has a
batch. -/
structure Sound (r : AgentRecord) : Prop where
  keys : (r.ledger.map AsyncOperation.operationId).Nodup
  run : r.batch = none → r.run = none

/-- How many operations a record holds is what the capacity check counts. -/
theorem length_ledger (r : AgentRecord) : r.ledger.length = r.buffered := by
  simp [ledger, results, pendingOperations, buffered, OrderedMap.size, Nat.add_assoc]

end AgentRecord

open AgentRecord

/-- `r'` holds the operations of `r`, with its recorded results unchanged. A run is as before, with
its batch, or has ended, or satisfies `P`. -/
structure Progress (P : AgentRun → Prop) (r r' : AgentRecord) : Prop where
  agentId : r'.agentId = r.agentId
  ledger : r'.ledger.Perm r.ledger
  results : ∀ result ∈ r.results, result ∈ r'.results
  run : r'.run = none ∨ (r'.run = r.run ∧ r'.batch = r.batch) ∨ ∃ run, r'.run = some run ∧ P run
  batch : r'.batch = none → r'.run = none

/-- A record that holds the same operations, and whose run is as before or has ended. -/
theorem Progress.of_same {P : AgentRun → Prop} {r r' : AgentRecord} (hr : r.Sound)
    (hid : r'.agentId = r.agentId) (hpending : r'.pending = r.pending)
    (hcompleted : r'.completed = r.completed) (hbatch : r'.batch = r.batch)
    (hrun : r'.run = r.run ∨ r'.run = none) : Progress P r r' where
  agentId := hid
  ledger := by
    have : r'.ledger = r.ledger := by
      simp [AgentRecord.ledger, AgentRecord.results, pendingOperations, batchResults, hpending,
        hcompleted, hbatch]
    rw [this]
  results := by
    have : r'.results = r.results := by
      simp [AgentRecord.results, batchResults, hcompleted, hbatch]
    rw [this]
    exact fun _ h => h
  run := hrun.elim (fun h => .inr (.inl ⟨h, hbatch⟩)) .inl
  batch hb := by
    rcases hrun with h | h
    · rw [h]
      exact hr.run (hbatch ▸ hb)
    · exact h

/-- Nothing happens. -/
theorem Progress.refl {P : AgentRun → Prop} {r : AgentRecord} (hr : r.Sound) : Progress P r r :=
  .of_same hr rfl rfl rfl rfl (.inl rfl)

/-- A record stays sound. -/
theorem AgentRecord.Sound.of_progress {P : AgentRun → Prop} {r r' : AgentRecord} (hr : r.Sound)
    (h : Progress P r r') : r'.Sound :=
  ⟨(h.ledger.map _).nodup_iff.mpr hr.keys, h.batch⟩

/-- Two things happen, and the second starts no run. -/
theorem Progress.trans {P : AgentRun → Prop} {r r' r'' : AgentRecord} (h : Progress P r r')
    (h' : Progress (fun _ => False) r' r'') : Progress P r r'' where
  agentId := h'.agentId.trans h.agentId
  ledger := h'.ledger.trans h.ledger
  results result hr := h'.results result (h.results result hr)
  run := by
    rcases h'.run with hn | ⟨hrun, hb⟩ | ⟨_, _, hF⟩
    · exact .inl hn
    · rw [hrun, hb]
      exact h.run
    · exact hF.elim
  batch := h'.batch

/-- `reconcile` moves operations only. -/
theorem Progress.of_carried {P : AgentRun → Prop} {r r' : AgentRecord} (hr : r.Sound)
    (h : Carried r r') : Progress P r r' := by
  rcases h.contents with ⟨hc, he, hb⟩ | ⟨hb, hc, he, batch, hb', hres, -⟩
  · exact .of_same hr h.agentId h.pending hc hb (.inl h.run)
  · have hresults : r'.results = r.results := by
      simp [AgentRecord.results, batchResults, hc, hb, hb', hres]
    refine ⟨h.agentId, ?_, ?_, .inl ?_, fun hn => ?_⟩
    · simp [AgentRecord.ledger, hresults, pendingOperations, h.pending]
    · rw [hresults]
      exact fun _ h => h
    · rw [h.run, hr.run hb]
    · rw [hb'] at hn
      cases hn

/-- Recording the result of an operation in flight moves the operation, and adds the result. -/
theorem Progress.withResult {P : AgentRun → Prop} {r : AgentRecord} (hr : r.Sound)
    {item : PendingOperation} (hitem : item ∈ r.pending.entries) (outcome : AsyncOperationOutcome)
    (now window : ℕ) : Progress P r (r.withResult item outcome now window) := by
  have hget : r.pending.get? item.operationId = some item := OrderedMap.get?_of_mem hitem
  -- The operation has no result yet: its identifier is once in the ledger.
  have hnone : r.completed.get? item.operationId = none := by
    by_contra hne
    obtain ⟨result, hres⟩ := Option.ne_none_iff_exists'.mp hne
    have hkeys := hr.keys
    rw [AgentRecord.ledger, List.map_append] at hkeys
    refine (List.nodup_append.mp hkeys).2.2 item.operationId ?_ item.operationId ?_ rfl
    · simp only [pendingOperations, List.map_map]
      exact List.mem_map.mpr ⟨item, hitem, rfl⟩
    · simp only [AgentRecord.results, List.map_append, List.map_map]
      refine List.mem_append_left _ (List.mem_map.mpr ⟨result, OrderedMap.mem_of_get? hres, ?_⟩)
      exact OrderedMap.key_of_get? hres
  -- What is left in flight is what was there, without the operation.
  have hentries : (r.withResult item outcome now window).completed.entries =
      r.completed.entries ++ [{ operation := item.operation, completedAt := now, outcome }] :=
    OrderedMap.entries_insert_of_get?_eq_none hnone
  have hresults : (r.withResult item outcome now window).results =
      r.completed.entries ++ [{ operation := item.operation, completedAt := now, outcome }] ++
        r.batchResults := by
    rw [AgentRecord.results, hentries]
    rfl
  refine ⟨rfl, ?_, ?_, .inr (.inl ⟨rfl, rfl⟩), hr.run⟩
  · -- The operation goes from one list to the other, so the ledger is the same up to order.
    have hpend := (OrderedMap.entries_perm_delete hget).map PendingOperation.operation
    have hleft : (r.withResult item outcome now window).pendingOperations =
        (r.pending.delete item.operationId).entries.map PendingOperation.operation := rfl
    rw [AgentRecord.ledger, AgentRecord.ledger, hresults, hleft]
    rw [List.map_cons] at hpend
    refine List.Perm.trans ?_ (hpend.symm.append_right _)
    have hmid : (((r.pending.delete item.operationId).entries.map PendingOperation.operation ++
        r.completed.entries.map AsyncOperationResult.operation) ++ item.operation ::
          r.batchResults.map AsyncOperationResult.operation).Perm _ := List.perm_middle
    simpa [AgentRecord.results] using hmid
  · intro result hmem
    rw [hresults]
    simp only [AgentRecord.results, List.mem_append, List.mem_singleton] at hmem ⊢
    tauto

/-- Ending a run moves the results of its batch to the consumer. -/
theorem ledger_finished {r : AgentRecord} (intent : AgentRunIntent) :
    (r.finished intent).ledger ++ r.batchResults.map AsyncOperationResult.operation = r.ledger := by
  simp [AgentRecord.ledger, AgentRecord.results, finished, pendingOperations, batchResults]

/-! ## Steps of the whole scheduler -/

/-- Every record makes progress, no agent comes or goes, and the checkpoints of other agents are
left alone. -/
structure Advances (P : AgentRun → Prop) (s t : Scheduler) : Prop where
  record : ∀ id r, s.agents.get? id = some r → ∃ r', t.agents.get? id = some r' ∧ Progress P r r'
  absent : ∀ id, s.agents.get? id = none → t.agents.get? id = none
  draws : s.draws ≤ t.draws
  latest : ∀ id, s.agents.get? id = none → latest t.saves id = latest s.saves id
  alive : t.Available → s.Available
  frozen : ¬s.Available → t.saves = s.saves

/-- Every record of a scheduler is sound. -/
def AllSound (s : Scheduler) : Prop := ∀ id r, s.agents.get? id = some r → r.Sound

/-- Timers do not matter for progress. -/
theorem Progress.of_clearTimeout {P : AgentRun → Prop} {r r' : AgentRecord} (hr : r.Sound)
    (h : r'.clearTimeout = r.clearTimeout) : Progress P r r' := by
  rw [eq_of_clearTimeout_eq h]
  exact .of_same hr rfl rfl rfl rfl (.inl rfl)

variable {P : AgentRun → Prop} {env : Environment} {s t : Scheduler} {r r' : AgentRecord}

/-- Nothing happens. -/
theorem Advances.refl (hs : AllSound s) : Advances P s s :=
  ⟨fun id r hr => ⟨r, hr, .refl (hs id r hr)⟩, fun _ h => h, Nat.le_refl _, fun _ _ => rfl,
    fun h => h, fun _ => rfl⟩

/-- An operation on one agent. -/
theorem Advances.of_touched (hs : AllSound s) (h : Touched s t r')
    (hr : s.agents.get? r'.agentId = some r) (hp : Progress P r r') : Advances P s t where
  record id r₁ h₁ := by
    by_cases hid : id = r'.agentId
    · subst hid
      obtain rfl := Option.some.inj (hr.symm.trans h₁)
      obtain ⟨timer, hself⟩ := h.get?_self
      refine ⟨_, hself, hp.trans (.of_clearTimeout ((hs _ _ hr).of_progress hp) rfl)⟩
    · have hg := h.get?_of_ne hid
      rw [h₁, Option.map_some] at hg
      obtain ⟨r₂, h₂, hr₂⟩ := Option.map_eq_some_iff.mp hg
      exact ⟨r₂, h₂, .of_clearTimeout (hs _ _ h₁) hr₂⟩
  absent id hid := by
    have hne : id ≠ r'.agentId := by
      rintro rfl
      rw [hr] at hid
      cases hid
    have hg := h.get?_of_ne hne
    rw [hid] at hg
    exact Option.map_eq_none_iff.mp hg
  draws := h.draws
  latest id hid := by
    refine h.latest id ?_
    rintro rfl
    rw [hr] at hid
    cases hid
  alive := h.alive
  frozen := h.frozen

/-- What is drawn or created does not matter. -/
theorem Advances.of_drawn (hs : AllSound s) (h : Drawn s t) : Advances P s t where
  record id r hr := ⟨r, h.agents ▸ hr, .refl (hs id r hr)⟩
  absent id hid := h.agents ▸ hid
  draws := h.draws
  latest _ _ := by rw [h.saves]
  alive ha := ⟨h.closed ▸ ha.1, h.failure ▸ ha.2⟩
  frozen _ := h.saves

/-- Fewer runs may be started. -/
theorem Progress.mono {Q : AgentRun → Prop} (h : Progress P r r') (hPQ : ∀ run, P run → Q run) :
    Progress Q r r' :=
  { h with
    run := h.run.imp_right fun hrun =>
      hrun.imp_right fun ⟨run, hr, hp⟩ => ⟨run, hr, hPQ run hp⟩ }

/-- Fewer runs may be started. -/
theorem Advances.mono {Q : AgentRun → Prop} (h : Advances P s t) (hPQ : ∀ run, P run → Q run) :
    Advances Q s t :=
  { h with
    record := fun id r hr => by
      obtain ⟨r', hr', hp⟩ := h.record id r hr
      exact ⟨r', hr', hp.mono hPQ⟩ }

/-- Fields that are not about records, identifiers, and checkpoints are changed. -/
theorem Advances.congr (h : Advances P s t) {t' : Scheduler} (hagents : t'.agents = t.agents)
    (hdraws : t.draws ≤ t'.draws) (hsaves : t'.saves = t.saves)
    (halive : t'.Available → t.Available) : Advances P s t' where
  record id r hr := hagents ▸ h.record id r hr
  absent id hid := hagents ▸ h.absent id hid
  draws := Nat.le_trans h.draws hdraws
  latest id hid := by rw [hsaves, h.latest id hid]
  alive ha := h.alive (halive ha)
  frozen hs := hsaves.trans (h.frozen hs)

/-- The end of an operation that reconciles the record of its agent. -/
theorem wp_reconcile_advances (hs : AllSound s) (h : Touched s t r')
    (hr : s.agents.get? r'.agentId = some r) (hp : Progress P r r') :
    Ends (reconcile env r') (Advances P s) t := by
  have hend : ∀ t', Held s (Carried r') t' → Advances P s t' := by
    rintro t' ⟨r'', h'', hc⟩
    have hsound := (hs _ _ hr).of_progress hp
    refine .of_touched hs h'' (hc.agentId ▸ hr) (hp.trans (.of_carried hsound hc))
  exact wp_mono (wp_reconcile_carried h) (fun _ t' => hend t') fun _ t' => hend t'

end OsAgent.AgentScheduler
