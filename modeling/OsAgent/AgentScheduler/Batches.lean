import OsAgent.AgentScheduler.Runs
import OsAgent.AgentScheduler.Staging
import Mathlib.Tactic.Common
import Mathlib.Tactic.SplitIfs

/-!
# Batches keep their contents

A batch is sealed under an identifier that is drawn for it, and from then on it is handed from the queue to a
run and back, saved and restored. `Filed` says that whatever batch a scheduler or its store has under an
identifier is the one that was sealed under it. One rule for each operation: it keeps that, however it ends,
and seals new batches under identifiers that it draws.
-/

namespace OsAgent.AgentScheduler

open OsAgent.Library OsAgent.ControlBlock AgentRecord

/-- The batches, by the draws of their identifiers. -/
abbrev Archive := ℕ → AgentDispatchBatch

/-- The batch was sealed before the `n`-th draw. -/
def Archive.Has (archive : Archive) (n : ℕ) (batch : AgentDispatchBatch) : Prop :=
  ∃ k < n, archive k = batch

/-- The batch of a record was sealed, and it is that of the record's run. -/
structure AgentRecord.Filed (archive : Archive) (n : ℕ) (r : AgentRecord) : Prop where
  batch : ∀ batch, r.batch = some batch → archive.Has n batch
  run : ∀ run, r.run = some run → r.batch = some run.batch

/-- All batches that a scheduler and its store have were sealed. -/
structure Filed (env : Environment) (archive : Archive) (s : Scheduler) : Prop where
  ids : ∀ k, (archive k).batchId = env.uuid k
  records : ∀ id r, s.agents.get? id = some r → r.Filed archive s.draws
  saves : ∀ c ∈ s.saves, ∀ batch, c.batch = some batch → archive.Has s.draws batch

/-- What was sealed before the `n`-th draw stays, and all batches are still such. -/
def Files (env : Environment) (archive : Archive) (n : ℕ) (t : Scheduler) : Prop :=
  ∃ archive', (∀ k < n, archive' k = archive k) ∧ n ≤ t.draws ∧ Filed env archive' t

/-- `Files` within an operation, where the agent's record is `r`. -/
def Filing (env : Environment) (archive : Archive) (n : ℕ) (t : Scheduler) (r : AgentRecord) : Prop :=
  ∃ archive', (∀ k < n, archive' k = archive k) ∧ n ≤ t.draws ∧ Filed env archive' t ∧
    r.Filed archive' t.draws

/-- Batches with one identifier are one. -/
theorem Archive.eq_of_batchId {env : Environment} (hinj : Function.Injective env.uuid)
    {archive : Archive} (ids : ∀ k, (archive k).batchId = env.uuid k) {n : ℕ}
    {batch batch' : AgentDispatchBatch} (h : archive.Has n batch) (h' : archive.Has n batch')
    (hid : batch.batchId = batch'.batchId) : batch = batch' := by
  obtain ⟨k, -, rfl⟩ := h
  obtain ⟨k', -, rfl⟩ := h'
  rw [ids, ids] at hid
  rw [hinj hid]

/-- What was sealed before a draw was sealed before every later one. -/
theorem Archive.Has.mono {archive : Archive} {n m : ℕ} {batch : AgentDispatchBatch}
    (h : archive.Has n batch) (hnm : n ≤ m) : archive.Has m batch := by
  obtain ⟨k, hk, heq⟩ := h
  exact ⟨k, Nat.lt_of_lt_of_le hk hnm, heq⟩

/-- What was sealed before stays. -/
theorem Archive.Has.agree {archive archive' : Archive} {n : ℕ} {batch : AgentDispatchBatch}
    (h : archive.Has n batch) (hagree : ∀ k < n, archive' k = archive k) : archive'.Has n batch := by
  obtain ⟨k, hk, heq⟩ := h
  exact ⟨k, hk, (hagree k hk).trans heq⟩

/-- The current run of an agent, if a run is that. -/
theorem exists_current {s : Scheduler} {run : AgentRun} {r : AgentRecord} (h : s.active run = some r) :
    s.agents.get? r.agentId = some r ∧
      ∃ current, r.run = some current ∧ current.batch.batchId = run.batch.batchId := by
  unfold Scheduler.active at h
  split at h
  · rename_i r' s' hactive
    obtain rfl := Option.some.inj h
    have hfound : wp (activeRecord run) (fun r _ => s.agents.get? r.agentId = some r ∧
        ∃ current, r.run = some current ∧ current.batch.batchId = run.batch.batchId)
        (fun _ _ => True) s :=
      wp_activeRecord (fun _ => trivial) fun r current hr _ hrun _ hid => ⟨hr, current, hrun, hid⟩
    have hcurrent := wp_ok hfound hactive
    exact hcurrent
  · cases h

/-! ## Parts of an operation -/

section Parts

variable {env : Environment} {archive : Archive} {n : ℕ} {s t : Scheduler} {r r' : AgentRecord}

/-- The batch of a record was sealed before every later draw too. -/
theorem AgentRecord.Filed.mono {m : ℕ} (h : r.Filed archive n) (hnm : n ≤ m) : r.Filed archive m where
  batch batch hb := (h.batch batch hb).mono hnm
  run := h.run

/-- Another record with the same batch and run. -/
theorem AgentRecord.Filed.congr (h : r.Filed archive n) (hbatch : r'.batch = r.batch)
    (hrun : r'.run = r.run ∨ r'.run = none) : r'.Filed archive n where
  batch batch hb := h.batch batch (hbatch ▸ hb)
  run run hr := by
    rcases hrun with hsame | hnone
    · rw [hbatch]
      exact h.run run (hsame ▸ hr)
    · rw [hnone] at hr
      cases hr

/-- A checkpoint has the batch of its record. -/
theorem AgentRecord.Filed.checkpoint (h : r.Filed archive n) : r.checkpoint.batch = r.batch := by
  unfold AgentSchedulerCheckpoint.batch
  cases hrun : r.run with
  | none => simp [AgentRecord.checkpoint, snapshot, hrun]
  | some run => simp [AgentRecord.checkpoint, snapshot, hrun, h.run run hrun]

/-- What was sealed before stays. -/
theorem AgentRecord.Filed.agree {archive' : Archive} (h : r.Filed archive n)
    (hagree : ∀ k < n, archive' k = archive k) : r.Filed archive' n where
  batch batch hb := (h.batch batch hb).agree hagree
  run := h.run

/-- What is filed now has kept what was filed. -/
theorem Filed.files (h : Filed env archive s) : Files env archive s.draws s :=
  ⟨archive, fun _ _ => rfl, Nat.le_refl _, h⟩

/-- Fields that are not about records, identifiers and checkpoints are changed. -/
theorem Filed.congr (h : Filed env archive s) (hagents : t.agents = s.agents)
    (hdraws : s.draws ≤ t.draws) (hsaves : t.saves = s.saves) : Filed env archive t where
  ids := h.ids
  records id r hr := (h.records id r (hagents ▸ hr)).mono hdraws
  saves c hc batch hb := (h.saves c (hsaves ▸ hc) batch hb).mono hdraws

/-- A record is written back whose batch was sealed. -/
theorem Filed.put (h : Filed env archive t) (hr : r.Filed archive t.draws) :
    Filed env archive (t.put r) where
  ids := h.ids
  records id r₁ h₁ := by
    rw [show (t.put r).agents = t.agents.insert r from rfl, OrderedMap.get?_insert] at h₁
    split_ifs at h₁
    · obtain rfl := Option.some.inj h₁
      exact hr
    · exact h.records id r₁ h₁
  saves := h.saves

/-- Fields that are not about records, identifiers and checkpoints are changed. -/
theorem Files.congr (h : Files env archive n s) (hagents : t.agents = s.agents)
    (hdraws : s.draws ≤ t.draws) (hsaves : t.saves = s.saves) : Files env archive n t := by
  obtain ⟨archive', hagree, hn, hfiled⟩ := h
  exact ⟨archive', hagree, Nat.le_trans hn hdraws, hfiled.congr hagents hdraws hsaves⟩

/-- Identifiers are drawn. -/
theorem Files.drawn (h : Files env archive n s) (hd : Drawn s t) : Files env archive n t :=
  h.congr hd.agents hd.draws hd.saves

/-- An operation on the record of an agent begins. -/
theorem Filed.filing (h : Filed env archive s) {id : AgentId} (hr : s.agents.get? id = some r) :
    Filing env archive s.draws s r :=
  ⟨archive, fun _ _ => rfl, Nat.le_refl _, h, h.records id r hr⟩

namespace Filing

/-- What is filed within an operation is filed. -/
theorem files (h : Filing env archive n t r) : Files env archive n t := by
  obtain ⟨archive', hagree, hn, hfiled, -⟩ := h
  exact ⟨archive', hagree, hn, hfiled⟩

/-- Fields that are not about records, identifiers and checkpoints are changed within an operation. -/
theorem congr (h : Filing env archive n s r) (hagents : t.agents = s.agents)
    (hdraws : s.draws ≤ t.draws) (hsaves : t.saves = s.saves) : Filing env archive n t r := by
  obtain ⟨archive', hagree, hn, hfiled, hr⟩ := h
  exact ⟨archive', hagree, Nat.le_trans hn hdraws, hfiled.congr hagents hdraws hsaves, hr.mono hdraws⟩

/-- A record is written back whose batch was sealed. -/
theorem put (h : Filing env archive n t r)
    (hr : ∀ archive', r.Filed archive' t.draws → r'.Filed archive' t.draws) :
    Filing env archive n (t.put r') r' := by
  obtain ⟨archive', hagree, hn, hfiled, hold⟩ := h
  exact ⟨archive', hagree, hn, hfiled.put (hr archive' hold), hr archive' hold⟩

/-- A record with the same batch is written back. -/
theorem same (h : Filing env archive n t r) (hbatch : r'.batch = r.batch)
    (hrun : r'.run = r.run ∨ r'.run = none) : Filing env archive n (t.put r') r' :=
  h.put fun _ hr => hr.congr hbatch hrun

end Filing

/-- A checkpoint with a sealed batch is saved. -/
theorem Filed.saved (h : Filed env archive t) {c : AgentSchedulerCheckpoint}
    (hc : ∀ batch, c.batch = some batch → archive.Has t.draws batch) (attempts : ℕ) :
    Filed env archive { t with attempts, saves := c :: t.saves } where
  ids := h.ids
  records := h.records
  saves c' hc' := by
    rcases List.mem_cons.mp hc' with rfl | hold
    · exact hc
    · exact h.saves c' hold

/-- A scheduler that stops keeps its records, without their timers. -/
theorem Filed.stopped (h : Filed env archive t) {t' : Scheduler}
    (hagents : t'.agents = t.agents.map AgentRecord.clearTimeout AgentRecord.agentId_clearTimeout)
    (hdraws : t'.draws = t.draws) (hsaves : t'.saves = t.saves) : Filed env archive t' where
  ids := h.ids
  records id r hr := by
    rw [hagents, OrderedMap.get?_map, Option.map_eq_some_iff] at hr
    obtain ⟨r₀, hr₀, rfl⟩ := hr
    rw [hdraws]
    exact (h.records id r₀ hr₀).congr rfl (.inl rfl)
  saves c hc := by
    rw [hdraws]
    rw [hsaves] at hc
    exact h.saves c hc

/-- The timers are stopped. -/
theorem Files.stopped (h : Files env archive n t) {t' : Scheduler}
    (hagents : t'.agents = t.agents.map AgentRecord.clearTimeout AgentRecord.agentId_clearTimeout)
    (hdraws : t'.draws = t.draws) (hsaves : t'.saves = t.saves) : Files env archive n t' := by
  obtain ⟨archive', hagree, hn, hfiled⟩ := h
  exact ⟨archive', hagree, hdraws ▸ hn, hfiled.stopped hagents hdraws hsaves⟩

/-- Saving a record saves the batch that the scheduler has for its agent. -/
theorem wp_persist_filing (h : Filing env archive n t r) :
    wp (persist env r) (fun _ t' => Filing env archive n t' r) (fun _ => Files env archive n) t := by
  unfold persist
  split_ifs with hp
  · simp only [wp_tryCatch, inspect, wp_bind, stopTimers, save, wp_pure, wp_modifyGet, wp_modify, wp_throw]
    have hstop : ∀ e : Fault, ∀ t' : Scheduler, t'.agents = t.agents → t'.draws = t.draws →
        t'.saves = t.saves → Files env archive n
          { t' with
            failure := some e
            agents := t'.agents.map AgentRecord.clearTimeout AgentRecord.agentId_clearTimeout
            readyWaiters := [] } := by
      intro e t' hagents hdraws hsaves
      exact (h.files.congr hagents (Nat.le_of_eq hdraws.symm) hsaves).stopped rfl rfl rfl
    refine wp_recordOf (fun r₁ _ hr₁ => ?_) (fun _ _ => hstop _ t rfl rfl rfl)
      (fun _ _ => hstop _ t rfl rfl rfl)
    cases hrefusal : env.refusal t.attempts with
    | some message => exact hstop _ { t with attempts := t.attempts + 1 } rfl rfl rfl
    | none =>
      obtain ⟨archive', hagree, hn, hfiled, hr⟩ := h
      refine ⟨archive', hagree, hn, hfiled.saved (fun batch hb => ?_) (t.attempts + 1), hr⟩
      have hb' : r₁.checkpoint.batch = some batch := hb
      rw [(hfiled.records _ r₁ hr₁).checkpoint] at hb'
      exact (hfiled.records _ r₁ hr₁).batch batch hb'
  · exact h

/-- To arm the timer keeps the batches filed. -/
theorem wp_armTimer_filing {E : Fault → Scheduler → Prop} (h : Filing env archive n t r) :
    wp (armTimer env r) (fun r' t' => Filing env archive n t' r') E t := by
  refine wp_armTimer fun timer _ => ?_
  have hput : Filing env archive n (t.put { r with timer }) { r with timer } := h.same rfl (.inl rfl)
  exact hput.congr rfl (Nat.le_refl _) rfl

/-- A new batch is filed under the draw of its identifier. -/
theorem wp_sealBatch_filing (h : Filing env archive n t r) (hb : r.batch = none) :
    wp (sealBatch env r) (fun r' t' => Filing env archive n t' r') (fun _ => Files env archive n) t := by
  obtain ⟨archive', hagree, hn, hfiled, hr⟩ := h
  unfold sealBatch
  simp only [wp_bind, wp_randomUUID, wp_now]
  -- The batch is filed under the number of the draw that named it.
  set batch := r.batchOf (env.uuid t.draws) (env.clock t.readings) with hbatch
  set archive'' := Function.update archive' t.draws batch with harchive
  -- What was filed before is kept: the draw is a new one.
  have hkeep : ∀ k < t.draws, archive'' k = archive' k := fun k hk =>
    Function.update_of_ne (Nat.ne_of_lt hk) _ _
  have hagree' : ∀ k < n, archive'' k = archive k := fun k hk =>
    (hkeep k (Nat.lt_of_lt_of_le hk hn)).trans (hagree k hk)
  have hdrawn : Filed env archive''
      { t with draws := t.draws + 1, readings := t.readings + 1 } :=
    { ids := fun k => by
        by_cases hk : k = t.draws
        · rw [hk, harchive, Function.update_self]
          rfl
        · rw [harchive, Function.update_of_ne hk]
          exact hfiled.ids k
      records := fun id r₁ hr₁ => ((hfiled.records id r₁ hr₁).agree hkeep).mono (Nat.le_succ _)
      saves := fun c hc b hb => ((hfiled.saves c hc b hb).agree hkeep).mono (Nat.le_succ _) }
  have hr' : r.Filed archive'' (t.draws + 1) := (hr.agree hkeep).mono (Nat.le_succ _)
  -- The record has no run, since it has no batch.
  have hnone : r.run = none := by
    cases hrun : r.run with
    | none => rfl
    | some run =>
      have hsome := hr.run run hrun
      rw [hb] at hsome
      cases hsome
  have hnew : ∀ r₁ : AgentRecord, r₁.run = none →
      (r₁.withBatch batch).Filed archive'' (t.draws + 1) := by
    intro r₁ hrun
    refine ⟨fun b hb => ?_, fun run hr₁ => ?_⟩
    · obtain rfl : batch = b := Option.some.inj hb
      exact ⟨t.draws, Nat.lt_succ_self _, Function.update_self ..⟩
    · have hsome : r₁.run = some run := hr₁
      rw [hrun] at hsome
      cases hsome
  -- Whatever the state becomes, the record has the new batch.
  have hend : ∀ (t₁ : Scheduler) (r₁ : AgentRecord), Filed env archive'' t₁ → t₁.draws = t.draws + 1 → r₁.run = none →
      Filing env archive n
        { t₁.put (r₁.withBatch batch) with queue := t₁.queue ++ [(r₁.withBatch batch).agentId] }
        (r₁.withBatch batch) := by
    intro t₁ r₁ hfiled₁ hdraws hrun
    have hfiled₂ := hfiled₁.put (r := r₁.withBatch batch) (by rw [hdraws]; exact hnew r₁ hrun)
    refine ⟨archive'', hagree', ?_, hfiled₂.congr rfl (Nat.le_refl _) rfl, ?_⟩
    · show n ≤ t₁.draws
      omega
    · show (r₁.withBatch batch).Filed archive'' t₁.draws
      rw [hdraws]
      exact hnew r₁ hrun
  refine wp_ensureState (fun _ => ?_) (fun _ _ => ?_) (fun _ _ => ?_)
  · exact hend _ r hdrawn rfl hnone
  · exact hend _ (r.inState .ready) (hdrawn.put (hr'.congr rfl (.inl rfl))) rfl hnone
  · exact ⟨archive'', hagree', Nat.le_trans hn (Nat.le_succ _), hdrawn⟩

/-- An agent that is not suspended is reconciled. -/
theorem wp_reconcileActive_filing (h : Filing env archive n t r) :
    Ends (reconcileActive env r) (Files env archive n) t := by
  -- What is left in every case: save, arm the timer, tell the waiters.
  have hrest : ∀ r₁ t₁, Filing env archive n t₁ r₁ →
      wp (persist env r₁ >>= fun _ => armTimer env r₁ >>= fun r₂ =>
          signalReady env >>= fun _ => pure r₂)
        (fun _ => Files env archive n) (fun _ => Files env archive n) t₁ := by
    intro r₁ t₁ h₁
    refine wp_bind_of (wp_persist_filing h₁) ?_ fun _ _ he => he
    intro _ t₂ h₂
    refine wp_bind_of (wp_armTimer_filing h₂) ?_ fun _ _ he => he
    intro r₃ t₃ h₃
    rw [wp_bind]
    exact wp_signalReady fun _ => h₃.files.congr rfl (Nat.le_refl _) rfl
  unfold reconcileActive
  simp only [wp_bind, wp_ite, wp_pure] at hrest ⊢
  have hensure : ∀ state t₁, Filing env archive n t₁ r → wp (ensureState r state)
      (fun r' t' => Filing env archive n t' r' ∧ r'.batch = r.batch) (fun _ => Files env archive n) t₁ :=
    fun state t₁ h₁ => wp_ensureState (fun _ => ⟨h₁, rfl⟩)
      (fun _ _ => ⟨h₁.same rfl (.inl rfl), rfl⟩) (fun _ _ => h₁.files)
  -- A batch that waits is only put in the queue.
  cases hb : r.batch with
  | some batch =>
    by_cases hrun : r.run.isNone
    · simp only [hrun, Option.isSome_some, and_self, if_true]
      refine wp_mono (hensure .ready t h) ?_ fun _ _ he => he
      rintro r₁ t₁ ⟨h₁, hsame⟩
      have hsome : ¬ r₁.batch.isNone = true := by simp [hsame, hb]
      rw [if_neg hsome]
      exact hrest r₁ t₁ h₁
    · simp only [hrun, and_false, if_false, Option.isNone_some, Bool.false_eq_true]
      exact hrest r t h
  -- Without a batch one is sealed, if there is something to put in it.
  | none =>
    simp only [Option.isSome_none, Option.isNone_none, Bool.false_eq_true, false_and, if_false,
      if_true]
    have hready : wp (resultsReady env r) (fun _ t' => Filing env archive n t' r)
        (fun _ => Files env archive n) t := by
      unfold resultsReady
      split_ifs
      · exact h
      · exact h
      · split
        · exact h
        · exact h.congr rfl (Nat.le_refl _) rfl
    refine wp_mono hready (fun ready t₁ h₁ => ?_) fun _ _ he => he
    by_cases hseal : r.continuation = true ∨ 0 < r.events.size ∨ ready = true
    · rw [if_pos hseal]
      exact wp_mono (wp_sealBatch_filing h₁ hb) (fun r₂ t₂ h₂ => hrest r₂ t₂ h₂) fun _ _ he => he
    · rw [if_neg hseal]
      exact wp_mono (hensure _ t₁ h₁) (fun r₂ t₂ h₂ => hrest r₂ t₂ h₂.1) fun _ _ he => he

/-- A suspension that is over ends. -/
theorem wp_resume_filing {id : AgentId} (h : Files env archive n t) :
    Ends (resume env id) (Files env archive n) t := by
  obtain ⟨archive', hagree, hn, hfiled⟩ := h
  have hkept : Files env archive n t := ⟨archive', hagree, hn, hfiled⟩
  unfold resume Ends
  rw [wp_bind]
  refine wp_recordOf (fun r _ hr => ?_) (fun _ _ => hkept) (fun _ _ => hkept)
  have h : Filing env archive n t r := ⟨archive', hagree, hn, hfiled, hfiled.records _ r hr⟩
  have hact : ∀ r₁ t₁, Filing env archive n t₁ r₁ →
      wp (requeue r₁) (fun r' => wp (reconcileActive env r') (fun _ => Files env archive n)
        (fun _ => Files env archive n)) (fun _ => Files env archive n) t₁ := by
    intro r₁ t₁ h₁
    unfold requeue
    split_ifs
    · exact wp_reconcileActive_filing (h₁.congr rfl (Nat.le_refl _) rfl)
    · have hput : Filing env archive n (t₁.put { r₁ with continuation := true })
          { r₁ with continuation := true } := h₁.same rfl (.inl rfl)
      exact wp_reconcileActive_filing hput
    · exact wp_reconcileActive_filing h₁
  have hresumed : Filing env archive n (t.put { r with suspension := none })
      { r with suspension := none } := h.same rfl (.inl rfl)
  simp only [wp_ite, wp_bind, wp_update, wp_pure]
  split_ifs
  · exact hkept
  · refine wp_transition (fun _ => ?_) (fun _ => hresumed.files)
    exact hact _ _ (hresumed.same rfl (.inl rfl))
  · exact hact _ _ hresumed

/-- To block an agent keeps the batches filed. -/
theorem wp_block_filing (h : Filing env archive n t r) :
    wp (block r) (fun r' t' => Filing env archive n t' r') (fun _ => Files env archive n) t := by
  unfold block
  by_cases hrun : r.run.isNone
  · have hensure : ∀ t₁ r₁, Filing env archive n t₁ r₁ → wp (ensureState r₁ .blocked)
        (fun r' t' => Filing env archive n t' r') (fun _ => Files env archive n) t₁ :=
      fun t₁ r₁ h₁ => wp_ensureState (fun _ => h₁) (fun _ _ => h₁.same rfl (.inl rfl))
        (fun _ _ => h₁.files)
    simp only [hrun, if_true, wp_bind, wp_ite, wp_pure]
    split_ifs
    · refine wp_transition (fun _ => ?_) (fun _ => h.files)
      exact hensure _ _ (h.same rfl (.inl rfl))
    · exact hensure _ _ h
  · rw [if_neg hrun]
    exact h

/-- A record is saved, and then its timer is armed. -/
theorem wp_persist_armTimer_filing {α : Type} {f : AgentRecord → M α} {Q : α → Scheduler → Prop}
    (h : Filing env archive n t r)
    (hf : ∀ r' t', Filing env archive n t' r' → wp (f r') Q (fun _ => Files env archive n) t') :
    wp (persist env r >>= fun _ => armTimer env r >>= f) Q (fun _ => Files env archive n) t := by
  refine wp_bind_of (wp_persist_filing h) ?_ fun _ _ he => he
  intro _ t₁ h₁
  exact wp_bind_of (wp_armTimer_filing h₁) hf fun _ _ he => he

/-- To reconcile an agent keeps the batches filed. -/
theorem wp_reconcile_filing (h : Filing env archive n t r) :
    Ends (reconcile env r) (Files env archive n) t := by
  unfold reconcile
  cases r.suspension with
  | none =>
    exact wp_bind_of (wp_reconcileActive_filing h) (fun _ _ ht => ht) fun _ _ he => he
  | some suspension =>
    have hdue : wp (suspensionDue env suspension) (fun _ t' => Filing env archive n t' r)
        (fun _ => Files env archive n) t := by
      unfold suspensionDue
      split
      · exact h
      · exact h.congr rfl (Nat.le_refl _) rfl
    refine wp_bind_of hdue ?_ fun _ _ he => he
    intro due t₁ h₁
    split_ifs
    · exact wp_resume_filing h₁.files
    · refine wp_bind_of (wp_block_filing h₁) ?_ fun _ _ he => he
      intro r₂ t₂ h₂
      exact wp_persist_armTimer_filing h₂ fun r' t' ht => ht.files

/-- A result is recorded, with the batches as they were. -/
theorem Filing.withResult (h : Filing env archive n t r) (item : PendingOperation)
    (outcome : AsyncOperationOutcome) (time window : ℕ) :
    Filing env archive n (t.put (r.withResult item outcome time window))
      (r.withResult item outcome time window) :=
  h.same rfl (.inl rfl)

/-- To cancel operations keeps the batches filed. -/
theorem wp_cancelEach_filing {E : Fault → Scheduler → Prop} {reason : String}
    (items : List PendingOperation) (h : Filing env archive n t r) :
    wp (cancelEach env r reason items) (fun r' t' => Filing env archive n t' r') E t := by
  induction items generalizing t r with
  | nil => exact h
  | cons item rest ih =>
    unfold cancelEach recordResult
    simp only [wp_bind, wp_now, wp_update, wp_pure]
    have hread : Filing env archive n { t with readings := t.readings + 1 } r :=
      h.congr rfl (Nat.le_refl _) rfl
    exact ih (hread.withResult item _ _ _)

/-- To let operations expire keeps the batches filed. -/
theorem wp_expireEach_filing {E : Fault → Scheduler → Prop} {time : ℕ}
    (items : List PendingOperation) (h : Filing env archive n t r) :
    wp (expireEach env r time items) (fun r' t' => Filing env archive n t' r') E t := by
  induction items generalizing t r with
  | nil => exact h
  | cons item rest ih =>
    unfold expireEach recordResult
    simp only [wp_bind, wp_ite, wp_update, wp_pure]
    split_ifs
    · exact ih (h.withResult item _ _ _)
    · exact ih h

end Parts

/-! ## The operations -/

section Operations

variable {env : Environment} {archive : Archive} {s : Scheduler}

/-- An operation that begins by finding the record of an agent. -/
theorem wp_recordOf_filing {α : Type} {f : AgentRecord → M α} {Q : α → Scheduler → Prop} {id : AgentId}
    (h : Filed env archive s) (hf : ∀ r, Filing env archive s.draws s r →
      wp (f r) Q (fun _ => Files env archive s.draws) s) :
    wp (recordOf id >>= f) Q (fun _ => Files env archive s.draws) s := by
  rw [wp_bind]
  exact wp_recordOf (fun r _ hr => hf r (h.filing hr)) (fun _ _ => h.files) (fun _ _ => h.files)

/-- An operation that begins by checking a run. -/
theorem wp_activeRecord_filing {α : Type} {f : AgentRecord → M α} {Q : α → Scheduler → Prop}
    {run : AgentRun} (h : Filed env archive s) (hf : ∀ r, Filing env archive s.draws s r →
      wp (f r) Q (fun _ => Files env archive s.draws) s) :
    wp (activeRecord run >>= f) Q (fun _ => Files env archive s.draws) s := by
  rw [wp_bind]
  exact wp_activeRecord (fun _ => h.files) fun r _ hr _ _ _ _ => hf r (h.filing hr)

/-- A notification keeps the batches filed. -/
theorem notify_files {agentId : AgentId} {event : AgentWakeEvent} (h : Filed env archive s) :
    Ends (notify env agentId event) (Files env archive s.draws) s := by
  unfold notify
  refine wp_recordOf_filing h fun r hr => ?_
  rw [wp_bind]
  refine wp_nonempty (fun _ => ?_) (fun _ _ => h.files)
  rw [wp_bind]
  refine wp_nonempty (fun _ => ?_) (fun _ _ => h.files)
  simp only [wp_ite, wp_bind, wp_fail, wp_pure, wp_update]
  split_ifs
  · exact h.files
  · exact h.files
  · exact wp_reconcile_filing (hr.same rfl (.inl rfl))

/-- To unregister an agent keeps the batches filed. -/
theorem unregister_files {agentId : AgentId} (h : Filed env archive s) :
    Ends (unregister agentId) (Files env archive s.draws) s := by
  unfold unregister
  refine wp_recordOf_filing h fun r hr => ?_
  simp only [wp_ite, wp_bind, wp_fail, wp_modify]
  split_ifs
  · exact h.files
  · refine ⟨archive, fun _ _ => rfl, Nat.le_refl _, h.ids, fun id r' hr' => ?_, h.saves⟩
    rw [OrderedMap.get?_delete] at hr'
    split_ifs at hr'
    exact h.records id r' hr'

/-- The run that is taken has a batch that was sealed. -/
theorem takeNextRun_files (h : Filed env archive s) :
    wp (takeNextRun env) (fun taken t => Files env archive s.draws t ∧
        ∀ run, taken = some run → archive.Has s.draws run.batch)
      (fun _ => Files env archive s.draws) s := by
  unfold takeNextRun
  rw [wp_bind]
  refine wp_available (fun _ => ?_) (fun _ _ _ => h.files) (fun _ _ => h.files)
  rw [wp_bind, wp_get]
  split_ifs
  · exact ⟨h.files, fun _ hrun => (by cases hrun)⟩
  · -- Without capacity, or with an empty queue, no run is taken.
    split
    · exact ⟨h.files, fun _ hrun => (by cases hrun)⟩
    · rename_i agentId rest hqueue
      refine wp_recordOf_filing h fun r hr => ?_
      split
      · rename_i batch hb hnone
        rw [wp_bind, wp_randomUUID, wp_bind]
        -- The run is filed under the draw that names it, with the batch of the record.
        have hdrawn : Filing env archive s.draws { s with draws := s.draws + 1 } r :=
          hr.congr rfl (Nat.le_succ _) rfl
        refine wp_transition (fun _ => ?_) (fun _ => hdrawn.files)
        rw [wp_bind, wp_update, wp_bind, wp_modify, wp_bind]
        have hready : Filing env archive s.draws _ (r.inState .running) := hdrawn.same rfl (.inl rfl)
        have htaken : Filing env archive s.draws _
            ((r.inState .running).withRun (some { agentId, runId := env.uuid s.draws, batch })) :=
          hready.put fun archive' hfiled => ⟨hfiled.batch, fun run hrun => by
            obtain rfl := Option.some.inj hrun
            exact hb⟩
        refine wp_mono (wp_persist_filing (htaken.congr rfl (Nat.le_refl _) rfl)) ?_ fun _ _ he => he
        intro _ t ht
        refine ⟨ht.files, fun run hrun => ?_⟩
        obtain rfl := Option.some.inj hrun
        obtain ⟨archive', hagree, -, -, hfiled⟩ := hr
        exact (hfiled.batch batch hb).agree fun k hk => (hagree k hk).symm
      · exact h.files

/-- To register operations keeps the batches filed. -/
theorem registerOperations_files {run : AgentRun} {operations : List AsyncOperationOptions}
    (h : Filed env archive s) :
    Ends (registerOperations env run operations) (Files env archive s.draws) s := by
  unfold registerOperations
  refine wp_activeRecord_filing h fun r hr => ?_
  rw [wp_bind, wp_now]
  have hread : Filing env archive s.draws { s with readings := s.readings + 1 } r :=
    hr.congr rfl (Nat.le_refl _) rfl
  refine wp_bind_of (wp_stageOperations fun _ _ t hd => hread.files.drawn hd) ?_ fun _ _ he => he
  intro staged t hd
  have hstaged := hread.congr hd.agents hd.draws hd.saves
  by_cases hcapacity : r.buffered + staged.2.size > env.configuration.maxBufferedOperations.val
  · rw [if_pos hcapacity]
    exact hstaged.files
  · rw [if_neg hcapacity, wp_bind, wp_update]
    have hput : Filing env archive s.draws _ (r.withStaged staged.2) := hstaged.same rfl (.inl rfl)
    exact wp_persist_armTimer_filing hput fun _ _ ht => ht.files

/-- To complete an operation keeps the batches filed. -/
theorem completeOperation_files {operation : AsyncOperation} {outcome : AsyncOperationOutcome}
    (h : Filed env archive s) :
    Ends (completeOperation env operation outcome) (Files env archive s.draws) s := by
  unfold completeOperation Ends
  rw [wp_bind, wp_get]
  split
  · exact h.files
  · rename_i r hget
    split
    · exact h.files
    · split_ifs
      · exact h.files
      · rw [wp_bind]
        refine wp_copyOutcome ?_ (fun _ _ => h.files)
        unfold recordResult
        simp only [wp_bind, wp_now, wp_update, wp_ite, wp_pure]
        have hread : Filing env archive s.draws { s with readings := s.readings + 1 } r :=
          (h.filing hget).congr rfl (Nat.le_refl _) rfl
        refine wp_mono (wp_reconcile_filing (hread.withResult _ _ _ _)) ?_ fun _ _ he => he
        intro _ t ht
        split_ifs
        · exact wp_abort fun _ => ht.congr rfl (Nat.le_refl _) rfl
        · exact ht

/-- Aborting controllers changes no batch. -/
theorem wp_abortAll_files {n : ℕ} {t : Scheduler} {controllers : List AbortController} {reason : String}
    {E : Fault → Scheduler → Prop} (h : Files env archive n t) :
    wp (abortAll controllers reason) (fun _ => Files env archive n) E t :=
  wp_mono wp_abortAll (fun _ _ hd => h.drawn hd) fun _ _ he => he

/-- To cancel the operations of an agent keeps the batches filed. -/
theorem cancelOperations_files {agentId : AgentId} {reason : String} (h : Filed env archive s) :
    Ends (cancelOperations env agentId reason) (Files env archive s.draws) s := by
  unfold cancelOperations
  refine wp_recordOf_filing h fun r hr => ?_
  refine wp_bind_of (wp_cancelEach_filing r.pending.entries hr) ?_ fun _ _ he => he
  intro r' t h'
  refine wp_bind_of (wp_reconcile_filing h') ?_ fun _ _ he => he
  intro _ t' ht
  exact wp_abortAll_files ht

/-- To finish a run keeps the batches filed. -/
theorem finishRun_files {run : AgentRun} {intent : AgentRunIntent} (h : Filed env archive s) :
    Ends (finishRun env run intent) (Files env archive s.draws) s := by
  unfold finishRun
  refine wp_activeRecord_filing h fun r hr => ?_
  rw [wp_bind, wp_update, wp_bind, wp_modify]
  have hfinished : Filing env archive s.draws _ (r.finished intent) := hr.put fun archive' _ =>
    ⟨fun batch hb => (by cases hb), fun run hrun => (by cases hrun)⟩
  refine wp_bind_of (wp_reconcile_filing (hfinished.congr rfl (Nat.le_refl _) rfl)) ?_ fun _ _ he => he
  intro _ t ht
  exact wp_signalReady fun _ => ht.congr rfl (Nat.le_refl _) rfl

/-- To return a run keeps the batches filed. -/
theorem returnRun_files {run : AgentRun} (h : Filed env archive s) :
    Ends (returnRun env run) (Files env archive s.draws) s := by
  unfold returnRun
  refine wp_activeRecord_filing h fun r hr => ?_
  rw [wp_bind]
  refine wp_transition (fun _ => ?_) (fun _ => h.files)
  have hready : Filing env archive s.draws _ (r.inState .ready) := hr.same rfl (.inl rfl)
  have hreturned : Filing env archive s.draws _ ((r.inState .ready).withRun none) :=
    hready.same rfl (.inr rfl)
  have hrest : ∀ t, Filing env archive s.draws t ((r.inState .ready).withRun none) →
      Ends (do
        persist env ((r.inState .ready).withRun none)
        reconcile env ((r.inState .ready).withRun none)
        signalReady env) (Files env archive s.draws) t := by
    intro t ht
    refine wp_bind_of (wp_persist_filing ht) ?_ fun _ _ he => he
    intro _ t₁ h₁
    refine wp_bind_of (wp_reconcile_filing h₁) ?_ fun _ _ he => he
    intro _ t₂ h₂
    exact wp_signalReady fun _ => h₂.congr rfl (Nat.le_refl _) rfl
  rw [wp_bind, wp_update, wp_bind, wp_modify]
  split_ifs
  · rw [wp_bind, wp_pushQueue]
    exact hrest _ (hreturned.congr rfl (Nat.le_refl _) rfl)
  · exact hrest _ (hreturned.congr rfl (Nat.le_refl _) rfl)

/-- To suspend an agent keeps the batches filed. -/
theorem suspend_files {agentId : AgentId} {suspension : AgentSuspension} (h : Filed env archive s) :
    Ends (suspend env agentId suspension) (Files env archive s.draws) s := by
  unfold suspend
  refine wp_recordOf_filing h fun r hr => ?_
  rw [wp_bind]
  refine wp_nonempty (fun _ => ?_) (fun _ _ => h.files)
  rw [wp_bind]
  refine wp_positiveIntegerIfPresent ?_ (fun _ _ => h.files)
  rw [wp_bind, wp_update, wp_bind, wp_modify]
  have hsuspended : Filing env archive s.draws _ (r.suspended suspension) := hr.same rfl (.inl rfl)
  refine wp_bind_of (wp_block_filing (hsuspended.congr rfl (Nat.le_refl _) rfl)) ?_ fun _ _ he => he
  intro r' t h'
  exact wp_persist_armTimer_filing h' fun _ _ ht => ht.files

/-- To fire a timer keeps the batches filed. -/
theorem fireTimer_files {agentId : AgentId} (h : Filed env archive s) :
    Ends (fireTimer env agentId) (Files env archive s.draws) s := by
  unfold fireTimer Ends
  rw [wp_bind, wp_get]
  split
  · exact h.files
  · rename_i r hget
    split_ifs
    · exact h.files
    · rw [wp_tryCatch]
      have htimer : Ends (onTimer env r) (Files env archive s.draws) s := by
        unfold onTimer Ends
        rw [wp_bind, wp_get]
        split_ifs
        · exact h.files
        · rw [wp_bind, wp_update, wp_bind, wp_now]
          have hcleared : Filing env archive s.draws _ r.clearTimeout :=
            (h.filing hget).same rfl (.inl rfl)
          refine wp_bind_of (wp_expireEach_filing r.clearTimeout.pending.entries
            (hcleared.congr rfl (Nat.le_refl _) rfl)) ?_ fun _ _ he => he
          intro r' t h'
          refine wp_bind_of (wp_reconcile_filing h') ?_ fun _ _ he => he
          intro _ t' ht
          exact wp_abortAll_files ht
      refine wp_mono htimer (fun _ _ ht => ht) ?_
      intro e t ht
      exact ht.congr rfl (Nat.le_refl _) rfl

/-- The batch of a restored record is that of its checkpoint. -/
theorem wp_restoreRecord_filing {agent : SchedulingHandle} {saved : AgentSchedulerCheckpoint}
    (h : Filed env archive s) (hsaved : saved ∈ s.saves) :
    wp (restoreRecord agent saved) (fun r t => Filing env archive s.draws t r)
      (fun _ => Files env archive s.draws) s := by
  unfold restoreRecord
  simp only [wp_bind, wp_ite, wp_fail, wp_pure]
  split_ifs with hversion
  · exact h.files
  · -- The checkpoint has the version of this program, so its batch is taken over.
    refine wp_mono wp_restorePending ?_ fun _ _ he => he
    rintro items t ⟨-, rfl⟩
    have hrecord : ∀ r : AgentRecord, r.batch = saved.batch → r.run = none →
        if r.batch.isSome ∧ r.suspension.isNone then
          wp (pushQueue agent.agentId) (fun _ t' => Filing env archive s.draws t' r)
            (fun _ => Files env archive s.draws)
            { s with controllers := s.controllers + saved.pendingOperations.length }
        else Filing env archive s.draws
          { s with controllers := s.controllers + saved.pendingOperations.length } r := by
      intro r hb hrun
      have hr : Filing env archive s.draws s r := by
        refine ⟨archive, fun _ _ => rfl, Nat.le_refl _, h, fun batch hbatch => ?_, fun run hr => ?_⟩
        · rw [hb] at hbatch
          exact h.saves saved hsaved batch hbatch
        · rw [hrun] at hr
          cases hr
      split_ifs
      · exact hr.congr rfl (Nat.le_refl _) rfl
      · exact hr.congr rfl (Nat.le_refl _) rfl
    apply hrecord
    · split_ifs <;> rfl
    · split_ifs <;> rfl

/-- To register an agent keeps the batches filed. -/
theorem register_files {agent : SchedulingHandle} (h : Filed env archive s) :
    Ends (register env agent) (Files env archive s.draws) s := by
  unfold register Ends
  rw [wp_bind]
  refine wp_positiveInteger (fun _ => ?_) (fun _ _ => h.files)
  rw [wp_bind, wp_get]
  simp only [wp_ite, wp_bind, wp_fail]
  split_ifs
  · exact h.files
  · exact h.files
  · refine wp_load ?_
    have hrest : ∀ r t, Filing env archive s.draws t r →
        Ends (do update r; reconcile env r) (Files env archive s.draws) t := by
      intro r t ht
      unfold Ends
      rw [wp_bind, wp_update]
      exact wp_reconcile_filing (ht.same rfl (.inl rfl))
    cases hstored : stored env s agent.agentId with
    | none =>
      refine hrest (AgentRecord.fresh agent) s ⟨archive, fun _ _ => rfl, Nat.le_refl _, h, ?_, ?_⟩
      · intro batch hb
        cases hb
      · intro run hrun
        cases hrun
    | some saved =>
      refine wp_bind_of (wp_restoreRecord_filing h (mem_of_stored hstored).1) ?_ fun _ _ he => he
      intro r t ht
      exact hrest r t ht

/-- Every operation keeps the batches, however it ends. -/
theorem perform_files (op : Operation) (h : Filed env archive s) :
    Files env archive s.draws (finalState (op.perform env s)) := by
  apply wp_finalState
  -- What is filed does not depend on the value the operation returns.
  have hdrop : ∀ {α : Type} {x : M α}, Ends x (Files env archive s.draws) s →
      Ends (do let _ ← x) (Files env archive s.draws) s :=
    fun hx => wp_bind_of hx (fun _ _ ht => ht) fun _ _ he => he
  -- One case per operation.
  cases op with
  | register agent => exact register_files h
  | unregister agentId => exact unregister_files h
  | notify agentId event => exact hdrop (notify_files h)
  | takeNextRun =>
    exact hdrop (wp_mono (takeNextRun_files h) (fun _ _ ht => ht.1) fun _ _ he => he)
  | registerOperations run operations => exact hdrop (registerOperations_files h)
  | completeOperation operation outcome => exact hdrop (completeOperation_files h)
  | finishRun run intent => exact finishRun_files h
  | returnRun run => exact returnRun_files h
  | suspend agentId suspension => exact suspend_files h
  | resume agentId => exact wp_resume_filing h.files
  | cancelOperations agentId reason => exact cancelOperations_files h
  | timer agentId => exact fireTimer_files h
  | waitForReady aborted waiter =>
    refine hdrop ?_
    unfold waitForReady Ends
    rw [wp_bind]
    refine wp_available (fun _ => ?_) (fun _ _ _ => h.files) (fun _ _ => h.files)
    simp only [wp_ite, wp_bind, wp_get, wp_set, wp_pure]
    split_ifs
    · exact h.files
    · exact h.files
    · exact h.files.congr rfl (Nat.le_refl _) rfl
  | abortWait waiter => exact h.files.congr rfl (Nat.le_refl _) rfl
  | operationHandle operation =>
    refine hdrop (wp_recordOf_filing h fun r hr => ?_)
    split <;> exact h.files
  | inspect agentId => exact hdrop (wp_recordOf_filing h fun r hr => h.files)
  | close => exact h.files.stopped rfl rfl rfl

end Operations

end OsAgent.AgentScheduler
