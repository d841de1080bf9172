import OsAgent.AgentScheduler.Frame
import Mathlib.Tactic.Common
import Mathlib.Tactic.SplitIfs

/-!
# What an operation does to the contents of a record

The rules here hold in every state, also of a scheduler that was closed or whose store has failed,
and however the program ends: they are about what a record holds, and not about whether its state
is the right one. `reconcile` keeps the contents of a record, or moves the collected results and
events into a batch.
-/

namespace OsAgent.AgentScheduler

open OsAgent.Library OsAgent.ControlBlock

/-- The records of one agent that differ in their state, their timer, their suspension, or their
wish to continue alone. -/
structure SameContents (r r' : AgentRecord) : Prop where
  agentId : r'.agentId = r.agentId
  pending : r'.pending = r.pending
  recentEvents : r'.recentEvents = r.recentEvents
  run : r'.run = r.run
  completed : r'.completed = r.completed
  events : r'.events = r.events
  batch : r'.batch = r.batch
  suspension : r'.suspension = r.suspension ∨ r'.suspension = none

/-- `r'` holds what `r` holds, with the collected results and events possibly in a new batch. -/
structure Carried (r r' : AgentRecord) : Prop where
  agentId : r'.agentId = r.agentId
  pending : r'.pending = r.pending
  recentEvents : r'.recentEvents = r.recentEvents
  run : r'.run = r.run
  contents : (r'.completed = r.completed ∧ r'.events = r.events ∧ r'.batch = r.batch) ∨
    (r.batch = none ∧ r'.completed = .empty ∧ r'.events = .empty ∧
      ∃ batch, r'.batch = some batch ∧ batch.results = r.completed.entries ∧
        batch.events = r.events.entries)
  suspension : r'.suspension = r.suspension ∨ r'.suspension = none

/-- Nothing has happened to the contents. -/
theorem Carried.refl (r : AgentRecord) : Carried r r :=
  ⟨rfl, rfl, rfl, rfl, .inl ⟨rfl, rfl, rfl⟩, .inl rfl⟩

/-- Nothing more happens to the contents. -/
theorem Carried.same {r₀ r r' : AgentRecord} (h : Carried r₀ r) (hs : SameContents r r') :
    Carried r₀ r' := by
  refine ⟨hs.agentId.trans h.agentId, hs.pending.trans h.pending,
    hs.recentEvents.trans h.recentEvents, hs.run.trans h.run, ?_, ?_⟩
  · rw [hs.completed, hs.events, hs.batch]
    exact h.contents
  · rcases hs.suspension with hsus | hsus
    · rw [hsus]
      exact h.suspension
    · exact .inr hsus

/-- The contents are moved into a batch. -/
theorem Carried.withBatch {r₀ r : AgentRecord} (h : Carried r₀ r) (hb : r.batch = none)
    {batch : AgentDispatchBatch} (hresults : batch.results = r.completed.entries)
    (hevents : batch.events = r.events.entries) : Carried r₀ (r.withBatch batch) := by
  refine ⟨h.agentId, h.pending, h.recentEvents, h.run, .inr ?_, h.suspension⟩
  rcases h.contents with ⟨hc, he, hb₀⟩ | ⟨-, -, -, batch', hb', -, -⟩
  · refine ⟨hb₀ ▸ hb, rfl, rfl, batch, rfl, ?_, ?_⟩
    · rw [hresults, hc]
    · rw [hevents, he]
  · rw [hb] at hb'
    cases hb'

/-- An operation that began in `s` is at `t`, and its agent's record satisfies `P`. -/
def Held (s : Scheduler) (P : AgentRecord → Prop) (t : Scheduler) : Prop :=
  ∃ r, Touched s t r ∧ P r

section Rules

variable {env : Environment} {s t : Scheduler} {r r₀ : AgentRecord}

/-- Saving a record does not change the records. -/
theorem wp_persist_touched (h : Touched s t r) :
    Ends (persist env r) (fun t' => Touched s t' r) t :=
  wp_persist h (fun _ => h) (fun _ ha => h.saved ha rfl _) fun e n _ _ => h.broken e n

/-- Saving a record and arming its timer change its timer alone. -/
theorem wp_rest_touched {α : Type} {f : AgentRecord → M α} {Q : α → Scheduler → Prop}
    {E : Fault → Scheduler → Prop} (h : Touched s t r) (hE : ∀ e t', Touched s t' r → E e t')
    (hf : ∀ t' timer, Touched s t' { r with timer } → wp (f { r with timer }) Q E t') :
    wp (persist env r >>= fun _ => armTimer env r >>= f) Q E t := by
  refine wp_bind_of (wp_persist_touched h) ?_ hE
  intro _ t' h'
  rw [wp_bind]
  refine wp_armTimer fun timer n => hf _ timer ?_
  exact (h'.put { r with timer } rfl).congr rfl (Nat.le_refl _) rfl rfl rfl

/-- The end of a reconciliation keeps the contents. -/
theorem wp_rest_carried {α : Type} {f : AgentRecord → M α} {Q : α → Scheduler → Prop}
    (h : Touched s t r) (hc : Carried r₀ r)
    (hf : ∀ t' r', Touched s t' r' → Carried r₀ r' →
      wp (f r') Q (fun _ => Held s (Carried r₀)) t') :
    wp (persist env r >>= fun _ => armTimer env r >>= f) Q (fun _ => Held s (Carried r₀)) t := by
  refine wp_rest_touched h (fun _ _ h' => ⟨r, h', hc⟩) fun t' timer h' => hf _ _ h' ?_
  exact hc.same ⟨rfl, rfl, rfl, rfl, rfl, rfl, rfl, .inl rfl⟩

/-- Sealing moves the contents into a batch. -/
theorem wp_sealBatch_carried (h : Touched s t r) (hc : Carried r₀ r) (hb : r.batch = none) :
    wp (sealBatch env r) (fun r' t' => Touched s t' r' ∧ Carried r₀ r')
      (fun _ => Held s (Carried r₀)) t := by
  have hd : ∀ n m, t.draws ≤ n →
      Touched s { t with draws := n, readings := m } r := fun n m hn => h.congr rfl hn rfl rfl rfl
  unfold sealBatch
  simp only [wp_bind, wp_randomUUID, wp_now]
  have hdraw := hd _ (t.readings + 1) (Nat.le_succ t.draws)
  have hst : Carried r₀ (r.inState .ready) := hc.same ⟨rfl, rfl, rfl, rfl, rfl, rfl, rfl, .inl rfl⟩
  refine wp_ensureState (fun _ => ?_) (fun _ _ => ?_) (fun _ _ => ?_)
  · have hput := hdraw.put (r.withBatch (r.batchOf (env.uuid t.draws) (env.clock t.readings))) rfl
    exact ⟨hput.congr rfl (Nat.le_refl _) rfl rfl rfl, hc.withBatch hb rfl rfl⟩
  · have hput := (hdraw.put (r.inState .ready) rfl).put ((r.inState .ready).withBatch
      (r.batchOf (env.uuid t.draws) (env.clock t.readings))) rfl
    exact ⟨hput.congr rfl (Nat.le_refl _) rfl rfl rfl, hst.withBatch hb rfl rfl⟩
  · exact ⟨r, hdraw, hc⟩

/-- Reconciling an agent that is not suspended carries the contents. -/
theorem wp_reconcileActive_carried (h : Touched s t r) (hc : Carried r₀ r) :
    Ends (reconcileActive env r) (Held s (Carried r₀)) t := by
  -- What is left in every case: save, arm the timer, tell the waiters.
  have hrest : ∀ r₁ t₁, Touched s t₁ r₁ → Carried r₀ r₁ →
      wp (persist env r₁ >>= fun _ => armTimer env r₁ >>= fun r₂ =>
          signalReady env >>= fun _ => pure r₂)
        (fun _ => Held s (Carried r₀)) (fun _ => Held s (Carried r₀)) t₁ := by
    intro r₁ t₁ h₁ hc₁
    refine wp_rest_carried h₁ hc₁ fun t' r' h' hc' => ?_
    rw [wp_bind]
    exact wp_signalReady fun waiters => ⟨r', h'.congr rfl (Nat.le_refl _) rfl rfl rfl, hc'⟩
  unfold reconcileActive Ends
  simp only [wp_bind, wp_ite, wp_pure] at hrest ⊢
  -- A state alone carries nothing.
  have hst : ∀ state, Carried r₀ (r.inState state) := fun _ =>
    hc.same ⟨rfl, rfl, rfl, rfl, rfl, rfl, rfl, .inl rfl⟩
  cases hb : r.batch with
  | some batch =>
    by_cases hrun : r.run.isNone
    · simp only [hrun, Option.isSome_some, and_self, if_true]
      refine wp_ensureState (fun _ => ?_) (fun _ _ => ?_) (fun _ _ => ⟨r, h, hc⟩)
      · simp only [hb, Option.isNone_some, Bool.false_eq_true, if_false]
        exact hrest r t h hc
      · have hb' : (r.inState .ready).batch = some batch := hb
        simp only [hb', Option.isNone_some, Bool.false_eq_true, if_false]
        exact hrest _ _ (h.put _ rfl) (hst .ready)
    · simp only [hrun, and_false, if_false, Option.isNone_some, Bool.false_eq_true]
      exact hrest r t h hc
  | none =>
    simp only [Option.isSome_none, Option.isNone_none, Bool.false_eq_true, false_and, if_false,
      if_true]
    refine wp_resultsReady fun ready n _ _ => ?_
    have hn : Touched s { t with readings := n } r := h.congr rfl (Nat.le_refl _) rfl rfl rfl
    -- A batch is sealed only if there is something to put in it.
    by_cases hseal : r.continuation = true ∨ 0 < r.events.size ∨ ready = true
    · rw [if_pos hseal]
      refine wp_mono (wp_sealBatch_carried hn hc hb) ?_ fun _ _ he => he
      rintro r₁ t₁ ⟨h₁, hc₁⟩
      exact hrest r₁ t₁ h₁ hc₁
    · rw [if_neg hseal]
      refine wp_ensureState (fun _ => ?_) (fun _ _ => ?_) (fun _ _ => ⟨r, hn, hc⟩)
      · exact hrest r _ hn hc
      · exact hrest _ _ (hn.put _ rfl) (hst _)

/-- Resuming carries the contents of the agent's record. -/
theorem wp_resume_carried (h : Touched s t r) (hc : Carried r₀ r) :
    Ends (resume env r.agentId) (Held s (Carried r₀)) t := by
  obtain ⟨timer, h₀⟩ := h.get?_self
  unfold resume requeue Ends
  rw [wp_bind]
  refine wp_recordOf_of_get? h₀ (fun _ => ?_) (fun c m _ => ⟨r, h, hc⟩) (fun e _ => ⟨r, h, hc⟩)
  -- The record is active again: it is reconciled as any other.
  have hact : ∀ r₁ t₁, Touched s t₁ r₁ → Carried r₀ r₁ →
      wp (reconcileActive env r₁) (fun _ => Held s (Carried r₀)) (fun _ => Held s (Carried r₀))
        t₁ := fun _ _ => wp_reconcileActive_carried
  -- Its batch, if it has one, is put back in the queue first.
  have hqueue : ∀ r₁ t₁, Touched s t₁ r₁ → Carried r₀ r₁ →
      if r₁.batch.isSome ∧ r₁.run.isNone then
        wp (reconcileActive env r₁) (fun _ => Held s (Carried r₀)) (fun _ => Held s (Carried r₀))
          { t₁ with queue := t₁.queue ++ [r.agentId] }
      else if r₁.batch.isNone then
        wp (reconcileActive env { r₁ with continuation := true }) (fun _ => Held s (Carried r₀))
          (fun _ => Held s (Carried r₀)) (t₁.put { r₁ with continuation := true })
      else
        wp (reconcileActive env r₁) (fun _ => Held s (Carried r₀)) (fun _ => Held s (Carried r₀))
          t₁ := by
    intro r₁ t₁ h₁ hc₁
    split_ifs
    · exact hact _ _ (h₁.congr rfl (Nat.le_refl _) rfl rfl rfl) hc₁
    · exact hact _ _ (h₁.put _ rfl) (hc₁.same ⟨rfl, rfl, rfl, rfl, rfl, rfl, rfl, .inl rfl⟩)
    · exact hact _ _ h₁ hc₁
  have hsame : ∀ state, Carried r₀ { r with timer, suspension := none, agent := { r.agent with state } } :=
    fun _ => hc.same ⟨rfl, rfl, rfl, rfl, rfl, rfl, rfl, .inr rfl⟩
  by_cases hs : r.suspension.isNone
  · simp only [hs, if_true]
    exact ⟨r, h, hc⟩
  · simp only [hs, Bool.false_eq_true, if_false, wp_bind, wp_ite, wp_pure, wp_update,
      wp_pushQueue]
    have h₁ := h.put { r with timer, suspension := none } rfl
    -- Only a blocked agent changes its state.
    by_cases hst : r.agent.state = .blocked
    · rw [if_pos hst]
      refine wp_transition (fun _ => ?_) (fun _ => ⟨_, h₁, hsame r.agent.state⟩)
      exact hqueue _ _ (h₁.put _ rfl) (hsame .ready)
    · rw [if_neg hst]
      exact hqueue _ _ h₁ (hsame r.agent.state)

/-- Blocking changes the state of the control block alone. -/
theorem wp_block_touched (h : Touched s t r) :
    wp (block r) (fun r' t' => Touched s t' r' ∧ ∃ state, r' = r.inState state)
      (fun _ t' => ∃ state, Touched s t' (r.inState state)) t := by
  unfold block
  by_cases hrun : r.run.isNone
  · simp only [hrun, if_true, wp_bind, wp_ite, wp_pure]
    split_ifs
    · refine wp_transition (fun _ => ?_) (fun _ => ⟨_, h⟩)
      have hready := h.put (r.inState .ready) rfl
      refine wp_ensureState (fun _ => ⟨hready, _, rfl⟩) (fun _ _ => ?_) (fun _ _ => ⟨_, hready⟩)
      exact ⟨hready.put _ rfl, .blocked, rfl⟩
    · refine wp_ensureState (fun _ => ⟨h, _, rfl⟩) (fun _ _ => ⟨h.put _ rfl, .blocked, rfl⟩)
        (fun _ _ => ⟨_, h⟩)
  · rw [if_neg hrun]
    exact ⟨h, _, rfl⟩

/-- Blocking keeps the contents. -/
theorem wp_block_carried (h : Touched s t r) (hc : Carried r₀ r) :
    wp (block r) (fun r' t' => Touched s t' r' ∧ Carried r₀ r') (fun _ => Held s (Carried r₀)) t := by
  have hst : ∀ state, Carried r₀ (r.inState state) := fun _ =>
    hc.same ⟨rfl, rfl, rfl, rfl, rfl, rfl, rfl, .inl rfl⟩
  refine wp_mono (wp_block_touched h) ?_ ?_
  · rintro r' t' ⟨h', state, rfl⟩
    exact ⟨h', hst state⟩
  · rintro _ t' ⟨state, h'⟩
    exact ⟨_, h', hst state⟩

/-- The time of a suspension has come. -/
def Overdue (suspension : AgentSuspension) (now : ℕ) : Prop :=
  ∃ resumeAt, suspension.resumeAt = some resumeAt ∧ resumeAt ≤ now

/-- A suspension whose time has not come is kept. -/
theorem wp_reconcile_paused {suspension : AgentSuspension} (h : Touched s t r)
    (hs : r.suspension = some suspension)
    (hdue : ¬Overdue suspension (env.clock t.readings)) :
    Ends (reconcile env r) (Held s (fun r' => r'.suspension = some suspension)) t := by
  have hpause : ∀ n, Ends (do
      let record ← block r
      persist env record
      let _ ← armTimer env record) (Held s (fun r' => r'.suspension = some suspension))
      { t with readings := n } := by
    intro n
    refine wp_bind_of (wp_block_touched (h.read n)) ?_ fun _ t' ⟨state, h'⟩ => ⟨_, h', hs⟩
    rintro r' t' ⟨h', state, rfl⟩
    exact wp_rest_touched h' (fun _ _ h'' => ⟨_, h'', hs⟩) fun _ _ h'' => ⟨_, h'', hs⟩
  unfold reconcile Ends
  rw [hs]
  simp only [wp_bind, wp_ite] at hpause ⊢
  unfold suspensionDue
  cases hat : suspension.resumeAt with
  | none => exact hpause t.readings
  | some resumeAt =>
    have hlate : ¬resumeAt ≤ env.clock t.readings := fun hle => hdue ⟨resumeAt, hat, hle⟩
    simp only [wp_bind, wp_now, wp_pure, hlate, decide_false, Bool.false_eq_true, if_false]
    exact hpause (t.readings + 1)

/-- Reconciling carries the contents of the record, however it ends. -/
theorem wp_reconcile_carried (h : Touched s t r) :
    Ends (reconcile env r) (Held s (Carried r)) t := by
  unfold reconcile Ends
  cases hs : r.suspension with
  | none =>
    rw [wp_bind]
    exact wp_mono (wp_reconcileActive_carried h (.refl r)) (fun _ _ h => h) fun _ _ h => h
  | some suspension =>
    rw [wp_bind]
    refine wp_suspensionDue fun due n => ?_
    have hn : Touched s { t with readings := n } r := h.congr rfl (Nat.le_refl _) rfl rfl rfl
    cases due with
    | true => exact wp_resume_carried hn (.refl r)
    | false =>
      simp only [Bool.false_eq_true, if_false]
      refine wp_bind_of (wp_block_carried hn (.refl r)) ?_ fun _ _ he => he
      rintro r₁ t₁ ⟨h₁, hc₁⟩
      exact wp_rest_carried h₁ hc₁ fun t' r' h' hc' => ⟨r', h', hc'⟩

end Rules

end OsAgent.AgentScheduler
