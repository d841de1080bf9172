import OsAgent.AgentScheduler.Rest
import Mathlib.Tactic.Common
import Mathlib.Tactic.SplitIfs

/-!
# Signals and timers

Two things wake what waits: a signal wakes the callers of `waitForReady`, and a timer wakes an agent
whose record waits for a time. `Awake` says that neither is missing between two operations. An operation
takes the record of its agent out of this for a while (`Working`), and the end of `reconcile` brings it
back (`Rested`).
-/

namespace OsAgent.AgentScheduler

open OsAgent.Library OsAgent.ControlBlock AgentRecord

/-! ## What is to wake whom -/

/-- A record waits for a time. -/
inductive AgentRecord.Awaits (r : AgentRecord) : ℕ → Prop where
  | deadline {p : PendingOperation} (hp : p ∈ r.pending.entries) : r.Awaits p.operation.deadline
  | resume {suspension : AgentSuspension} {resumeAt : ℕ} (hs : r.suspension = some suspension)
      (hresume : suspension.resumeAt = some resumeAt) : r.Awaits resumeAt
  | due {dueAt : ℕ} (hs : r.suspension = none) (hb : r.batch = none)
      (hdue : r.batchDueAt = some dueAt) : r.Awaits dueAt

/-- An agent has an operation in flight, or pauses until a time, or has results to deliver and neither
a batch nor a pause. -/
def AgentRecord.NeedsTimer (r : AgentRecord) : Prop :=
  0 < r.pending.size ∨ (∃ suspension ∈ r.suspension, suspension.resumeAt.isSome) ∨
    (0 < r.completed.size ∧ r.batch = none ∧ r.suspension = none)

/-- The timer was armed at one of the readings of the clock from `start` to `stop`, by the delay of a
timer at most, and fires then or before every time for which the record waits. -/
def AgentRecord.TimerSet (env : Environment) (start stop : ℕ) (r : AgentRecord) : Prop :=
  ∃ n, start ≤ n ∧ n < stop ∧ ∃ time, r.timer = some time ∧ time ≤ env.clock n + 2147483647 ∧
    ∀ at_, r.Awaits at_ → time ≤ max (env.clock n) at_

/-- The timer was armed for the earliest time at one of the readings from `start` to `stop`. -/
def AgentRecord.Armed (env : Environment) (start stop : ℕ) (r : AgentRecord) : Prop :=
  ∀ at_, r.nextDeadline = some at_ → ∃ n, start ≤ n ∧ n < stop ∧
    r.timer = some (env.clock n + min 2147483647 (at_ - env.clock n))

/-- Nobody waits for a run that could be taken. -/
def Scheduler.Signalled (env : Environment) (s : Scheduler) : Prop :=
  s.readyWaiters ≠ [] → s.queue = [] ∨ hasCapacity env s = false

/-- Nothing waits without being woken. -/
structure Awake (env : Environment) (s : Scheduler) : Prop where
  armed : ∀ id r, s.agents.get? id = some r → r.Armed env 0 s.readings
  signalled : s.Signalled env

/-- An operation that has read the clock from `start` on holds the record `r`; the callers of
`waitForReady` are served if `served` holds. -/
structure Working (env : Environment) (start : ℕ) (served : Prop) (t : Scheduler) (r : AgentRecord) :
    Prop where
  found : t.agents.get? r.agentId = some r
  others : ∀ id r', id ≠ r.agentId → t.agents.get? id = some r' → r'.Armed env 0 t.readings
  since : start ≤ t.readings
  signalled : served → t.Signalled env

/-- An operation that has read the clock from `start` on has armed the timer of its agent. -/
structure Rested (env : Environment) (start : ℕ) (served : Prop) (id : AgentId) (t : Scheduler) :
    Prop where
  armed : ∀ id' r, t.agents.get? id' = some r → r.Armed env 0 t.readings
  again : ∀ r, t.agents.get? id = some r → r.Armed env start t.readings
  signalled : served → t.Signalled env

/-- An operation that throws keeps everything awake, unless it asked for a transition that there is not,
or the scheduler has stopped. -/
def Troubled (env : Environment) (e : Fault) (t : Scheduler) : Prop :=
  (∃ edge, e = .invalidTransition edge) ∨ (t.Available → Awake env t)

/-! ## Times -/

section Times

variable {env : Environment} {r : AgentRecord} {start stop : ℕ}

/-- A timer that was armed between two readings was armed between wider ones. -/
theorem AgentRecord.Armed.mono {start' stop' : ℕ} (h : r.Armed env start stop)
    (hstart : start' ≤ start) (hstop : stop ≤ stop') : r.Armed env start' stop' := by
  intro at_ hat
  obtain ⟨n, hn, hn', htimer⟩ := h at_ hat
  exact ⟨n, by omega, by omega, htimer⟩

/-- The times for which a record waits are those of which its timer is armed for the earliest. -/
theorem exists_nextDeadline {at_ : ℕ} (h : r.Awaits at_) :
    ∃ earliest, r.nextDeadline = some earliest ∧ earliest ≤ at_ := by
  have hmem : at_ ∈ r.pending.entries.map (fun p => p.operation.deadline) ++
      (r.suspension.bind AgentSuspension.resumeAt).toList ++
      (if r.suspension.isNone ∧ r.batch.isNone then r.batchDueAt.toList else []) := by
    cases h with
    | deadline hp =>
      apply List.mem_append_left
      apply List.mem_append_left
      exact List.mem_map_of_mem hp
    | resume hs hresume =>
      apply List.mem_append_left
      apply List.mem_append_right
      simp [hs, hresume]
    | due hs hb hdue =>
      apply List.mem_append_right
      simp [hs, hb, hdue]
  obtain ⟨earliest, hearliest⟩ := Option.isSome_iff_exists.mp
    (List.isSome_min?_of_mem hmem)
  exact ⟨earliest, hearliest, (List.min?_eq_some_iff.mp hearliest).2 at_ hmem⟩

/-- A record that needs a timer waits for a time. -/
theorem exists_awaits (h : r.NeedsTimer) (hdue : 0 < r.completed.size → r.batchDueAt.isSome) :
    ∃ at_, r.Awaits at_ := by
  rcases h with hpending | ⟨suspension, hs, hresume⟩ | ⟨hcompleted, hb, hs⟩
  · obtain ⟨p, hp⟩ := List.exists_mem_of_length_pos hpending
    exact ⟨_, .deadline hp⟩
  · obtain ⟨resumeAt, hresume⟩ := Option.isSome_iff_exists.mp hresume
    exact ⟨resumeAt, .resume hs hresume⟩
  · obtain ⟨dueAt, hdueAt⟩ := Option.isSome_iff_exists.mp (hdue hcompleted)
    exact ⟨dueAt, .due hs hb hdueAt⟩

/-- A timer that is armed for the earliest time is set, if there is a time. -/
theorem timerSet_of_armed (h : r.Armed env start stop) (hawaits : ∃ at_, r.Awaits at_) :
    r.TimerSet env start stop := by
  obtain ⟨at_, hat⟩ := hawaits
  obtain ⟨earliest, hearliest, -⟩ := exists_nextDeadline hat
  obtain ⟨n, hn, hn', htimer⟩ := h earliest hearliest
  refine ⟨n, hn, hn', _, htimer, by omega, fun at_ hat => ?_⟩
  obtain ⟨earliest', hearliest', hle⟩ := exists_nextDeadline hat
  obtain rfl := Option.some.inj (hearliest.symm.trans hearliest')
  omega

end Times

/-! ## The parts of an operation -/

section Parts

variable {env : Environment} {s t : Scheduler} {r r' : AgentRecord} {start : ℕ} {served : Prop}
  {id : AgentId}

/-- The records and what the callers of `waitForReady` wait for are left alone. -/
structure Undisturbed (t t' : Scheduler) : Prop where
  agents : t'.agents = t.agents
  readings : t.readings ≤ t'.readings
  queue : t'.queue = t.queue
  running : t'.running = t.running
  waiters : t'.readyWaiters = t.readyWaiters

/-- A scheduler is undisturbed as it is. -/
theorem Undisturbed.refl (t : Scheduler) : Undisturbed t t := ⟨rfl, Nat.le_refl _, rfl, rfl, rfl⟩

/-- What is undisturbed twice is undisturbed. -/
theorem Undisturbed.trans {t' t'' : Scheduler} (h : Undisturbed t t') (h' : Undisturbed t' t'') :
    Undisturbed t t'' :=
  ⟨h'.agents.trans h.agents, Nat.le_trans h.readings h'.readings, h'.queue.trans h.queue,
    h'.running.trans h.running, h'.waiters.trans h.waiters⟩

/-- The callers are signalled as before. -/
theorem Undisturbed.signalled {t' : Scheduler} (hu : Undisturbed t t') (h : t.Signalled env) :
    t'.Signalled env := by
  unfold Scheduler.Signalled hasCapacity
  rw [hu.waiters, hu.queue, hu.running]
  exact h

/-- Nothing waits without being woken, as before. -/
theorem Awake.undisturbed (h : Awake env s) (hu : Undisturbed s t) : Awake env t where
  armed id r hr := by
    rw [hu.agents] at hr
    exact (h.armed id r hr).mono (Nat.le_refl _) hu.readings
  signalled := hu.signalled h.signalled

/-- An operation that has armed its timer, as before. -/
theorem Rested.undisturbed {t' : Scheduler} (h : Rested env start served id t)
    (hu : Undisturbed t t') : Rested env start served id t' where
  armed id r hr := by
    rw [hu.agents] at hr
    exact (h.armed id r hr).mono (Nat.le_refl _) hu.readings
  again r hr := by
    rw [hu.agents] at hr
    exact (h.again r hr).mono (Nat.le_refl _) hu.readings
  signalled hs := hu.signalled (h.signalled hs)

/-- An operation on the record of an agent begins. -/
theorem Awake.working (h : Awake env s) (hr : s.agents.get? r.agentId = some r) :
    Working env s.readings True s r where
  found := hr
  others id r' _ hr' := h.armed id r' hr'
  since := Nat.le_refl _
  signalled _ := h.signalled

/-- An operation that has armed its timer leaves everything awake. -/
theorem Rested.awake (h : Rested env start True id t) : Awake env t := ⟨h.armed, h.signalled trivial⟩

/-- Callers that are served are so, whatever is asked. -/
theorem Rested.mono {served' : Prop} (h : Rested env start served id t) (hs : served' → served) :
    Rested env start served' id t := { h with signalled := fun hs' => h.signalled (hs hs') }

namespace Working

/-- It does not matter whether the callers are served. -/
theorem unserved (h : Working env start served t r) : Working env start False t r :=
  { h with signalled := fun h => (by cases h) }

/-- Another record of the same agent is written back. -/
theorem put (h : Working env start served t r) (r' : AgentRecord) (hr : r'.agentId = r.agentId) :
    Working env start served (t.put r') r' where
  found := OrderedMap.get?_insert_self ..
  others id r₁ hid h₁ := by
    have hget : t.agents.get? id = some r₁ := by
      rw [← h₁]
      exact (OrderedMap.get?_insert_of_ne _ hid).symm
    exact h.others id r₁ (hr ▸ hid) hget
  since := h.since
  signalled := h.signalled

/-- The clock is read, and fields are changed that do not matter here. -/
theorem congr (h : Working env start served t r) {t' : Scheduler} (hu : Undisturbed t t') :
    Working env start served t' r where
  found := by rw [hu.agents, h.found]
  others id r' hid hr' := by
    rw [hu.agents] at hr'
    exact (h.others id r' hid hr').mono (Nat.le_refl _) hu.readings
  since := Nat.le_trans h.since hu.readings
  signalled hs := hu.signalled (h.signalled hs)

/-- The clock is read. -/
theorem read (h : Working env start served t r) :
    Working env start served { t with readings := t.readings + 1 } r :=
  h.congr ⟨rfl, Nat.le_succ _, rfl, rfl, rfl⟩

/-- An identifier is drawn. -/
theorem draw (h : Working env start served t r) :
    Working env start served { t with draws := t.draws + 1 } r :=
  h.congr ⟨rfl, Nat.le_refl _, rfl, rfl, rfl⟩

/-- The queue or the counter is changed, so somebody may have to be signalled. -/
theorem requeue (h : Working env start served t r) (queue : List AgentId) (running : ℤ) :
    Working env start False { t with queue, running } r where
  found := h.found
  others := h.others
  since := h.since
  signalled := fun h => (by cases h)

/-- All timers are armed, if that of the agent is. -/
theorem armed (h : Working env start served t r) (ha : r.Armed env 0 t.readings) :
    ∀ id r', t.agents.get? id = some r' → r'.Armed env 0 t.readings := by
  intro id r' hr'
  by_cases hid : id = r.agentId
  · subst hid
    obtain rfl := Option.some.inj (h.found.symm.trans hr')
    exact ha
  · exact h.others id r' hid hr'

/-- The timer of the agent is armed. -/
theorem rested (h : Working env start served t r) (ha : r.Armed env start t.readings) :
    Rested env start served r.agentId t where
  armed := h.armed (ha.mono (Nat.zero_le _) (Nat.le_refl _))
  again r' hr' := by
    obtain rfl := Option.some.inj (h.found.symm.trans hr')
    exact ha
  signalled := h.signalled

/-- The timer of the agent was armed before. -/
theorem awake (h : Working env start True t r) (ha : r.Armed env 0 t.readings) : Awake env t :=
  ⟨h.armed ha, h.signalled trivial⟩

end Working

/-- An error of the store, or of a scheduler that has stopped. -/
theorem Troubled.stopped {e : Fault} (h : ¬t.Available) : Troubled env e t :=
  .inr fun ha => absurd ha h

/-- Saving a record changes nothing that matters here, or the scheduler stops. -/
theorem wp_persist_working (h : Working env start served t r) :
    wp (persist env r) (fun _ t' => Working env start served t' r) (Troubled env) t := by
  refine wp_persist (Touched.refl h.found) (fun _ => h) (fun _ _ => ?_) (fun e n _ _ => ?_)
  · exact h.congr ⟨rfl, Nat.le_refl _, rfl, rfl, rfl⟩
  · apply Troubled.stopped
    intro ha
    cases ha.2

/-- Arming the timer of the agent arms it for the earliest time. -/
theorem wp_armTimer_rested {E : Fault → Scheduler → Prop} (h : Working env start served t r) :
    wp (armTimer env r) (fun _ t' => Rested env start served r.agentId t') E t := by
  have hcleared := h.put r.clearTimeout rfl
  unfold armTimer
  rw [wp_bind, wp_update]
  have hcleared' : r.clearTimeout.nextDeadline = r.nextDeadline := rfl
  simp only [hcleared']
  cases hnext : r.nextDeadline with
  | none =>
    refine hcleared.rested fun at_ hat => ?_
    have hsome : r.nextDeadline = some at_ := hat
    rw [hnext] at hsome
    cases hsome
  | some at_ =>
    rw [wp_bind, wp_now, wp_bind, wp_update, wp_pure]
    refine (hcleared.read.put { r.clearTimeout with timer := some (env.clock t.readings +
      min 2147483647 (at_ - env.clock t.readings)) } rfl).rested fun at' hat' => ?_
    have hsame : at_ = at' := Option.some.inj (hnext.symm.trans hat')
    exact ⟨t.readings, h.since, Nat.lt_succ_self _, by rw [hsame]⟩

/-- A record is saved, and then its timer is armed. -/
theorem wp_persist_armTimer_rested {α : Type} {f : AgentRecord → M α} {Q : α → Scheduler → Prop}
    (h : Working env start served t r)
    (hf : ∀ r' t', Rested env start served r.agentId t' → wp (f r') Q (Troubled env) t') :
    wp (persist env r >>= fun _ => armTimer env r >>= f) Q (Troubled env) t := by
  refine wp_bind_of (wp_persist_working h) ?_ fun _ _ he => he
  intro _ t' h'
  rw [wp_bind]
  exact wp_mono (wp_armTimer_rested h') (fun r' t'' ht => hf r' t'' ht) fun _ _ he => he

/-- After the signal nobody waits for a run that could be taken. -/
theorem wp_signalReady_rested {E : Fault → Scheduler → Prop} (h : Rested env start served id t) :
    wp (signalReady env) (fun _ t' => Rested env start True id t') E t := by
  unfold signalReady
  rw [wp_modify]
  split_ifs with hready
  · exact ⟨h.armed, h.again, fun _ hwaiters => absurd rfl hwaiters⟩
  · refine ⟨h.armed, h.again, fun _ _ => ?_⟩
    rw [not_and_or, not_not] at hready
    exact hready.imp_right (by simp)

/-- A batch is sealed and goes to the queue. -/
theorem wp_sealBatch_working (h : Working env start served t r) :
    wp (sealBatch env r) (fun r' t' => Working env start False t' r' ∧ r'.agentId = r.agentId)
      (Troubled env) t := by
  unfold sealBatch
  simp only [wp_bind, wp_randomUUID, wp_now]
  have hdraw := h.draw.read
  have hput : ∀ t₁ r₁, Working env start served t₁ r₁ → r₁.agentId = r.agentId → ∀ batch,
      Working env start False
        { t₁.put (r₁.withBatch batch) with queue := t₁.queue ++ [(r₁.withBatch batch).agentId] }
        (r₁.withBatch batch) ∧ (r₁.withBatch batch).agentId = r.agentId :=
    fun t₁ r₁ h₁ hid batch => ⟨(h₁.put (r₁.withBatch batch) rfl).requeue _ _, hid⟩
  refine wp_ensureState (fun _ => ?_) (fun _ _ => ?_) (fun _ _ => .inl ⟨_, rfl⟩)
  · exact hput _ r hdraw rfl _
  · exact hput _ (r.inState .ready) (hdraw.put _ rfl) rfl _

/-- An agent that is not suspended is brought to rest, and whoever waits is signalled. -/
theorem wp_reconcileActive_rested (h : Working env start served t r) :
    wp (reconcileActive env r) (fun _ t' => Rested env start True r.agentId t') (Troubled env) t := by
  -- What is left in every case: save, arm the timer, tell the waiters.
  have hrest : ∀ r₁ t₁, Working env start False t₁ r₁ → r₁.agentId = r.agentId →
      wp (persist env r₁ >>= fun _ => armTimer env r₁ >>= fun r₂ =>
          signalReady env >>= fun _ => pure r₂)
        (fun _ t' => Rested env start True r.agentId t') (Troubled env) t₁ := by
    intro r₁ t₁ h₁ hid
    refine wp_persist_armTimer_rested h₁ fun r' t' ht => ?_
    rw [wp_bind]
    rw [hid] at ht
    exact wp_signalReady_rested ht
  unfold reconcileActive
  simp only [wp_bind, wp_ite, wp_pure] at hrest ⊢
  -- A batch that waits is only put in the queue.
  cases hb : r.batch with
  | some batch =>
    by_cases hrun : r.run.isNone
    · simp only [hrun, Option.isSome_some, and_self, if_true]
      refine wp_ensureState (fun _ => ?_) (fun _ _ => ?_) (fun _ _ => .inl ⟨_, rfl⟩)
      · simp only [hb, Option.isNone_some, Bool.false_eq_true, if_false]
        exact hrest r t h.unserved rfl
      · have hb' : (r.inState .ready).batch = some batch := hb
        simp only [hb', Option.isNone_some, Bool.false_eq_true, if_false]
        exact hrest _ _ (h.unserved.put _ rfl) rfl
    · simp only [hrun, and_false, if_false, Option.isNone_some, Bool.false_eq_true]
      exact hrest r t h.unserved rfl
  -- Without a batch one is sealed, if there is something to put in it.
  | none =>
    simp only [Option.isSome_none, Option.isNone_none, Bool.false_eq_true, false_and, if_false,
      if_true]
    have hready : wp (resultsReady env r) (fun _ t' => Working env start served t' r)
        (Troubled env) t := by
      unfold resultsReady
      split_ifs
      · exact h
      · exact h
      · split
        · exact h
        · exact h.read
    refine wp_mono hready (fun ready t₁ h₁ => ?_) fun _ _ he => he
    by_cases hseal : r.continuation = true ∨ 0 < r.events.size ∨ ready = true
    · rw [if_pos hseal]
      refine wp_mono (wp_sealBatch_working h₁) ?_ fun _ _ he => he
      rintro r₂ t₂ ⟨h₂, hid⟩
      exact hrest r₂ t₂ h₂ hid
    · rw [if_neg hseal]
      refine wp_ensureState (fun _ => ?_) (fun _ _ => ?_) (fun _ _ => .inl ⟨_, rfl⟩)
      · exact hrest r _ h₁.unserved rfl
      · exact hrest _ _ (h₁.unserved.put _ rfl) rfl

/-- The clock may be read for the time of a suspension. -/
theorem wp_suspensionDue_working {Q : Bool → Scheduler → Prop} {E : Fault → Scheduler → Prop}
    {suspension : AgentSuspension} (h : Working env start served t r)
    (hQ : ∀ due t', Working env start served t' r → Q due t') :
    wp (suspensionDue env suspension) Q E t := by
  unfold suspensionDue
  split
  · exact hQ false t h
  · exact hQ _ _ h.read

/-- Resuming an agent that pauses brings it to rest, and whoever waits is signalled. -/
theorem wp_resume_rested (h : Working env start served t r) (hs : r.suspension.isSome) :
    wp (resume env r.agentId) (fun _ t' => Rested env start True r.agentId t') (Troubled env) t := by
  unfold resume
  rw [wp_bind]
  refine wp_recordOf_of_get? h.found (fun _ => ?_) (fun c m hclosed => ?_) (fun e hfailure => ?_)
  · have hnone : r.suspension.isNone = false := by simpa using hs
    simp only [hnone, Bool.false_eq_true, if_false, wp_bind, wp_update, wp_ite, wp_pure]
    -- The record is active again: it is reconciled as any other.
    have hact : ∀ r₁ t₁, Working env start False t₁ r₁ → r₁.agentId = r.agentId →
        wp (requeue r₁) (fun r' t' => wp (reconcileActive env r')
          (fun _ t'' => Rested env start True r.agentId t'') (Troubled env) t') (Troubled env) t₁ := by
      intro r₁ t₁ h₁ hid
      unfold requeue
      rw [← hid]
      split_ifs
      · exact wp_reconcileActive_rested (h₁.requeue _ _)
      · exact wp_reconcileActive_rested (h₁.put { r₁ with continuation := true } rfl)
      · exact wp_reconcileActive_rested h₁
    have hresumed := h.unserved.put { r with suspension := none } rfl
    -- Only a blocked agent changes its state.
    by_cases hblocked : r.agent.state = .blocked
    · rw [if_pos hblocked]
      refine wp_transition (fun _ => ?_) (fun _ => .inl ⟨_, rfl⟩)
      exact hact _ _ (hresumed.put _ rfl) rfl
    · rw [if_neg hblocked]
      exact hact _ _ hresumed rfl
  · apply Troubled.stopped
    intro ha
    exact Bool.false_ne_true (ha.1.symm.trans hclosed)
  · apply Troubled.stopped
    intro ha
    cases ha.2.symm.trans hfailure

/-- Blocking changes the state of the control block alone. -/
theorem wp_block_working (h : Working env start served t r) :
    wp (block r) (fun r' t' => Working env start served t' r' ∧ r'.agentId = r.agentId)
      (Troubled env) t := by
  unfold block
  by_cases hrun : r.run.isNone
  · simp only [hrun, if_true, wp_bind, wp_ite, wp_pure]
    have hensure : ∀ t₁ r₁, Working env start served t₁ r₁ → r₁.agentId = r.agentId →
        wp (ensureState r₁ .blocked)
          (fun r' t' => Working env start served t' r' ∧ r'.agentId = r.agentId) (Troubled env) t₁ :=
      fun t₁ r₁ h₁ hid => wp_ensureState (fun _ => ⟨h₁, hid⟩) (fun _ _ => ⟨h₁.put _ rfl, hid⟩)
        (fun _ _ => .inl ⟨_, rfl⟩)
    split_ifs
    · refine wp_transition (fun _ => ?_) (fun _ => .inl ⟨_, rfl⟩)
      exact hensure _ _ (h.put _ rfl) rfl
    · exact hensure t r h rfl
  · rw [if_neg hrun]
    exact ⟨h, rfl⟩

/-- Reconciling brings the agent to rest. Whoever waits is signalled, unless the agent pauses; then the
queue and the counter stay as they are. -/
theorem wp_reconcile_rested (h : Working env start served t r) : wp (reconcile env r)
    (fun _ t' => Rested env start (r.suspension = none ∨ served) r.agentId t') (Troubled env) t := by
  unfold reconcile
  cases hs : r.suspension with
  | none =>
    rw [wp_bind]
    exact wp_mono (wp_reconcileActive_rested h) (fun _ _ ht => ht.mono fun _ => trivial)
      fun _ _ he => he
  | some suspension =>
    rw [wp_bind]
    refine wp_suspensionDue_working h fun due t₁ h₁ => ?_
    cases due with
    | true =>
      rw [if_pos rfl]
      exact wp_mono (wp_resume_rested h₁ (by rw [hs]; rfl)) (fun _ _ ht => ht.mono fun _ => trivial)
        fun _ _ he => he
    | false =>
      rw [if_neg Bool.false_ne_true]
      refine wp_bind_of (wp_block_working h₁) ?_ fun _ _ he => he
      rintro r₂ t₂ ⟨h₂, hid⟩
      refine wp_persist_armTimer_rested h₂ fun r' t' ht => ?_
      rw [hid] at ht
      exact ht.mono fun hserved => hserved.resolve_left (fun h => (by cases h))

/-- The end of an operation that reconciles. -/
theorem wp_reconcile_awake (h : Working env start served t r) (hserved : r.suspension = none ∨ served) :
    wp (reconcile env r) (fun _ t' => Rested env start True r.agentId t') (Troubled env) t :=
  wp_mono (wp_reconcile_rested h) (fun _ _ ht => ht.mono fun _ => hserved) fun _ _ he => he

end Parts

/-! ## Loops -/

section Loops

variable {env : Environment} {s t : Scheduler} {r : AgentRecord} {start : ℕ} {served : Prop}

/-- To abort a controller disturbs nothing. -/
theorem wp_abort_undisturbed {E : Fault → Scheduler → Prop} {controller : AbortController}
    {reason : String} : wp (abort controller reason) (fun _ => Undisturbed t) E t :=
  wp_abort fun _ => ⟨rfl, Nat.le_refl _, rfl, rfl, rfl⟩

/-- To abort controllers disturbs nothing. -/
theorem wp_abortAll_undisturbed {E : Fault → Scheduler → Prop} (controllers : List AbortController)
    (reason : String) (hu : Undisturbed s t) :
    wp (abortAll controllers reason) (fun _ => Undisturbed s) E t := by
  induction controllers generalizing t with
  | nil => exact hu
  | cons controller rest ih =>
    unfold abortAll
    rw [wp_bind]
    exact wp_mono wp_abort_undisturbed (fun _ _ h => ih (hu.trans h)) fun _ _ he => he

/-- To stage an operation disturbs nothing. -/
theorem wp_stageOperation_undisturbed {staging : Staging}
    {staged : OrderedMap PendingOperation.operationId} {options : AsyncOperationOptions}
    (hu : Undisturbed s t) : wp (stageOperation env staging staged options) (fun _ => Undisturbed s)
      (fun _ => Undisturbed s) t := by
  unfold stageOperation
  rw [wp_bind]
  refine wp_nonemptyIfPresent ?_ (fun _ _ => hu)
  split
  · exact hu
  · split
    · unfold stageEnded
      simp only [wp_bind, wp_newController, wp_pure]
      exact wp_abort fun _ => hu.trans ⟨rfl, Nat.le_refl _, rfl, rfl, rfl⟩
    · unfold stageNew
      simp only [wp_bind, wp_pure]
      refine wp_positiveInteger (fun _ => ?_) fun _ _ => hu
      refine wp_positiveInteger (fun _ => ?_) fun _ _ => hu
      split
      · exact hu.trans ⟨rfl, Nat.le_refl _, rfl, rfl, rfl⟩
      · exact hu.trans ⟨rfl, Nat.le_refl _, rfl, rfl, rfl⟩

/-- To stage operations disturbs nothing. -/
theorem wp_stageOperations_undisturbed {staging : Staging} (options : List AsyncOperationOptions)
    {staged : OrderedMap PendingOperation.operationId} (hu : Undisturbed s t) :
    wp (stageOperations env staging options staged) (fun _ => Undisturbed s)
      (fun _ => Undisturbed s) t := by
  induction options generalizing t staged with
  | nil => exact hu
  | cons first rest ih =>
    unfold stageOperations
    refine wp_bind_of (wp_stageOperation_undisturbed hu) ?_ fun _ _ he => he
    intro step t₁ h₁
    exact wp_bind_of (ih h₁) (fun _ _ h₂ => h₂) fun _ _ he => he

/-- To restore operations in flight disturbs nothing. -/
theorem wp_restorePending_undisturbed {E : Fault → Scheduler → Prop} (operations : List AsyncOperation)
    (hu : Undisturbed s t) : wp (restorePending operations) (fun _ => Undisturbed s) E t := by
  induction operations generalizing t with
  | nil => exact hu
  | cons operation rest ih =>
    unfold restorePending
    rw [wp_bind, wp_newController, wp_bind]
    exact wp_mono (ih (hu.trans ⟨rfl, Nat.le_refl _, rfl, rfl, rfl⟩)) (fun _ _ h => h) fun _ _ he => he

/-- To cancel operations changes the record of the agent alone. -/
theorem wp_cancelEach_working {E : Fault → Scheduler → Prop} {reason : String}
    (items : List PendingOperation) (h : Working env start served t r) :
    wp (cancelEach env r reason items)
      (fun r' t' => Working env start served t' r' ∧ r'.agentId = r.agentId) E t := by
  induction items generalizing t r with
  | nil => exact ⟨h, rfl⟩
  | cons item rest ih =>
    unfold cancelEach recordResult
    simp only [wp_bind, wp_now, wp_update, wp_pure]
    exact ih (h.read.put (r.withResult item _ _ _) rfl)

/-- To let operations expire changes the record of the agent alone. -/
theorem wp_expireEach_working {E : Fault → Scheduler → Prop} {time : ℕ}
    (items : List PendingOperation) (h : Working env start served t r) :
    wp (expireEach env r time items)
      (fun r' t' => Working env start served t' r' ∧ r'.agentId = r.agentId) E t := by
  induction items generalizing t r with
  | nil => exact ⟨h, rfl⟩
  | cons item rest ih =>
    unfold expireEach recordResult
    simp only [wp_bind, wp_ite, wp_update, wp_pure]
    split_ifs
    · exact ih (h.put (r.withResult item _ _ _) rfl)
    · exact ih h

end Loops

end OsAgent.AgentScheduler
