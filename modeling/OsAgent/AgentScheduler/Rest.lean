import OsAgent.AgentScheduler.Frame
import Mathlib.Tactic.Common
import Mathlib.Tactic.SplitIfs

/-!
# Records at rest

Between two operations every record is at rest: its control block shows the phase that its contents
determine, and its agent is in the queue exactly when it has a batch to be taken. `reconcile`
brings a record to rest after its contents have changed, and `wp_reconcile` says from which
contents it does so without asking for a transition that the control block does not have.
-/

namespace OsAgent.AgentScheduler

open OsAgent.Library OsAgent.ControlBlock

namespace AgentRecord

/-- The state of the control block that a record's contents call for. -/
def phase (r : AgentRecord) : AgentState :=
  if r.run.isSome then .running
  else if r.suspension.isSome then .blocked
  else if r.batch.isSome then .ready
  else if 0 < r.pending.size then .blocked
  else .sleeping

/-- How often a record's agent is to be in the queue: once if it has a batch that can be taken. -/
def places (r : AgentRecord) : ℕ :=
  if r.batch.isSome ∧ r.run.isNone ∧ r.suspension.isNone then 1 else 0

/-- What every record satisfies, also in the middle of an operation. -/
structure Consistent (r : AgentRecord) : Prop where
  id : isPositiveInteger r.agentId = true
  /-- A run holds the record's batch. -/
  run : ∀ run, r.run = some run → run.agentId = r.agentId ∧ r.batch = some run.batch
  /-- The batch window is open while there are results to deliver. -/
  due : 0 < r.completed.size ↔ r.batchDueAt.isSome

/-- What a record satisfies whenever it is saved. -/
structure Savable (r : AgentRecord) : Prop extends Consistent r where
  /-- An agent with nothing to do sleeps. -/
  idle : r.isIdle = true → r.suspension = none → r.continuation = false → r.agent.state = .sleeping
  /-- An agent that sleeps has nothing to do. -/
  asleep : r.agent.state = .sleeping → r.isIdle = true

/-- A record at rest, whose agent is in the queue `count` times. -/
structure Settled (r : AgentRecord) (count : ℕ) : Prop extends Consistent r where
  state : r.agent.state = r.phase
  places : count = r.places
  /-- Nothing waits for an agent that sleeps. -/
  rested : r.agent.state = .sleeping → r.completed.size = 0 ∧ r.events.size = 0

/-- A record that `reconcile` brings to rest. -/
structure Reconcilable (r : AgentRecord) (count : ℕ) : Prop extends Consistent r where
  running : r.run.isSome → r.agent.state = .running
  places : count = r.places
  /-- An agent that waits for operations does not sleep. -/
  waiting : r.batch = none → r.suspension = none → r.continuation = false → r.events.size = 0 →
    0 < r.pending.size → r.agent.state ≠ .sleeping
  /-- An agent with nothing to do has just ended a run, or sleeps. -/
  idle : r.isIdle = true → r.suspension = none → r.continuation = false →
    r.agent.state = .running ∨ r.agent.state = .sleeping

/-- Without a batch there is no run. -/
theorem Consistent.run_eq_none {r : AgentRecord} (h : r.Consistent) (hb : r.batch = none) :
    r.run = none := by
  cases hr : r.run with
  | none => rfl
  | some run =>
    have := (h.run run hr).2
    rw [hb] at this
    cases this

/-- An agent is idle if there is nothing for it to do. -/
theorem isIdle_iff {r : AgentRecord} : r.isIdle = true ↔
    r.batch = none ∧ r.pending.size = 0 ∧ r.completed.size = 0 ∧ r.events.size = 0 := by
  simp [isIdle]

/-- The phase of a record without a batch and a suspension. -/
theorem Consistent.phase_eq {r : AgentRecord} (h : r.Consistent) (hb : r.batch = none)
    (hs : r.suspension = none) :
    r.phase = if 0 < r.pending.size then .blocked else .sleeping := by
  simp [phase, h.run_eq_none hb, hb, hs]

/-- The phase of a record that waits for nothing. -/
theorem phase_eq_sleeping {r : AgentRecord} (h : r.phase = .sleeping) :
    r.batch = none ∧ r.pending.size = 0 := by
  unfold phase at h
  split_ifs at h with h1 h2 h3 h4
  exact ⟨by simpa using h3, by omega⟩

/-- A record at rest can be saved. -/
theorem Settled.savable {r : AgentRecord} {count : ℕ} (h : r.Settled count) : r.Savable :=
  { h.toConsistent with
    idle := fun hi hs _ => by
      obtain ⟨hb, hp, -, -⟩ := isIdle_iff.mp hi
      rw [h.state, h.phase_eq hb hs, hp]
      rfl
    asleep := fun hsl => by
      obtain ⟨hb, hp⟩ := phase_eq_sleeping (h.state ▸ hsl)
      obtain ⟨hc, he⟩ := h.rested hsl
      exact isIdle_iff.mpr ⟨hb, hp, hc, he⟩ }

/-- `reconcile` keeps a record at rest. -/
theorem Settled.reconcilable {r : AgentRecord} {count : ℕ} (h : r.Settled count) :
    r.Reconcilable count :=
  { h.toConsistent with
    running := fun hr => by simp [h.state, phase, hr]
    places := h.places
    waiting := fun hb hs _ _ hp => by
      rw [h.state, h.phase_eq hb hs, if_pos hp]
      decide
    idle := fun hi hs hc => .inr (h.savable.idle hi hs hc) }

end AgentRecord

open AgentRecord

/-- A checkpoint that a scheduler may have saved. -/
def AgentSchedulerCheckpoint.Restorable (c : AgentSchedulerCheckpoint) : Prop :=
  ∃ r : AgentRecord, r.Savable ∧ c = r.checkpoint

/-! ## The assertions of a running operation -/

/-- An operation that began in `s` is at `t` and holds the record `r`, and everything it saved can
be restored. -/
structure Open (s t : Scheduler) (r : AgentRecord) : Prop extends Frame s t r where
  available : t.Available
  saves : ∀ c ∈ t.saves, c ∈ s.saves ∨ c.Restorable

/-- An operation that began in `s` was stopped at `t` by an error of the store. -/
structure Broken (env : Environment) (s : Scheduler) (e : Fault) (t : Scheduler) : Prop where
  refused : ∃ n message, env.refusal n = some message ∧ e = .storage message
  failure : t.failure = some e
  saves : ∀ c ∈ t.saves, c ∈ s.saves ∨ c.Restorable

/-- The newest checkpoint of an agent is that of its record. -/
def Saved (env : Environment) (t : Scheduler) (r : AgentRecord) : Prop :=
  env.persistent = true → latest t.saves r.agentId = some r.checkpoint

/-- An operation that began in `s` has brought its record to rest. -/
structure AtRest (env : Environment) (s t : Scheduler) (r : AgentRecord) : Prop
    extends Open s t r where
  settled : r.Settled (t.queue.count r.agentId)
  saved : Saved env t r

namespace Open

variable {s t : Scheduler} {r r' : AgentRecord}

/-- Another record of the same agent is written back. -/
theorem put (h : Open s t r) (r' : AgentRecord) (hr : r'.agentId = r.agentId) :
    Open s (t.put r') r' :=
  { h.toFrame.put r' hr with
    available := h.available
    saves := h.saves }

/-- The agent is appended to the queue. -/
theorem push (h : Open s t r) : Open s { t with queue := t.queue ++ [r.agentId] } r :=
  { h.toFrame.push with
    available := h.available
    saves := h.saves }

/-- The clock is read. -/
theorem read (h : Open s t r) (n : ℕ) : Open s { t with readings := n } r :=
  { h.toFrame.read n with
    available := h.available
    saves := h.saves }

/-- An identifier is drawn. -/
theorem draw (h : Open s t r) : Open s { t with draws := t.draws + 1 } r :=
  { h.toFrame.draw with
    available := h.available
    saves := h.saves }

/-- Waiters are released. -/
theorem release (h : Open s t r) (waiters : List ℕ) :
    Open s { t with readyWaiters := waiters } r :=
  { h.toFrame.release waiters with
    available := h.available
    saves := h.saves }

/-- The record may be replaced by one that differs in its timer. -/
theorem of_clearTimeout (h : Open s t r) (hr : r'.clearTimeout = r.clearTimeout) : Open s t r' :=
  { h.toFrame.of_clearTimeout hr with
    available := h.available
    saves := h.saves }

end Open

section Rules

variable {env : Environment} {s t : Scheduler} {r : AgentRecord}

/-- Saving a record that can be restored either succeeds or breaks the operation. -/
theorem wp_persist_open (h : Open s t r) (hr : r.Savable) :
    wp (persist env r) (fun _ t' => Open s t' r ∧ t'.queue = t.queue ∧ Saved env t' r)
      (Broken env s) t := by
  refine wp_persist h.toTouched (fun hp => ?_) (fun hp ha => ?_) (fun e n _ he => ?_)
  · exact ⟨h, rfl, fun hp' => by simp [hp] at hp'⟩
  · refine ⟨?_, rfl, fun _ => by simp [latest]⟩
    refine { h.toFrame.saved ha rfl _ with available := h.available, saves := ?_ }
    intro c hc
    rcases List.mem_cons.mp hc with rfl | hc
    · exact .inr ⟨r, hr, rfl⟩
    · exact h.saves c hc
  · obtain ⟨hcl, hf⟩ := h.available
    refine ⟨?_, rfl, h.saves⟩
    cases he with
    | closed hc => rw [hcl] at hc; cases hc
    | failed hf' => rw [hf] at hf'; cases hf'
    | refused hm => exact ⟨_, _, hm, rfl⟩

/-- Saving a record at rest and arming its timer leave it at rest. -/
theorem wp_persist_armTimer {α : Type} {f : AgentRecord → M α} {Q : α → Scheduler → Prop}
    {E : Fault → Scheduler → Prop} (h : Open s t r) (hr : r.Settled (t.queue.count r.agentId))
    (hE : ∀ e t', Broken env s e t' → E e t')
    (hf : ∀ t' timer, AtRest env s t' { r with timer } → wp (f { r with timer }) Q E t') :
    wp (persist env r >>= fun _ => armTimer env r >>= f) Q E t := by
  refine wp_bind_of (wp_persist_open h hr.savable) ?_ hE
  rintro - t' ⟨ho, hq, hs⟩
  rw [wp_bind]
  refine wp_armTimer fun timer n => hf _ timer ?_
  refine { (ho.put { r with timer } rfl).read n with settled := ?_, saved := hs }
  have hset : ({ r with timer } : AgentRecord).Settled (t'.queue.count r.agentId) := by
    rw [hq]
    exact { id := hr.id, run := hr.run, due := hr.due, state := hr.state, places := hr.places
            rested := hr.rested }
  exact hset

/-- Sealing the contents of a record without a batch, in any state of its control block. -/
theorem wp_sealBatch (h : Open s t r) (hr : r.Reconcilable (t.queue.count r.agentId))
    (hb : r.batch = none) (hs : r.suspension = none) :
    wp (sealBatch env r) (fun r' t' => Open s t' r' ∧ r'.Settled (t'.queue.count r'.agentId) ∧
      r'.run = r.run ∧ r'.agentId = r.agentId) (Broken env s) t := by
  have hrun : r.run = none := hr.run_eq_none hb
  have hcount : t.queue.count r.agentId = 0 := by simp [hr.places, AgentRecord.places, hb]
  have hres : ∀ t₁ r₁ batch, Open s t₁ r₁ → t₁.queue = t.queue → r₁ = r.inState .ready →
      let r' := r₁.withBatch batch
      Open s { t₁.put r' with queue := t₁.queue ++ [r'.agentId] } r' ∧
        r'.Settled ((t₁.queue ++ [r'.agentId]).count r'.agentId) ∧ r'.run = r.run ∧
        r'.agentId = r.agentId := by
    rintro t₁ r₁ batch ho hq rfl
    refine ⟨(ho.put ((r.inState .ready).withBatch batch) rfl).push, ?_, rfl, rfl⟩
    refine { id := hr.id, run := ?_, due := by simp [withBatch], state := ?_, places := ?_
             rested := fun _ => ⟨rfl, rfl⟩ }
    · simp [withBatch, inState, hrun]
    · simp [withBatch, inState, phase, hrun, hs]
    · rw [hq, List.count_append]
      have hz : t.queue.count (r.inState .ready |>.withBatch batch).agentId = 0 := hcount
      rw [hz]
      simp [withBatch, inState, AgentRecord.places, hrun, hs]
  unfold sealBatch
  simp only [wp_bind, wp_randomUUID, wp_now]
  refine wp_ensureState (fun hsame => ?_) (fun _ _ => ?_) (fun hne hno => ?_)
  · exact hres _ _ _ (h.draw.read _) rfl (by rw [← hsame]; rfl)
  · exact hres _ _ _ ((h.draw.read _).put _ rfl) rfl rfl
  · cases hst : r.agent.state <;> simp [hst, canAgentTransition, transitions] at hne hno

/-- A record with a batch that nobody took goes to the ready state; one with a run stays. -/
theorem settled_of_batch {count : ℕ} (hr : r.Reconcilable count) (hb : r.batch.isSome)
    (hs : r.suspension = none) :
    if r.run.isNone then (r.inState .ready).Settled count else r.Settled count := by
  split_ifs with hrun
  · refine { id := hr.id, run := hr.run, due := hr.due, state := ?_, places := hr.places
             rested := fun h => (by cases h) }
    simp only [Option.isNone_iff_eq_none] at hrun
    simp [inState, phase, hrun, hs, hb]
  · have hsome : r.run.isSome := by simpa [Option.isSome_iff_ne_none] using hrun
    have hstate := hr.running hsome
    refine { hr.toConsistent with
             state := ?_, places := hr.places, rested := fun h => (by simp [hstate] at h) }
    simp [hstate, phase, hsome]

/-- The state that a record without a batch takes when nothing is to be delivered. -/
theorem settled_of_waiting {count : ℕ} (hr : r.Reconcilable count) (hb : r.batch = none)
    (hs : r.suspension = none) (hev : r.events.size = 0)
    (hc : r.pending.size = 0 → r.completed.size = 0) :
    (r.inState (if 0 < r.pending.size then .blocked else .sleeping)).Settled count where
  id := hr.id
  run := hr.run
  due := hr.due
  state := by
    have hrun := hr.run_eq_none hb
    simp [inState, phase, hb, hs, hrun]
  places := hr.places
  rested h := by
    have hp : r.pending.size = 0 := by
      by_contra hp
      simp [inState, Nat.pos_of_ne_zero hp] at h
    exact ⟨hc hp, hev⟩

/-- An agent that is not suspended is brought to rest. -/
theorem wp_reconcileActive (h : Open s t r) (hr : r.Reconcilable (t.queue.count r.agentId))
    (hs : r.suspension = none) :
    wp (reconcileActive env r)
      (fun r' t' => AtRest env s t' r' ∧ r'.run = r.run ∧ r'.agentId = r.agentId)
      (Broken env s) t := by
  -- Once the contents are settled, saving and arming the timer leave them so.
  have hrest : ∀ r₁ t₁, Open s t₁ r₁ → r₁.Settled (t₁.queue.count r₁.agentId) → r₁.run = r.run →
      r₁.agentId = r.agentId →
      wp (persist env r₁ >>= fun _ => armTimer env r₁ >>= fun r₂ =>
          signalReady env >>= fun _ => pure r₂)
        (fun r' t' => AtRest env s t' r' ∧ r'.run = r.run ∧ r'.agentId = r.agentId)
        (Broken env s) t₁ := by
    intro r₁ t₁ ho hset hrun hid
    refine wp_persist_armTimer ho hset (fun _ _ he => he) fun t₂ timer hat => ?_
    rw [wp_bind]
    refine wp_signalReady fun waiters => ⟨?_, hrun, hid⟩
    exact { hat.toOpen.release waiters with settled := hat.settled, saved := hat.saved }
  unfold reconcileActive
  simp only [wp_bind, wp_ite, wp_pure] at hrest ⊢
  cases hb : r.batch with
  | some batch =>
    have hset := settled_of_batch hr (by simp [hb]) hs
    by_cases hrun : r.run.isNone
    · rw [if_pos hrun] at hset
      simp only [hrun, Option.isSome_some, and_self, if_true]
      refine wp_ensureState (fun hsame => ?_) (fun _ _ => ?_) (fun hne hno => ?_)
      · have hst : r.inState .ready = r := by rw [← hsame]; rfl
        rw [hst] at hset
        simp only [hb, Option.isNone_some, Bool.false_eq_true, if_false]
        exact hrest r t h hset rfl rfl
      · have hb' : (r.inState .ready).batch = some batch := hb
        simp only [hb', Option.isNone_some, Bool.false_eq_true, if_false]
        exact hrest (r.inState .ready) _ (h.put _ rfl) hset rfl rfl
      · cases hst : r.agent.state <;> simp [hst, canAgentTransition, transitions] at hne hno
    · rw [if_neg hrun] at hset
      simp only [hrun, and_false, if_false, Option.isNone_some, Bool.false_eq_true]
      exact hrest r t h hset rfl rfl
  | none =>
    simp only [Option.isSome_none, Option.isNone_none, Bool.false_eq_true, false_and, if_false,
      if_true]
    refine wp_resultsReady fun ready n hready hwait => ?_
    by_cases hseal : r.continuation = true ∨ 0 < r.events.size ∨ ready = true
    · rw [if_pos hseal]
      refine wp_mono (wp_sealBatch (h.read n) hr hb hs) ?_ fun _ _ he => he
      rintro r₁ t₁ ⟨ho, hset, hrun, hid⟩
      exact hrest r₁ t₁ ho hset hrun hid
    · rw [if_neg hseal]
      simp only [not_or, Bool.not_eq_true, Nat.pos_iff_ne_zero, not_not] at hseal
      obtain ⟨hcont, hev, hnr⟩ := hseal
      have hcol : r.pending.size = 0 → r.completed.size = 0 := by
        intro hp
        by_contra hc
        have := hwait hnr (Nat.pos_of_ne_zero hc)
        omega
      have hset := settled_of_waiting hr hb hs hev hcol
      refine wp_ensureState (fun hsame => ?_) (fun _ _ => ?_) (fun hne hno => ?_)
      · have hst : r.inState (if 0 < r.pending.size then .blocked else .sleeping) = r := by
          rw [← hsame]; rfl
        rw [hst] at hset
        exact hrest r _ (h.read n) hset rfl rfl
      · exact hrest (r.inState _) _ ((h.read n).put _ rfl) hset rfl rfl
      · exfalso
        by_cases hp : 0 < r.pending.size
        · have := hr.waiting hb hs hcont hev hp
          cases hst : r.agent.state <;>
            simp [hst, hp, canAgentTransition, transitions] at hne hno this
        · have hc := hcol (by omega)
          have := hr.idle (isIdle_iff.mpr ⟨hb, by omega, hc, hev⟩) hs hcont
          cases hst : r.agent.state <;>
            simp [hst, hp, canAgentTransition, transitions] at hne hno this

/-- What a resumed record holds, when the suspended one could be brought to rest. -/
theorem reconcilable_resumed {count n : ℕ} (hr : r.Reconcilable count) (timer : Option ℕ)
    {state : AgentState} {continuation : Bool} (hstate : r.run.isSome → state = .running)
    (hcont : r.batch = none → continuation = true)
    (hn : n = if r.batch.isSome ∧ r.run.isNone then 1 else 0) :
    ({ r with timer, suspension := none, agent := { r.agent with state }, continuation }
      : AgentRecord).Reconcilable n where
  id := hr.id
  run := hr.run
  due := hr.due
  running := hstate
  places := by simpa [AgentRecord.places] using hn
  waiting hb _ hc := by simp [hcont hb] at hc
  idle hi _ hc := by simp [hcont (isIdle_iff.mp hi).1] at hc

/-- Resuming a suspended agent brings it to rest. -/
theorem wp_resume_suspended (h : Open s t r) (hr : r.Reconcilable (t.queue.count r.agentId))
    (hs : r.suspension.isSome) :
    wp (resume env r.agentId)
      (fun _ t' => ∃ r', AtRest env s t' r' ∧ r'.run = r.run ∧ r'.agentId = r.agentId)
      (Broken env s) t := by
  obtain ⟨timer, h₀⟩ := h.get?_self
  have ho : Open s t { r with timer } := h.of_clearTimeout rfl
  have hcount : t.queue.count r.agentId = 0 := by
    simp [hr.places, AgentRecord.places, Option.isNone_eq_false_iff.mpr hs]
  have hdone : ∀ t₁ r₁, Open s t₁ r₁ → r₁.Reconcilable (t₁.queue.count r₁.agentId) →
      r₁.suspension = none → r₁.run = r.run → r₁.agentId = r.agentId →
      wp (reconcileActive env r₁)
        (fun _ t' => ∃ r', AtRest env s t' r' ∧ r'.run = r.run ∧ r'.agentId = r.agentId)
        (Broken env s) t₁ := by
    intro t₁ r₁ ho hr₁ hs₁ hrun hid
    refine wp_mono (wp_reconcileActive ho hr₁ hs₁) ?_ fun _ _ he => he
    rintro r' t' ⟨hat, hrun', hid'⟩
    exact ⟨r', hat, hrun'.trans hrun, hid'.trans hid⟩
  -- After the control block was unblocked, or stayed in its state, the queue and the wish to
  -- continue are brought up to date.
  have hqueue : ∀ t₁ r₁, Open s t₁ r₁ → t₁.queue = t.queue →
      (∃ state, r₁ = { r with timer, suspension := none, agent := { r.agent with state } } ∧
        (r.run.isSome → state = .running)) →
      if r₁.batch.isSome ∧ r₁.run.isNone then
        wp (reconcileActive env r₁)
          (fun _ t' => ∃ r', AtRest env s t' r' ∧ r'.run = r.run ∧ r'.agentId = r.agentId)
          (Broken env s) { t₁ with queue := t₁.queue ++ [r.agentId] }
      else if r₁.batch.isNone then
        wp (reconcileActive env { r₁ with continuation := true })
          (fun _ t' => ∃ r', AtRest env s t' r' ∧ r'.run = r.run ∧ r'.agentId = r.agentId)
          (Broken env s) (t₁.put { r₁ with continuation := true })
      else
        wp (reconcileActive env r₁)
          (fun _ t' => ∃ r', AtRest env s t' r' ∧ r'.run = r.run ∧ r'.agentId = r.agentId)
          (Broken env s) t₁ := by
    rintro t₁ r₁ ho₁ hq ⟨state, rfl, hstate⟩
    split_ifs with hb hb'
    · refine hdone _ _ ho₁.push (reconcilable_resumed hr timer hstate ?_ ?_) rfl rfl rfl
      · intro hn
        simp [hn] at hb
      · show (t₁.queue ++ [r.agentId]).count r.agentId = _
        rw [hq, List.count_append, hcount, if_pos hb]
        simp
    · refine hdone _ _ (ho₁.put _ rfl) (reconcilable_resumed hr timer hstate ?_ ?_) rfl rfl rfl
      · exact fun _ => rfl
      · rw [if_neg hb]
        exact hq ▸ hcount
    · refine hdone _ _ ho₁ (reconcilable_resumed hr timer hstate ?_ ?_) rfl rfl rfl
      · intro hn
        simp [hn] at hb'
      · rw [if_neg hb]
        exact hq ▸ hcount
  unfold resume requeue
  rw [wp_bind]
  refine wp_recordOf_of_get? h₀ (fun ha => ?_) (fun c m hc => ?_) (fun e he => ?_)
  · have hns : r.suspension.isNone = false := by simpa using hs
    simp only [hns, Bool.false_eq_true, if_false, wp_bind, wp_ite, wp_pure, wp_update,
      wp_pushQueue]
    have ho₁ := ho.put { r with timer, suspension := none } rfl
    by_cases hst : r.agent.state = .blocked
    · rw [if_pos hst]
      refine wp_transition (fun _ => ?_) (fun hno => ?_)
      · refine hqueue _ _ (ho₁.put _ rfl) rfl ⟨.ready, rfl, fun hrun => ?_⟩
        simp [hr.running hrun] at hst
      · simp [hst, canAgentTransition, transitions] at hno
    · rw [if_neg hst]
      exact hqueue _ _ ho₁ rfl ⟨r.agent.state, rfl, hr.running⟩
  · rw [h.available.1] at hc
    cases hc
  · rw [h.available.2] at he
    cases he

/-- Blocking a suspended agent, unless it runs, settles its record. -/
theorem wp_block (h : Open s t r) (hr : r.Reconcilable (t.queue.count r.agentId))
    (hs : r.suspension.isSome) :
    wp (block r) (fun r' t' => Open s t' r' ∧ r'.Settled (t'.queue.count r'.agentId) ∧
      r'.run = r.run ∧ r'.agentId = r.agentId) (Broken env s) t := by
  have hcount : t.queue.count r.agentId = 0 := by
    simp [hr.places, AgentRecord.places, Option.isNone_eq_false_iff.mpr hs]
  have hset : ∀ t₁ : Scheduler, t₁.queue = t.queue → r.run.isNone →
      (r.inState .blocked).Settled (t₁.queue.count r.agentId) := by
    intro t₁ hq hrun
    simp only [Option.isNone_iff_eq_none] at hrun
    refine { id := hr.id, run := hr.run, due := hr.due, state := ?_, places := ?_
             rested := fun h => (by cases h) }
    · simp [inState, phase, hrun, hs]
    · rw [hq]
      exact hr.places
  unfold block
  -- An agent that does not run is blocked, over ready if it sleeps.
  by_cases hrun : r.run.isNone
  · simp only [hrun, if_true, wp_bind, wp_ite, wp_pure]
    by_cases hst : r.agent.state = .sleeping
    · rw [if_pos hst]
      refine wp_transition (fun _ => ?_) (fun hno => ?_)
      · refine wp_ensureState (fun hsame => ?_) (fun _ _ => ?_) (fun _ hno => ?_)
        · cases hsame
        · exact ⟨(h.put (r.inState .ready) rfl).put _ rfl, hset _ rfl hrun, rfl, rfl⟩
        · cases hno
      · simp [hst, canAgentTransition, transitions] at hno
    · rw [if_neg hst]
      refine wp_ensureState (fun hsame => ?_) (fun _ _ => ?_) (fun hne hno => ?_)
      · have hself : r.inState .blocked = r := by rw [← hsame]; rfl
        exact ⟨h, hself ▸ hset t rfl hrun, rfl, rfl⟩
      · exact ⟨h.put (r.inState .blocked) rfl, hset _ rfl hrun, rfl, rfl⟩
      · cases hst' : r.agent.state <;> simp [hst', canAgentTransition, transitions] at hst hne hno
  · -- A running agent stays so until its run ends.
    have hsome : r.run.isSome := by simpa [Option.isSome_iff_ne_none] using hrun
    rw [if_neg hrun]
    have hstate := hr.running hsome
    refine ⟨h, { hr.toConsistent with state := ?_, places := hr.places
                                      rested := fun h => ?_ }, rfl, rfl⟩
    · simp [hstate, phase, hsome]
    · simp [hstate] at h

/-- `reconcile` brings a record to rest. It never asks for a transition that the control block does
not have, and it fails only where the store refuses a save. -/
theorem wp_reconcile (h : Open s t r) (hr : r.Reconcilable (t.queue.count r.agentId)) :
    wp (reconcile env r)
      (fun _ t' => ∃ r', AtRest env s t' r' ∧ r'.run = r.run ∧ r'.agentId = r.agentId)
      (Broken env s) t := by
  unfold reconcile
  cases hs : r.suspension with
  | none =>
    rw [wp_bind]
    refine wp_mono (wp_reconcileActive h hr hs) ?_ fun _ _ he => he
    rintro r' t' ⟨hat, hrun, hid⟩
    exact ⟨r', hat, hrun, hid⟩
  | some suspension =>
    have hsome : r.suspension.isSome := by simp [hs]
    rw [wp_bind]
    refine wp_suspensionDue fun due n => ?_
    cases due with
    | true => exact wp_resume_suspended (h.read n) hr hsome
    | false =>
      simp only [Bool.false_eq_true, if_false]
      refine wp_bind_of (wp_block (h.read n) hr hsome) ?_ fun _ _ he => he
      rintro r₁ t₁ ⟨ho, hset, hrun, hid⟩
      refine wp_persist_armTimer ho hset (fun _ _ he => he) fun t₂ timer hat => ?_
      exact ⟨_, hat, hrun, hid⟩

end Rules

end OsAgent.AgentScheduler
