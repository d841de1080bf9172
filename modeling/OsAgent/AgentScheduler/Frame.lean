import OsAgent.AgentScheduler.Scheduler
import Mathlib.Tactic.Common
import Mathlib.Data.List.Count

/-!
# What the parts of an operation do

One rule for each program from which the operations are built, in the form in which the proofs use
it: what must hold of every result for the assertion after the program to hold. Readings of the
clock are arbitrary in these rules, since no invariant depends on them.

An operation changes the record of one agent, and that agent's place in the queue. `Frame s t r`
says that `t` is `s` with `r` in place of that agent's record, apart from timers.
-/

namespace OsAgent.AgentScheduler

open OsAgent.Library OsAgent.ControlBlock

/-! ## States -/

/-- The scheduler takes part in operations: it is not closed and no save has failed. -/
def Scheduler.Available (s : Scheduler) : Prop := s.closed = false ∧ s.failure = none

/-- The scheduler with one record written back. -/
def Scheduler.put (s : Scheduler) (r : AgentRecord) : Scheduler :=
  { s with agents := s.agents.insert r }

/-- The records without their timers. -/
def untimed (agents : OrderedMap AgentRecord.agentId) : OrderedMap AgentRecord.agentId :=
  agents.map AgentRecord.clearTimeout AgentRecord.agentId_clearTimeout

/-- The scheduler after an error of the store, which `persist` remembers. -/
def Scheduler.broken (s : Scheduler) (e : Fault) (attempts : ℕ) : Scheduler :=
  { s with
    failure := some e
    attempts := attempts
    agents := untimed s.agents
    readyWaiters := [] }

/-- The record with its control block in another state. -/
def AgentRecord.inState (r : AgentRecord) (state : AgentState) : AgentRecord :=
  { r with agent := { r.agent with state } }

/-- A record in another state is of the same agent. -/
@[simp]
theorem AgentRecord.agentId_inState (r : AgentRecord) (state : AgentState) :
    (r.inState state).agentId = r.agentId := rfl

/-- The checkpoint of a record is of its agent. -/
@[simp]
theorem AgentRecord.agentId_checkpoint (r : AgentRecord) : r.checkpoint.agentId = r.agentId := rfl

/-- A timer is cleared once. -/
@[simp]
theorem clearTimeout_clearTimeout (r : AgentRecord) :
    r.clearTimeout.clearTimeout = r.clearTimeout := rfl

/-- Records that differ in their timers alone are about one agent. -/
theorem agentId_of_clearTimeout_eq {r r' : AgentRecord} (h : r.clearTimeout = r'.clearTimeout) :
    r.agentId = r'.agentId := by
  have := congrArg AgentRecord.agentId h
  exact this

/-- Records that are equal without their timers differ in the timer alone. -/
theorem eq_of_clearTimeout_eq {r r' : AgentRecord} (h : r.clearTimeout = r'.clearTimeout) :
    r = { r' with timer := r.timer } := by
  cases r; cases r'
  simp only [AgentRecord.clearTimeout, AgentRecord.mk.injEq] at h ⊢
  simp [h]

/-- Clearing the timers commutes with writing a record. -/
theorem untimed_insert (agents : OrderedMap AgentRecord.agentId) (r : AgentRecord) :
    untimed (agents.insert r) = (untimed agents).insert r.clearTimeout := by
  obtain ⟨es, hnd⟩ := agents
  apply OrderedMap.ext
  simp only [untimed, OrderedMap.map, OrderedMap.insert]
  clear hnd
  induction es with
  | nil => rfl
  | cons e es ih =>
    by_cases h : e.agentId = r.agentId
    · simp [OrderedMap.upsert, AgentRecord.agentId_clearTimeout, h]
    · simp [OrderedMap.upsert, AgentRecord.agentId_clearTimeout, h, ih]

/-- Timers are cleared once. -/
@[simp]
theorem untimed_untimed (agents : OrderedMap AgentRecord.agentId) :
    untimed (untimed agents) = untimed agents := by
  apply OrderedMap.ext
  simp [untimed]

/-- Looking up an agent without its timer. -/
theorem get?_untimed (agents : OrderedMap AgentRecord.agentId) (id : AgentId) :
    (untimed agents).get? id = (agents.get? id).map AgentRecord.clearTimeout :=
  OrderedMap.get?_map ..

/-! ## The frame -/

/-- `t` is `s` with the record of one agent replaced by `r`, apart from timers, and with that
agent's newest checkpoint changed at will. -/
structure Touched (s t : Scheduler) (r : AgentRecord) : Prop where
  agents : untimed t.agents = untimed (s.agents.insert r)
  draws : s.draws ≤ t.draws
  latest : ∀ id, id ≠ r.agentId → latest t.saves id = latest s.saves id
  /-- A scheduler that has stopped does not come back. -/
  alive : t.Available → s.Available
  /-- A scheduler that has stopped saves nothing. -/
  frozen : ¬s.Available → t.saves = s.saves

/-- `t` is `s` with the record of one agent replaced by `r`, apart from timers, and with that
agent's place in the queue and its newest checkpoint changed at will. -/
structure Frame (s t : Scheduler) (r : AgentRecord) : Prop extends Touched s t r where
  queue : ∀ id, id ≠ r.agentId → t.queue.count id = s.queue.count id
  running : t.running = s.running
  closed : t.closed = s.closed

namespace Touched

variable {s t : Scheduler} {r r' : AgentRecord}

/-- Before anything is changed. -/
theorem refl (h : s.agents.get? r.agentId = some r) : Touched s s r where
  agents := by rw [OrderedMap.insert_of_get? h]
  draws := Nat.le_refl _
  latest _ _ := rfl
  alive h := h
  frozen _ := rfl

/-- Another record of the same agent is written back. -/
theorem put (h : Touched s t r) (r' : AgentRecord) (hr : r'.agentId = r.agentId) :
    Touched s (t.put r') r' where
  agents := by
    have hk : r.clearTimeout.agentId = r'.clearTimeout.agentId := hr.symm
    show untimed (t.agents.insert r') = _
    rw [untimed_insert, h.agents, untimed_insert, untimed_insert, OrderedMap.insert_insert _ hk]
  draws := h.draws
  latest id hid := h.latest id (hr ▸ hid)
  alive := h.alive
  frozen := h.frozen

/-- The agent's own record can be found, apart from its timer. -/
theorem get?_self (h : Touched s t r) :
    ∃ timer, t.agents.get? r.agentId = some { r with timer } := by
  have hg : (untimed t.agents).get? r.agentId = some r.clearTimeout := by
    rw [h.agents, get?_untimed, OrderedMap.get?_insert_self]
    rfl
  rw [get?_untimed] at hg
  obtain ⟨r₀, h₀, hr₀⟩ := Option.map_eq_some_iff.mp hg
  exact ⟨r₀.timer, eq_of_clearTimeout_eq hr₀ ▸ h₀⟩

/-- The records of the other agents are as before, apart from their timers. -/
theorem get?_of_ne (h : Touched s t r) {id : AgentId} (hid : id ≠ r.agentId) :
    (t.agents.get? id).map AgentRecord.clearTimeout =
      (s.agents.get? id).map AgentRecord.clearTimeout := by
  rw [← get?_untimed, ← get?_untimed, h.agents, get?_untimed, OrderedMap.get?_insert_of_ne _ hid,
    ← get?_untimed]

/-- The record may be replaced by one that differs in its timer. -/
theorem of_clearTimeout (h : Touched s t r) (hr : r'.clearTimeout = r.clearTimeout) :
    Touched s t r' where
  agents := by rw [h.agents, untimed_insert, untimed_insert, hr]
  draws := h.draws
  latest id hid := h.latest id (agentId_of_clearTimeout_eq hr ▸ hid)
  alive := h.alive
  frozen := h.frozen

/-- Fields that are not about records, identifiers, and checkpoints are changed. -/
theorem congr (h : Touched s t r) {t' : Scheduler} (hagents : t'.agents = t.agents)
    (hdraws : t.draws ≤ t'.draws) (hsaves : t'.saves = t.saves) (hclosed : t'.closed = t.closed)
    (hfailure : t'.failure = t.failure) : Touched s t' r where
  agents := by rw [hagents, h.agents]
  draws := Nat.le_trans h.draws hdraws
  latest := hsaves ▸ h.latest
  alive ha := h.alive ⟨hclosed ▸ ha.1, hfailure ▸ ha.2⟩
  frozen hs := hsaves.trans (h.frozen hs)

/-- The clock is read. -/
theorem read (h : Touched s t r) (n : ℕ) : Touched s { t with readings := n } r :=
  h.congr rfl (Nat.le_refl _) rfl rfl rfl

/-- The queue and the counter are changed. -/
theorem requeue (h : Touched s t r) (queue : List AgentId) (running : ℤ) :
    Touched s { t with queue, running } r :=
  h.congr rfl (Nat.le_refl _) rfl rfl rfl

/-- The agent's checkpoint is saved. -/
theorem saved (h : Touched s t r) (ha : t.Available) {c : AgentSchedulerCheckpoint}
    (hc : c.agentId = r.agentId) (n : ℕ) :
    Touched s { t with attempts := n, saves := c :: t.saves } r :=
  { h with
    latest := fun id hid => by
      rw [← h.latest id hid]
      simp [AgentScheduler.latest, hc, Ne.symm hid]
    frozen := fun hs => absurd (h.alive ha) hs }

/-- A save fails. -/
theorem broken (h : Touched s t r) (e : Fault) (n : ℕ) : Touched s (t.broken e n) r :=
  { h with
    agents := (untimed_untimed _).trans h.agents
    alive := fun ha => by cases ha.2 }

end Touched

namespace Frame

variable {s t : Scheduler} {r r' : AgentRecord}

/-- Before anything is changed. -/
theorem refl (h : s.agents.get? r.agentId = some r) : Frame s s r :=
  { Touched.refl h with
    queue := fun _ _ => rfl
    running := rfl
    closed := rfl }

/-- Another record of the same agent is written back. -/
theorem put (h : Frame s t r) (r' : AgentRecord) (hr : r'.agentId = r.agentId) :
    Frame s (t.put r') r' :=
  { h.toTouched.put r' hr with
    queue := fun id hid => h.queue id (hr ▸ hid)
    running := h.running
    closed := h.closed }

/-- The record may be replaced by one that differs in its timer. -/
theorem of_clearTimeout (h : Frame s t r) (hr : r'.clearTimeout = r.clearTimeout) :
    Frame s t r' :=
  { h.toTouched.of_clearTimeout hr with
    queue := fun id hid => h.queue id (agentId_of_clearTimeout_eq hr ▸ hid)
    running := h.running
    closed := h.closed }

/-- The agent is appended to the queue. -/
theorem push (h : Frame s t r) : Frame s { t with queue := t.queue ++ [r.agentId] } r :=
  { h with
    queue := fun id hid => by
      rw [List.count_append, List.count_singleton]
      have := h.queue id hid
      simpa [Ne.symm hid] using this }

/-- The clock is read. -/
theorem read (h : Frame s t r) (n : ℕ) : Frame s { t with readings := n } r := { h with }

/-- An identifier is drawn. -/
theorem draw (h : Frame s t r) : Frame s { t with draws := t.draws + 1 } r :=
  { h with draws := Nat.le_succ_of_le h.draws }

/-- Waiters are released. -/
theorem release (h : Frame s t r) (waiters : List ℕ) :
    Frame s { t with readyWaiters := waiters } r := { h with }

/-- The agent's checkpoint is saved. -/
theorem saved (h : Frame s t r) (ha : t.Available) {c : AgentSchedulerCheckpoint}
    (hc : c.agentId = r.agentId) (n : ℕ) :
    Frame s { t with attempts := n, saves := c :: t.saves } r :=
  { h.toTouched.saved ha hc n with
    queue := h.queue
    running := h.running
    closed := h.closed }

end Frame

/-- `t'` is `t` apart from what was drawn and created, and from what was aborted. -/
structure Drawn (t t' : Scheduler) : Prop where
  agents : t'.agents = t.agents
  queue : t'.queue = t.queue
  running : t'.running = t.running
  failure : t'.failure = t.failure
  closed : t'.closed = t.closed
  draws : t.draws ≤ t'.draws
  saves : t'.saves = t.saves

/-- Nothing was drawn. -/
theorem Drawn.refl (t : Scheduler) : Drawn t t := ⟨rfl, rfl, rfl, rfl, rfl, Nat.le_refl _, rfl⟩

/-- What is drawn in two steps. -/
theorem Drawn.trans {t t' t'' : Scheduler} (h : Drawn t t') (h' : Drawn t' t'') : Drawn t t'' :=
  ⟨h'.agents.trans h.agents, h'.queue.trans h.queue, h'.running.trans h.running,
    h'.failure.trans h.failure, h'.closed.trans h.closed, Nat.le_trans h.draws h'.draws,
    h'.saves.trans h.saves⟩

/-- The record of a new agent is written. -/
theorem Touched.register {s t : Scheduler} {r : AgentRecord} (hd : Drawn s t) :
    Touched s (t.put r) r where
  agents := by
    show untimed (t.agents.insert r) = _
    rw [hd.agents]
  draws := hd.draws
  latest _ _ := by rw [← hd.saves]; rfl
  alive ha := ⟨hd.closed ▸ ha.1, hd.failure ▸ ha.2⟩
  frozen _ := hd.saves

/-- Drawing does not touch the frame. -/
theorem Frame.drawn {s t t' : Scheduler} {r : AgentRecord} (h : Frame s t r) (hd : Drawn t t') :
    Frame s t' r :=
  { h.toTouched.congr hd.agents hd.draws hd.saves hd.closed hd.failure with
    queue := hd.queue ▸ h.queue
    running := hd.running.trans h.running
    closed := hd.closed.trans h.closed }

/-! ## The rules -/

section Rules

variable {env : Environment} {α : Type} {E : Fault → Scheduler → Prop} {t : Scheduler}
  {r : AgentRecord}

/-- What fails throws its error and changes nothing. -/
@[simp]
theorem wp_fail {Q : α → Scheduler → Prop} (code : AgentSchedulerErrorCode) (message : String) :
    wp (fail code message : M α) Q E t ↔ E (.scheduler code message) t := Iff.rfl

/-- To update a record is to put it in its place. -/
@[simp]
theorem wp_update {Q : PUnit → Scheduler → Prop} (r : AgentRecord) :
    wp (update r) Q E t ↔ Q ⟨⟩ (t.put r) := Iff.rfl

/-- To queue an agent is to put it at the end. -/
@[simp]
theorem wp_pushQueue {Q : PUnit → Scheduler → Prop} (id : AgentId) :
    wp (pushQueue id) Q E t ↔ Q ⟨⟩ { t with queue := t.queue ++ [id] } := Iff.rfl

/-- To read the clock counts the reading. -/
@[simp]
theorem wp_now {Q : ℕ → Scheduler → Prop} :
    wp (now env) Q E t ↔ Q (env.clock t.readings) { t with readings := t.readings + 1 } := Iff.rfl

/-- To draw an identifier counts the draw. -/
@[simp]
theorem wp_randomUUID {Q : String → Scheduler → Prop} :
    wp (randomUUID env) Q E t ↔ Q (env.uuid t.draws) { t with draws := t.draws + 1 } := Iff.rfl

/-- A check of a number fails without a change. -/
theorem wp_positiveInteger {Q : PUnit → Scheduler → Prop} {value : ℕ} {field : String}
    (hok : isPositiveInteger value = true → Q ⟨⟩ t) (hE : ∀ c m, E (.scheduler c m) t) :
    wp (positiveInteger value field) Q E t := by
  unfold positiveInteger
  split_ifs with h
  · exact hok h
  · exact hE _ _

/-- A check of a text fails without a change. -/
theorem wp_nonempty {Q : PUnit → Scheduler → Prop} {value field : String}
    (hok : isBlank value = false → Q ⟨⟩ t) (hE : ∀ c m, E (.scheduler c m) t) :
    wp (nonempty value field) Q E t := by
  unfold nonempty
  split_ifs with h
  · exact hE _ _
  · exact hok (by simpa using h)

/-- A check of a number that may be absent fails without a change. -/
theorem wp_positiveIntegerIfPresent {Q : PUnit → Scheduler → Prop} {value : Option ℕ}
    {field : String} (hok : Q ⟨⟩ t) (hE : ∀ c m, E (.scheduler c m) t) :
    wp (positiveIntegerIfPresent value field) Q E t := by
  unfold positiveIntegerIfPresent
  split
  · exact wp_positiveInteger (fun _ => hok) hE
  · exact hok

/-- A check of a text that may be absent fails without a change. -/
theorem wp_nonemptyIfPresent {Q : PUnit → Scheduler → Prop} {value : Option String}
    {field : String} (hok : Q ⟨⟩ t) (hE : ∀ c m, E (.scheduler c m) t) :
    wp (nonemptyIfPresent value field) Q E t := by
  unfold nonemptyIfPresent
  split
  · exact wp_nonempty (fun _ => hok) hE
  · exact hok

/-- The copy of an outcome that passes its checks is that outcome. -/
theorem wp_copyOutcome {Q : AsyncOperationOutcome → Scheduler → Prop}
    {outcome : AsyncOperationOutcome} (hok : Q outcome t) (hE : ∀ c m, E (.scheduler c m) t) :
    wp (copyOutcome outcome) Q E t := by
  unfold copyOutcome
  split
  · rw [wp_bind]
    exact wp_nonempty (fun _ => hok) hE
  · simp only [wp_bind]
    exact wp_nonempty (fun _ => wp_nonemptyIfPresent hok hE) hE
  · rw [wp_bind]
    exact wp_nonempty (fun _ => hok) hE
  · exact hok

/-- The check at the start of an operation. -/
theorem wp_available {Q : PUnit → Scheduler → Prop} (hok : t.Available → Q ⟨⟩ t)
    (hE : ∀ c m, t.closed = true → E (.scheduler c m) t) (hF : ∀ e, t.failure = some e → E e t) :
    wp available Q E t := by
  unfold available
  rw [wp_bind, wp_get]
  by_cases hc : t.closed = true
  · simp only [hc, if_true]
    exact hE _ _ hc
  · simp only [hc]
    cases hf : t.failure with
    | some e => exact hF e hf
    | none => exact hok ⟨by simpa using hc, hf⟩

/-- Finding the record of a registered agent. -/
theorem wp_recordOf {Q : AgentRecord → Scheduler → Prop} {id : AgentId}
    (hok : ∀ r, t.Available → t.agents.get? id = some r → Q r t)
    (hE : ∀ c m, E (.scheduler c m) t) (hF : ∀ e, t.failure = some e → E e t) :
    wp (recordOf id) Q E t := by
  unfold recordOf
  rw [wp_bind]
  refine wp_available (fun ha => ?_) (fun c m _ => hE c m) hF
  rw [wp_bind, wp_get]
  cases hr : t.agents.get? id with
  | some r => exact hok r ha hr
  | none => exact hE _ _

/-- Finding the record of an agent that is known to be registered. -/
theorem wp_recordOf_of_get? {Q : AgentRecord → Scheduler → Prop} {id : AgentId}
    (hr : t.agents.get? id = some r) (hok : t.Available → Q r t)
    (hE : ∀ c m, t.closed = true → E (.scheduler c m) t) (hF : ∀ e, t.failure = some e → E e t) :
    wp (recordOf id) Q E t := by
  unfold recordOf
  rw [wp_bind]
  refine wp_available (fun ha => ?_) hE hF
  rw [wp_bind, wp_get, hr]
  exact hok ha

/-- A transition along an edge of the table. -/
theorem wp_transition {Q : AgentRecord → Scheduler → Prop} {next : AgentState}
    (hok : canAgentTransition r.agent.state next = true →
      Q (r.inState next) (t.put (r.inState next)))
    (hE : canAgentTransition r.agent.state next = false →
      E (.invalidTransition ⟨r.agent.state, next⟩) t) :
    wp (transition r next) Q E t := by
  unfold transition SchedulingHandle.transition
  by_cases h : canAgentTransition r.agent.state next = true
  · rw [if_pos h]
    exact hok h
  · rw [if_neg h]
    exact hE (by simpa using h)

/-- A transition that is made only where the state differs. -/
theorem wp_ensureState {Q : AgentRecord → Scheduler → Prop} {next : AgentState}
    (hsame : r.agent.state = next → Q r t)
    (hok : r.agent.state ≠ next → canAgentTransition r.agent.state next = true →
      Q (r.inState next) (t.put (r.inState next)))
    (hE : r.agent.state ≠ next → canAgentTransition r.agent.state next = false →
      E (.invalidTransition ⟨r.agent.state, next⟩) t) :
    wp (ensureState r next) Q E t := by
  unfold ensureState
  split_ifs with h
  · exact hsame h
  · exact wp_transition (hok h) (hE h)

/-- Releasing the waiters changes nothing else. -/
theorem wp_signalReady {Q : PUnit → Scheduler → Prop}
    (h : ∀ waiters, Q ⟨⟩ { t with readyWaiters := waiters }) : wp (signalReady env) Q E t := by
  unfold signalReady
  rw [wp_modify]
  split_ifs
  · exact h []
  · exact h t.readyWaiters

/-- Arming the timer changes the timer alone. -/
theorem wp_armTimer {Q : AgentRecord → Scheduler → Prop}
    (h : ∀ timer n, Q { r with timer } { t.put { r with timer } with readings := n }) :
    wp (armTimer env r) Q E t := by
  unfold armTimer
  simp only [wp_bind, wp_update]
  split
  · exact h none t.readings
  · simp only [wp_bind, wp_now, wp_update]
    have hp : ∀ timer n, ({ t.put r.clearTimeout with readings := n } : Scheduler).put
        { r with timer } = { t.put { r with timer } with readings := n } := by
      intro timer n
      simp only [Scheduler.put]
      rw [OrderedMap.insert_insert]
      rfl
    simp only [wp_pure]
    erw [hp]
    exact h _ _

/-- Whether results are to be delivered now: only if there are any, and then at the latest when no
operation is pending. -/
theorem wp_resultsReady {Q : Bool → Scheduler → Prop}
    (h : ∀ ready n, (ready = true → 0 < r.completed.size) →
      (ready = false → 0 < r.completed.size → 0 < r.pending.size) →
      Q ready { t with readings := n }) : wp (resultsReady env r) Q E t := by
  unfold resultsReady
  split_ifs with hc hp
  · exact h false t.readings (by simp) (by omega)
  · exact h true t.readings (by omega) (by simp)
  · split
    · exact h false t.readings (by simp) (by omega)
    · exact h _ (t.readings + 1) (by omega) (by omega)

/-- Whether a suspension is over: only if it has an end. -/
theorem wp_suspensionDue {Q : Bool → Scheduler → Prop} {suspension : AgentSuspension}
    (h : ∀ due n, Q due { t with readings := n }) :
    wp (suspensionDue env suspension) Q E t := by
  unfold suspensionDue
  split
  · exact h false t.readings
  · exact h _ (t.readings + 1)

/-- A new controller has the next number. -/
@[simp]
theorem wp_newController {Q : AbortController → Scheduler → Prop} :
    wp newController Q E t ↔ Q t.controllers { t with controllers := t.controllers + 1 } := Iff.rfl

/-- Aborting a controller draws nothing else. -/
theorem wp_abort {Q : PUnit → Scheduler → Prop} {controller : AbortController} {reason : String}
    (h : ∀ aborted, Q ⟨⟩ { t with aborted }) : wp (abort controller reason) Q E t := by
  unfold abort
  rw [wp_modify]
  split_ifs
  · exact h t.aborted
  · exact h _

/-- Aborting controllers draws nothing else. -/
theorem wp_abortAll {controllers : List AbortController} {reason : String} :
    wp (abortAll controllers reason) (fun _ => Drawn t) E t := by
  have hind : ∀ t' : Scheduler, Drawn t t' →
      wp (abortAll controllers reason) (fun _ => Drawn t) E t' := by
    induction controllers with
    | nil => exact fun _ h => h
    | cons controller rest ih =>
      intro t' h
      unfold abortAll
      rw [wp_bind]
      refine wp_abort fun aborted => ih _ ?_
      exact { h with }
  exact hind t (.refl t)

/-- Staging an operation draws at most an identifier and a controller. -/
theorem wp_stageOperation {staging : Staging} {staged : OrderedMap PendingOperation.operationId}
    {options : AsyncOperationOptions} (hE : ∀ c m, E (.scheduler c m) t) :
    wp (stageOperation env staging staged options) (fun _ => Drawn t) E t := by
  unfold stageOperation
  rw [wp_bind]
  refine wp_nonemptyIfPresent ?_ hE
  split
  · exact .refl t
  · split
    · unfold stageEnded
      simp only [wp_bind, wp_newController, wp_pure]
      refine wp_abort fun aborted => ?_
      exact { Drawn.refl t with }
    · unfold stageNew
      simp only [wp_bind, wp_pure]
      refine wp_positiveInteger (fun _ => ?_) hE
      refine wp_positiveInteger (fun _ => ?_) hE
      split
      · exact { Drawn.refl t with }
      · exact { Drawn.refl t with draws := Nat.le_succ _ }

/-- Staging operations draws identifiers and controllers only. -/
theorem wp_stageOperations {staging : Staging} {options : List AsyncOperationOptions}
    {staged : OrderedMap PendingOperation.operationId}
    (hE : ∀ c m t', Drawn t t' → E (.scheduler c m) t') :
    wp (stageOperations env staging options staged) (fun _ => Drawn t) E t := by
  have hind : ∀ t' staged, Drawn t t' →
      wp (stageOperations env staging options staged) (fun _ => Drawn t) E t' := by
    induction options with
    | nil => exact fun _ _ h => h
    | cons first rest ih =>
      intro t' staged h
      unfold stageOperations
      refine wp_bind_of (wp_stageOperation (fun c m => hE c m t' h)) ?_ fun _ _ he => he
      intro step t₁ h₁
      refine wp_bind_of (ih t₁ step.2 (h.trans h₁)) ?_ fun _ _ he => he
      exact fun _ _ h₂ => h₂
  exact hind t staged (.refl t)

/-- What makes a save fail. -/
inductive SaveFault (env : Environment) (t : Scheduler) : Fault → Prop where
  | closed (h : t.closed = true) (code : AgentSchedulerErrorCode) (message : String) :
      SaveFault env t (.scheduler code message)
  | failed {e : Fault} (h : t.failure = some e) : SaveFault env t e
  | refused {message : String} (h : env.refusal t.attempts = some message) :
      SaveFault env t (.storage message)

/-- Saving a record that is in the scheduler. -/
theorem wp_persist {Q : PUnit → Scheduler → Prop} {s : Scheduler} (hr : Touched s t r)
    (hnone : env.persistent = false → Q ⟨⟩ t)
    (hok : env.persistent = true → t.Available →
      Q ⟨⟩ { t with attempts := t.attempts + 1, saves := r.checkpoint :: t.saves })
    (hE : ∀ e n, env.persistent = true → SaveFault env t e → E e (t.broken e n)) :
    wp (persist env r) Q E t := by
  unfold persist
  by_cases hp : env.persistent = true
  · rw [if_pos hp, wp_tryCatch]
    simp only [inspect, wp_bind, stopTimers]
    obtain ⟨timer, h₀⟩ := hr.get?_self
    have hc : ({ r with timer } : AgentRecord).snapshot = r.snapshot := rfl
    refine wp_recordOf_of_get? h₀ (fun ha => ?_) (fun c m hc => ?_) (fun e he => ?_)
    · simp only [wp_pure, hc, save, wp_bind, wp_modifyGet]
      cases hm : env.refusal t.attempts with
      | none => exact hok hp ha
      | some message => exact hE _ (t.attempts + 1) hp (.refused hm)
    · exact hE _ t.attempts hp (.closed hc c m)
    · exact hE e t.attempts hp (.failed he)
  · rw [if_neg hp]
    exact hnone (by simpa using hp)

end Rules

end OsAgent.AgentScheduler
