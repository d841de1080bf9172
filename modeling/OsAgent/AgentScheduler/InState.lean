import OsAgent.AgentScheduler.Rest
import Mathlib.Tactic.Common
import Mathlib.Tactic.SplitIfs

/-!
# Coming to rest from any state of the control block

`reconcile` moves the control block to the state that the contents of a record call for. The state
from which it starts does not matter, as long as the state that is called for can be reached from
it: `reconcile_inState` says that the whole run is the same.
-/

namespace OsAgent.AgentScheduler

open OsAgent.Library OsAgent.ControlBlock AgentRecord

variable {env : Environment} {s t : Scheduler} {r r' : AgentRecord} {α : Type}
  {E : Fault → Scheduler → Prop}

variable {α : Type} {E : Fault → Scheduler → Prop}

/-- Only the last state counts. -/
@[simp]
theorem inState_inState (r : AgentRecord) (a b : AgentState) :
    (r.inState a).inState b = r.inState b := rfl

/-- The state does not matter to the batch. -/
@[simp]
theorem batch_inState (r : AgentRecord) (a : AgentState) : (r.inState a).batch = r.batch := rfl

/-- The state does not matter to the run. -/
@[simp]
theorem run_inState (r : AgentRecord) (a : AgentState) : (r.inState a).run = r.run := rfl

/-- The state does not matter to the operations in flight. -/
@[simp]
theorem pending_inState (r : AgentRecord) (a : AgentState) :
    (r.inState a).pending = r.pending := rfl

/-- The state does not matter to the completed operations. -/
@[simp]
theorem completed_inState (r : AgentRecord) (a : AgentState) :
    (r.inState a).completed = r.completed := rfl

/-- The state does not matter to the events. -/
@[simp]
theorem events_inState (r : AgentRecord) (a : AgentState) : (r.inState a).events = r.events := rfl

/-- The state does not matter to the continuation. -/
@[simp]
theorem continuation_inState (r : AgentRecord) (a : AgentState) :
    (r.inState a).continuation = r.continuation := rfl

/-- The state does not matter to the time at which results are due. -/
@[simp]
theorem batchDueAt_inState (r : AgentRecord) (a : AgentState) :
    (r.inState a).batchDueAt = r.batchDueAt := rfl

/-- The state does not matter to the suspension. -/
@[simp]
theorem suspension_inState (r : AgentRecord) (a : AgentState) :
    (r.inState a).suspension = r.suspension := rfl

/-- A record that is in a state already. -/
theorem inState_self {next : AgentState} (h : r.agent.state = next) : r.inState next = r := by
  rw [← h]
  rfl

/-- Only the last record that is written counts. -/
theorem put_put (s : Scheduler) (h : r'.agentId = r.agentId) : (s.put r).put r' = s.put r' := by
  unfold Scheduler.put
  simp only [OrderedMap.insert_insert _ h.symm]

/-- A transition along an edge of the table. -/
theorem wp_transition_put {Q : AgentRecord → Scheduler → Prop} {next : AgentState}
    (h : canAgentTransition r.agent.state next = true) :
    wp (transition r next) Q E (s.put r) ↔ Q (r.inState next) (s.put (r.inState next)) := by
  have hput : (s.put r).put (r.inState next) = s.put (r.inState next) := put_put s rfl
  unfold transition SchedulingHandle.transition
  rw [if_pos h, ← hput]
  rfl

/-- A state that can be reached in at most one step is reached. -/
theorem wp_ensureState_put {Q : AgentRecord → Scheduler → Prop} {next : AgentState}
    (h : r.agent.state = next ∨ canAgentTransition r.agent.state next = true) :
    wp (ensureState r next) Q E (s.put r) ↔ Q (r.inState next) (s.put (r.inState next)) := by
  unfold ensureState
  split_ifs with hsame
  · rw [inState_self hsame, wp_pure]
  · exact wp_transition_put (h.resolve_left hsame)

/-- Two states that lead to a third do so with the same effect. -/
theorem wp_ensureState_inState {Q : AgentRecord → Scheduler → Prop} {a b next : AgentState}
    (ha : a = next ∨ canAgentTransition a next = true)
    (hb : b = next ∨ canAgentTransition b next = true) :
    wp (ensureState (r.inState a) next) Q E (s.put (r.inState a)) ↔
      wp (ensureState (r.inState b) next) Q E (s.put (r.inState b)) := by
  have hleft := wp_ensureState_put (Q := Q) (E := E) (s := s) (r := r.inState a) ha
  have hright := wp_ensureState_put (Q := Q) (E := E) (s := s) (r := r.inState b) hb
  exact hleft.trans hright.symm

/-- Every state leads to the ready state. -/
theorem canReady (state : AgentState) :
    state = .ready ∨ canAgentTransition state .ready = true := by
  cases state <;> decide

/-- Whether results are to be delivered does not depend on the control block. -/
theorem resultsReady_put (env : Environment) (s : Scheduler) (r : AgentRecord) :
    ∃ ready n, (ready = false → 0 < r.completed.size → 0 < r.pending.size) ∧
      ∀ state, resultsReady env (r.inState state) (s.put (r.inState state)) =
        .ok ready ({ s with readings := n }.put (r.inState state)) := by
  by_cases hc : r.completed.size = 0
  · refine ⟨false, s.readings, fun _ h => (by omega), fun state => ?_⟩
    unfold resultsReady
    rw [completed_inState, if_pos hc]
    rfl
  · by_cases hp : r.pending.size = 0
    · refine ⟨true, s.readings, fun h => (by cases h), fun state => ?_⟩
      unfold resultsReady
      rw [completed_inState, if_neg hc, pending_inState, if_pos hp]
      rfl
    · have hpos : 0 < r.pending.size := Nat.pos_of_ne_zero hp
      cases hdue : r.batchDueAt with
      | none =>
        refine ⟨false, s.readings, fun _ _ => hpos, fun state => ?_⟩
        unfold resultsReady
        rw [completed_inState, if_neg hc, pending_inState, if_neg hp, batchDueAt_inState, hdue]
        rfl
      | some due =>
        refine ⟨due ≤ env.clock s.readings, s.readings + 1, fun _ _ => hpos, fun state => ?_⟩
        unfold resultsReady
        rw [completed_inState, if_neg hc, pending_inState, if_neg hp, batchDueAt_inState, hdue]
        rfl

/-- Sealing ends in the ready state, whatever the state before. -/
theorem wp_sealBatch_put {Q : AgentRecord → Scheduler → Prop} (state : AgentState) :
    wp (sealBatch env (r.inState state)) Q E (s.put (r.inState state)) ↔
      wp (sealBatch env (r.inState .ready)) Q E (s.put (r.inState .ready)) := by
  have hnow : ∀ state, { s.put (r.inState state) with
      draws := s.draws + 1, readings := s.readings + 1 } =
        { s with draws := s.draws + 1, readings := s.readings + 1 }.put (r.inState state) :=
    fun _ => rfl
  unfold sealBatch
  simp only [wp_bind, wp_randomUUID, wp_now]
  have hput : ∀ state, (s.put (r.inState state)).draws = s.draws ∧
      (s.put (r.inState state)).readings = s.readings := fun _ => ⟨rfl, rfl⟩
  simp only [(hput _).1, (hput _).2, hnow, wp_ensureState_put (canReady _), inState_inState]
  rfl

/-- A record without a batch can show by its control block that it waits: for operations, or for
nothing. -/
def CanWait (r : AgentRecord) : Prop :=
  r.batch = none → r.continuation = false → r.events.size = 0 →
    (0 < r.pending.size → r.agent.state ≠ .sleeping) ∧
    (r.pending.size = 0 → r.completed.size = 0 →
      r.agent.state = .running ∨ r.agent.state = .sleeping)

/-- A record that can be brought to rest can wait. -/
theorem canWait_of_reconcilable {count : ℕ} (h : r.Reconcilable count) (hs : r.suspension = none) :
    CanWait r := by
  intro hb hc he
  refine ⟨h.waiting hb hs hc he, fun hp hcompleted => h.idle ?_ hs hc⟩
  exact isIdle_iff.mpr ⟨hb, hp, hcompleted, he⟩

/-- Blocking ends in the blocked state, whatever the state before. -/
theorem wp_block_put {Q : AgentRecord → Scheduler → Prop} (hrun : r.run = none) :
    wp (block r) Q E (s.put r) ↔ Q (r.inState .blocked) (s.put (r.inState .blocked)) := by
  unfold block
  simp only [hrun, Option.isNone_none, if_true, wp_bind, wp_ite, wp_pure]
  by_cases hst : r.agent.state = .sleeping
  · have hready : canAgentTransition r.agent.state .ready = true := by
      rw [hst]
      rfl
    rw [if_pos hst, wp_transition_put hready, wp_ensureState_put (.inr rfl)]
    rfl
  · rw [if_neg hst, wp_ensureState_put]
    cases hstate : r.agent.state with
    | sleeping => exact absurd hstate hst
    | ready => exact .inr rfl
    | running => exact .inr rfl
    | blocked => exact .inl rfl

/-- Two states are blocked with the same effect. -/
theorem wp_block_inState {Q : AgentRecord → Scheduler → Prop} (hrun : r.run = none)
    (a b : AgentState) :
    wp (block (r.inState a)) Q E (s.put (r.inState a)) ↔
      wp (block (r.inState b)) Q E (s.put (r.inState b)) := by
  have hleft := wp_block_put (Q := Q) (E := E) (s := s) (r := r.inState a) hrun
  have hright := wp_block_put (Q := Q) (E := E) (s := s) (r := r.inState b) hrun
  exact hleft.trans hright.symm

/-- An agent that is not suspended is brought to the same rest from every state. -/
theorem wp_reconcileActive_inState {Q : AgentRecord → Scheduler → Prop} {a b : AgentState}
    (hrun : r.run = none) (ha : CanWait (r.inState a)) (hb : CanWait (r.inState b)) :
    wp (reconcileActive env (r.inState a)) Q E (s.put (r.inState a)) ↔
      wp (reconcileActive env (r.inState b)) Q E (s.put (r.inState b)) := by
  unfold reconcileActive
  simp only [wp_bind, wp_ite, wp_pure, batch_inState, run_inState, hrun, Option.isNone_none,
    and_true, continuation_inState, events_inState, pending_inState]
  rcases Option.eq_none_or_eq_some r.batch with hbatch | ⟨batch, hbatch⟩
  · simp only [hbatch, Option.isSome_none, Option.isNone_none, Bool.false_eq_true, if_false,
      if_true]
    obtain ⟨ready, n, hwait, hready⟩ := resultsReady_put env s r
    rw [wp_of_eq (hready a), wp_of_eq (hready b)]
    by_cases hseal : r.continuation = true ∨ 0 < r.events.size ∨ ready = true
    · simp only [hseal, ↓reduceIte]
      rw [wp_sealBatch_put a, wp_sealBatch_put b]
    · simp only [hseal, ↓reduceIte]
      simp only [not_or, Bool.not_eq_true, Nat.pos_iff_ne_zero, not_not] at hseal
      obtain ⟨hcont, hev, hnr⟩ := hseal
      -- The contents call for waiting, and each of the two states leads there.
      have hgo : ∀ state, CanWait (r.inState state) →
          let next := if 0 < r.pending.size then AgentState.blocked else .sleeping
          (r.inState state).agent.state = next ∨
            canAgentTransition (r.inState state).agent.state next = true := by
        intro state hw
        obtain ⟨hpos, hzero⟩ := hw hbatch hcont hev
        by_cases hp : 0 < r.pending.size
        · have hne : state ≠ .sleeping := hpos hp
          rw [if_pos hp]
          cases state <;> first | exact absurd rfl hne | exact .inl rfl | exact .inr rfl
        · have hp0 : r.pending.size = 0 := by omega
          have hc0 : r.completed.size = 0 := by
            by_contra hc
            have := hwait hnr (Nat.pos_of_ne_zero hc)
            omega
          have hor : state = .running ∨ state = .sleeping := hzero hp0 hc0
          rw [if_neg hp]
          rcases hor with rfl | rfl
          · exact .inr rfl
          · exact .inl rfl
      exact wp_ensureState_inState (hgo a ha) (hgo b hb)
  · simp only [hbatch, Option.isSome_some, if_true, wp_ensureState_put (canReady _),
      inState_inState]
    rfl

/-- The record of an agent that is to continue. -/
def continued (r : AgentRecord) : AgentRecord := { r with continuation := true }

/-- Bringing the queue and the wish to continue up to date does not look at the control block. -/
theorem wp_requeue_put {Q : AgentRecord → Scheduler → Prop} (hrun : r.run = none)
    (state : AgentState) :
    wp (requeue (r.inState state)) Q E (s.put (r.inState state)) ↔
      if r.batch.isSome then
        Q (r.inState state) ({ s with queue := s.queue ++ [r.agentId] }.put (r.inState state))
      else Q ((continued r).inState state) (s.put ((continued r).inState state)) := by
  have hrun' : (r.inState state).run.isNone := by simp [hrun]
  unfold requeue
  rcases Option.eq_none_or_eq_some r.batch with hb | ⟨batch, hb⟩
  · have hput : (s.put (r.inState state)).put ((continued r).inState state) =
        s.put ((continued r).inState state) := put_put s rfl
    rw [if_neg (by simp [hb]), if_pos (by simp [hb]), if_neg (by simp [hb]), ← hput]
    rfl
  · rw [if_pos ⟨by simp [hb], hrun'⟩, if_pos (by simp [hb])]
    rfl

/-- What `resume` does after the control block was unblocked does not depend on its state. -/
theorem wp_requeue_inState {Q : PUnit → Scheduler → Prop} (hrun : r.run = none)
    (a b : AgentState) :
    wp (requeue (r.inState a)) (fun r' t => wp (reconcileActive env r') (fun _ => Q ⟨⟩) E t) E
        (s.put (r.inState a)) ↔
      wp (requeue (r.inState b)) (fun r' t => wp (reconcileActive env r') (fun _ => Q ⟨⟩) E t) E
        (s.put (r.inState b)) := by
  rw [wp_requeue_put hrun, wp_requeue_put hrun]
  rcases Option.eq_none_or_eq_some r.batch with hb | ⟨batch, hb⟩
  · have hwait : ∀ state, CanWait ((continued r).inState state) := fun _ _ hc => by cases hc
    simp only [hb, Option.isSome_none, Bool.false_eq_true, if_false]
    exact wp_reconcileActive_inState (r := continued r) hrun (hwait a) (hwait b)
  · have hwait : ∀ state, CanWait (r.inState state) := by
      intro state hnone
      rw [batch_inState, hb] at hnone
      cases hnone
    simp only [hb, Option.isSome_some, if_true]
    exact wp_reconcileActive_inState hrun (hwait a) (hwait b)

/-- The record of an agent that pauses no longer. -/
def unsuspended (r : AgentRecord) : AgentRecord := { r with suspension := none }

/-- Resuming ends in the same rest from every state. -/
theorem wp_resume_inState {Q : PUnit → Scheduler → Prop} (hs : s.Available) (hrun : r.run = none)
    (hsus : r.suspension.isSome) (a b : AgentState) :
    wp (resume env r.agentId) Q E (s.put (r.inState a)) ↔
      wp (resume env r.agentId) Q E (s.put (r.inState b)) := by
  -- The state only matters for whether it is left.
  have hstart : ∀ state, ∃ next, wp (resume env r.agentId) Q E (s.put (r.inState state)) ↔
      wp (requeue ((unsuspended r).inState next))
        (fun r' t => wp (reconcileActive env r') (fun _ => Q ⟨⟩) E t) E
        (s.put ((unsuspended r).inState next)) := by
    intro state
    have hfound : recordOf r.agentId (s.put (r.inState state)) =
        .ok (r.inState state) (s.put (r.inState state)) := by
      refine eq_of_wp (wp_recordOf_of_get? (OrderedMap.get?_insert_self ..) (fun _ => rfl) ?_ ?_)
      · intro c m hc
        rw [show (s.put (r.inState state)).closed = s.closed from rfl, hs.1] at hc
        cases hc
      · intro e he
        rw [show (s.put (r.inState state)).failure = s.failure from rfl, hs.2] at he
        cases he
    have hsome : (r.inState state).suspension.isNone = false := by simpa using hsus
    have hput : (s.put (r.inState state)).put ((unsuspended r).inState state) =
        s.put ((unsuspended r).inState state) := put_put s rfl
    unfold resume
    rw [wp_bind, wp_of_eq hfound]
    simp only [hsome, Bool.false_eq_true, if_false, wp_bind, wp_ite, wp_pure, wp_update]
    change ∃ next, (if state = AgentState.blocked then
        wp (transition ((unsuspended r).inState state) .ready) _ E
          ((s.put (r.inState state)).put ((unsuspended r).inState state))
      else wp (requeue ((unsuspended r).inState state)) _ E
        ((s.put (r.inState state)).put ((unsuspended r).inState state))) ↔ _
    rw [hput]
    -- A blocked agent becomes ready; another one keeps its state.
    by_cases hst : state = .blocked
    · refine ⟨.ready, ?_⟩
      rw [if_pos hst, wp_transition_put (by rw [hst]; rfl), inState_inState]
    · refine ⟨state, ?_⟩
      rw [if_neg hst]
  obtain ⟨a', ha'⟩ := hstart a
  obtain ⟨b', hb'⟩ := hstart b
  exact ha'.trans ((wp_requeue_inState (r := unsuspended r) hrun a' b').trans hb'.symm)

/-- `reconcile` brings a record to the same rest from every state of its control block. -/
theorem reconcile_inState {a b : AgentState} (hs : s.Available) (hrun : r.run = none)
    (ha : r.suspension = none → CanWait (r.inState a))
    (hb : r.suspension = none → CanWait (r.inState b)) :
    reconcile env (r.inState a) (s.put (r.inState a)) =
      reconcile env (r.inState b) (s.put (r.inState b)) := by
  refine eq_of_wp_iff fun Q E => ?_
  unfold reconcile
  rcases Option.eq_none_or_eq_some r.suspension with hsus | ⟨suspension, hsus⟩
  · simp only [suspension_inState, hsus, wp_bind]
    exact wp_reconcileActive_inState hrun (ha hsus) (hb hsus)
  · simp only [suspension_inState, hsus, wp_bind]
    have hsome : r.suspension.isSome := by simp [hsus]
    -- Whether the suspension is over does not depend on the record.
    have hdue : ∃ due n, ∀ state, suspensionDue env suspension (s.put (r.inState state)) =
        .ok due ({ s with readings := n }.put (r.inState state)) := by
      unfold suspensionDue
      cases suspension.resumeAt with
      | none => exact ⟨false, s.readings, fun _ => rfl⟩
      | some resumeAt =>
        exact ⟨decide (resumeAt ≤ env.clock s.readings), s.readings + 1, fun _ => rfl⟩
    obtain ⟨due, n, hdue⟩ := hdue
    rw [wp_of_eq (hdue a), wp_of_eq (hdue b)]
    cases due with
    | true => exact wp_resume_inState (s := { s with readings := n }) hs hrun hsome a b
    | false =>
      simp only [Bool.false_eq_true, if_false, wp_bind]
      exact wp_block_inState hrun a b

end OsAgent.AgentScheduler
