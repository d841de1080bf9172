import OsAgent.AgentContext.Acceptance
import OsAgent.Library.Keyed

/-!
# The history of a context

A `Chronicle` is a session with what has happened in it: which deliveries were accepted, which were
absorbed and under which cursor, which entries were applied, and which cursors there have been. It is
read off the session before and after each operation: a delivery that is new in the inbox was
accepted, and one that is gone was absorbed. `perform_happens` sums up what an operation may do.
-/

namespace OsAgent.Context

open OsAgent.Library

/-- A delivery that the active frame absorbed, with the cursor that the frame had. -/
structure Absorption where
  cursor : ContextCursor
  delivery : ContextDelivery

/-- A session and its history. -/
structure Chronicle where
  session : Session
  accepted : List ContextDelivery
  absorbed : List Absorption
  applied : List ContextEntry
  known : List ContextCursor

/-- The entries that an operation applies. -/
def Operation.entries : Operation → List ContextEntry
  | .apply _ _ _ entries => entries
  | _ => []

namespace Chronicle

/-- The state of the manager. -/
abbrev state (t : Chronicle) : ContextCheckpoint := t.session.state

/-- The cursors of the frames. -/
def cursors (s : Session) : List ContextCursor := (frames s.state.context).map ContextFrame.cursor

/-- The history of a manager that was just created. -/
def begin (s : Session) : Chronicle := ⟨s, [], [], [], cursors s⟩

/-- The deliveries that an operation took out of the inbox. -/
def taken (s s' : Session) : List ContextDelivery :=
  newIn ContextDelivery.key s'.state.inbox s.state.inbox

/-- The history after an operation that ended in a session. Every commit counts the revision up. -/
def after (t : Chronicle) (op : Operation) (s' : Session) : Chronicle where
  session := s'
  accepted := t.accepted ++ newIn ContextDelivery.key t.state.inbox s'.state.inbox
  absorbed := t.absorbed ++ (taken t.session s').map (⟨(active t.state.context).cursor, ·⟩)
  applied := t.applied ++ if s'.state.revision = t.state.revision then [] else op.entries
  known := t.known ++ cursors s'

end Chronicle

section Chronicles

variable (sha256 : String → String)

/-- The runs of a manager with their histories, with the operations that `allowed` lets happen. -/
def chronicles (allowed : Chronicle → Surroundings → Operation → Prop) :
    TransitionSystem Chronicle where
  init t := ∃ env options s, createAgentContextManager env options .empty = .ok s ∧ t = .begin s
  step t t' :=
    (∃ env op, allowed t env op ∧ t' = t.after op (finalState (op.perform sha256 env t.session))) ∨
    ∃ env s, restoreAgentContextManager env t.session.key t.session.store = .ok s ∧
      t' = { t with session := s }

variable {allowed : Chronicle → Surroundings → Operation → Prop}

/-- The session of a chronicle is one of a run. -/
theorem reachable_session {t : Chronicle} (h : (chronicles sha256 allowed).Reachable t) :
    (sessions sha256 fun _ _ => True).Reachable t.session := by
  refine TransitionSystem.Reachable.invariant
    (P := fun t => (sessions sha256 fun _ _ => True).Reachable t.session) ?_ ?_ h
  · rintro _ ⟨env, options, s, hcreate, rfl⟩
    exact .of_init ⟨env, options, hcreate⟩
  · rintro t _ - ht (⟨env, op, -, rfl⟩ | ⟨env, s, hrestore, rfl⟩)
    · exact ht.step (.inl ⟨env, op, trivial, rfl⟩)
    · exact ht.step (.inr ⟨env, hrestore⟩)

/-- The session of a chronicle is durable. -/
theorem durable_session {t : Chronicle} (h : (chronicles sha256 allowed).Reachable t) :
    Durable t.session :=
  durable_of_reachable sha256 (reachable_session sha256 h)

/-! ## What an operation does -/

/-- Deliveries enter the inbox. -/
structure Enters (s s' : Session) (deliveries fresh : List ContextDelivery) : Prop where
  mem : ∀ d ∈ fresh, d ∈ deliveries
  valid : ∀ d ∈ fresh, validateDelivery d = .ok ()
  fits : ∀ d ∈ fresh, byteLength (stringify d.toJson) ≤ s.state.policy.maxDeliveryBytes
  keys : (fresh.map ContextDelivery.key).Nodup
  unrecorded : ∀ d ∈ fresh, s.store.recorded sha256 d.key = none
  context : s'.state.context = s.state.context
  policy : s'.state.policy = s.state.policy
  inbox : s'.state.inbox = s.state.inbox ++ fresh
  records : s'.store.records.entries = s.store.records.entries ++
    fresh.map fun d => { ref := deliveryRef sha256 d.key, record := .history d }

variable {sha256} in
/-- A delivery that enters is recorded. -/
theorem Enters.recorded {s s' : Session} {deliveries fresh : List ContextDelivery}
    (h : Enters sha256 s s' deliveries fresh) {d : ContextDelivery} (hd : d ∈ fresh) :
    s'.store.recorded sha256 d.key = some (.history d) := by
  have hmem : { ref := deliveryRef sha256 d.key, record := .history d } ∈
      s'.store.records.entries := by
    rw [h.records]
    exact List.mem_append_right _ (List.mem_map_of_mem hd)
  exact recorded_of_mem hmem rfl

/-- What an operation may do to a session: nothing, take deliveries in, move deliveries to the active
frame, or move the cursors. -/
inductive Happens (env : Surroundings) (op : Operation) (s s' : Session) : Prop
  | nothing (h : s' = s)
  | enters (deliveries fresh : List ContextDelivery) (hop : op.offers = some deliveries)
    (h : Enters sha256 s s' deliveries fresh)
  | drains (taken : List ContextDelivery) (hop : op.delivers = true)
    (hpre : taken <+: s.state.inbox.filter (·.absorbed s.state.context))
    (h : Drains sha256 s.state s'.state taken)
  | evolves (h : Evolves (fun id => ∃ k, id = env.createId k) s.state s'.state)

/-- The change appends the deliveries to the inbox, and records them. -/
theorem acceptDeliveries_returns (fresh : List ContextDelivery) (state : ContextCheckpoint)
    (createId : ℕ → String) :
    Returns (acceptDeliveries sha256 fresh) (fun _ m => m.state.context = state.context ∧
        m.state.policy = state.policy ∧ m.state.inbox = state.inbox ++ fresh ∧
        m.writes = fresh.map fun d => { ref := deliveryRef sha256 d.key, record := .history d })
      (state.mutation createId) := by
  simp [acceptDeliveries, ContextCheckpoint.mutation]

/-- The first of the new deliveries enter, when the change is committed. -/
theorem Found.enters {s s' : Session} {env : Surroundings} {deliveries fresh : List ContextDelivery}
    (h : Found sha256 s deliveries fresh) (n : ℕ)
    (hc : Committed env (acceptDeliveries sha256 (fresh.take n)) [] s s') :
    Enters sha256 s s' deliveries (fresh.take n) := by
  obtain ⟨-, m, hm, hcommit, hstate⟩ := hc
  obtain ⟨⟨hcontext, hpolicy, hinbox, hwrites⟩, -⟩ := prepared hm
    (acceptDeliveries_returns sha256 (fresh.take n) s.state env.createId) fun _ _ h => h
  have htake : ∀ d ∈ fresh.take n, d ∈ fresh := fun d hd => List.mem_of_mem_take hd
  exact {
    mem := fun d hd => h.mem d (htake d hd)
    valid := fun d hd => h.valid d (htake d hd)
    fits := fun d hd => h.fits d (htake d hd)
    keys := h.keys.sublist ((List.take_sublist n fresh).map _)
    unrecorded := fun d hd => h.unrecorded d (htake d hd)
    context := by rw [hstate, hcontext]
    policy := by rw [hstate, hpolicy]
    inbox := by rw [hstate, hinbox]
    records := by rw [(commit_appended hcommit).records, hwrites] }

/-- What an operation does. -/
theorem perform_happens {s : Session} (hd : Durable s) (env : Surroundings) (op : Operation) :
    Ends (op.perform sha256 env) (Happens sha256 env op s) s := by
  have hdistinct := (wellFormed_of_validateCheckpoint hd.valid).distinct
  cases hop : op.offers with
  | some deliveries =>
    refine wp_mono (perform_accepts sha256 env hop s) ?_ (fun _ _ h => .nothing h)
    rintro _ s' ⟨fresh, hfound, rfl | ⟨n, hc⟩⟩
    · exact .nothing rfl
    · exact .enters deliveries _ hop (hfound.enters sha256 n hc)
  | none =>
    refine wp_mono (perform_commits sha256 env op s) ?_ (fun _ _ h => .nothing h)
    rintro _ s' (rfl | ⟨change, receiptKeys, hmakes, -, m, hm, -, hstate⟩)
    · exact .nothing rfl
    · by_cases hdelivers : op.delivers = true
      · cases hmakes with
        | prepare hnone =>
          obtain ⟨⟨taken, hpre, hdrains⟩, -⟩ := prepared hm
            (drainInbox_drains sha256 env.createId hd.lower hdistinct)
            fun _ _ ⟨taken, hpre, h⟩ => ⟨taken, hpre, h.context, h.inbox, h.policy⟩
          exact .drains taken rfl hpre (hstate ▸ hdrains)
        | receive => cases hop
        | receiveAvailable => cases hop
        | _ => cases hdelivers
      · obtain ⟨h, -⟩ := prepared (Q := fun m => Evolves (fun id => ∃ k, id = env.createId k)
          s.state m.state) hm
          (hmakes.evolves (by simpa using hdelivers) hd.lower env.createId)
          fun _ revision h => h.withRevision revision
        exact .evolves (hstate ▸ h)

/-- What an operation that offers no deliveries writes besides its last context is no delivery. -/
theorem not_history_of_besides {state : ContextCheckpoint} {op : Operation} (hop : op.offers = none)
    {delivery : ContextDelivery} : ¬ op.Besides state (.history delivery) := by
  intro hrecord
  have hsummary {summary : ContextSummary}
      (h : SummaryRecord state summary (.history delivery)) : False := by
    obtain ⟨pending, -, heq⟩ := h.record_eq
    cases heq
  cases op with
  | receive deliveries => cases hop
  | receiveAvailable deliveries => cases hop
  | apply roundKey cursor decision entries =>
    have hplan : PlanRecord decision entries state.context (.history delivery) := hrecord
    cases hplan.record_eq
  | commitSummaryPhase roundKey id summary => exact hsummary hrecord
  | commitSummary roundKey id summary => exact hsummary hrecord
  | _ => exact hrecord

/-- Deliveries are recorded only when they enter. -/
theorem perform_histories {s : Session} (hd : Durable s) (env : Surroundings) (op : Operation) :
    Ends (op.perform sha256 env) (fun s' =>
      (∃ deliveries fresh, Enters sha256 s s' deliveries fresh) ∨
        ∀ write ∈ s'.store.records.entries, ∀ delivery, write.record = .history delivery →
          write ∈ s.store.records.entries) s := by
  cases hop : op.offers with
  | some deliveries =>
    refine wp_mono (perform_accepts sha256 env hop s) ?_ (fun _ _ h => .inr ?_)
    · rintro _ s' ⟨fresh, hfound, rfl | ⟨n, hc⟩⟩
      · exact .inr fun write hwrite _ _ => hwrite
      · exact .inl ⟨deliveries, _, hfound.enters sha256 n hc⟩
    · rw [h]
      exact fun write hwrite _ _ => hwrite
  | none =>
    refine wp_mono (perform_commits sha256 env op s) ?_ (fun _ _ h => .inr ?_)
    · rintro _ s' (rfl | hc)
      · exact .inr fun write hwrite _ _ => hwrite
      · obtain ⟨-, -, m, receipts, -, ho, happ⟩ := hc.outcome sha256 hd.lower
        refine .inr fun write hwrite delivery hhistory => ?_
        rw [happ.records] at hwrite
        rcases List.mem_append.mp hwrite with hold | hnew
        · exact hold
        · rcases ho.written write hnew with hframe | hbesides
          · rw [hhistory] at hframe
            cases hframe
          · rw [hhistory] at hbesides
            exact absurd hbesides (not_history_of_besides hop)
    · rw [h]
      exact fun write hwrite _ _ => hwrite

/-- Records are never taken back. -/
theorem perform_records {s : Session} (hd : Durable s) (env : Surroundings) (op : Operation) :
    Ends (op.perform sha256 env)
      (fun s' => s.store.records.entries <+: s'.store.records.entries) s := by
  refine wp_mono (perform_commits sha256 env op s) ?_ (by rintro _ s' rfl; exact List.prefix_rfl)
  rintro _ s' (rfl | hc)
  · exact List.prefix_rfl
  · obtain ⟨-, -, m, receipts, -, -, happ⟩ := hc.outcome sha256 hd.lower
    rw [happ.records]
    exact List.prefix_append _ _

end Chronicles

end OsAgent.Context
