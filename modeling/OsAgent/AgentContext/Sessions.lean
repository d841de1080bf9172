import OsAgent.AgentContext.Changes
import OsAgent.Library.Transition

/-!
# Sessions of a manager

A session is a live manager over its store. Its runs are any sequence of the manager's operations,
with any arguments, identities and failures of the store, and of restorations of the manager from the
store. `perform_commits` says what an operation does: it changes nothing, or it commits the one change
that is named for it. An operation that throws changes nothing.
-/

namespace OsAgent.Context

open OsAgent.Library

/-- The operations that may change something. -/
inductive Operation where
  | receive (deliveries : List ContextDelivery)
  | receiveAvailable (deliveries : List ContextDelivery)
  | prepare
  | apply (roundKey : String) (cursor : ContextCursor) (decision : ContextDecision)
    (entries : List ContextEntry)
  | beginSummaryAttempt
  | configureBudget (budget : ContextBudget)
  | retrySummary
  | failSummary (id message : String)
  | commitSummaryPhase (roundKey id : String) (summary : ContextSummary)
  | acknowledgeRound (roundKey : String)
  | commitSummary (roundKey id : String) (summary : ContextSummary)

section Sessions

variable (sha256 : String → String)

/-- What an operation does. -/
def Operation.perform (env : Surroundings) : Operation → Operate Unit
  | .receive deliveries => Context.receive sha256 env deliveries
  | .receiveAvailable deliveries => do let _ ← Context.receiveAvailable sha256 env deliveries
  | .prepare => do let _ ← Context.prepare sha256 env
  | .apply roundKey cursor decision entries => Context.apply env roundKey cursor decision entries
  | .beginSummaryAttempt => do let _ ← Context.beginSummaryAttempt env
  | .configureBudget budget => Context.configureBudget env budget
  | .retrySummary => Context.retrySummary env
  | .failSummary id message => Context.failSummary env id message
  | .commitSummaryPhase roundKey id summary => Context.commitSummaryPhase env roundKey id summary
  | .acknowledgeRound roundKey => Context.acknowledgeRound env roundKey
  | .commitSummary roundKey id summary => Context.commitSummary env roundKey id summary

/-- The sessions of a manager, with the operations that `allowed` lets happen in a state. -/
def sessions (allowed : Session → Operation → Prop) : TransitionSystem Session where
  init s := ∃ env options, createAgentContextManager env options .empty = .ok s
  step s t := (∃ env op, allowed s op ∧ t = finalState (op.perform sha256 env s)) ∨
    ∃ env, restoreAgentContextManager env s.key s.store = .ok t

/-! ## Commits -/

/-- Which change an operation commits in a state, and with which receipts. -/
inductive Operation.Makes (state : ContextCheckpoint) :
    Operation → Change Unit → List String → Prop
  | receive {deliveries fresh} (h : ∀ d ∈ fresh, validateDelivery d = .ok ()) :
    Makes state (.receive deliveries) (acceptDeliveries sha256 fresh) []
  | receiveAvailable {deliveries fresh} (h : ∀ d ∈ fresh, validateDelivery d = .ok ()) :
    Makes state (.receiveAvailable deliveries) (acceptDeliveries sha256 fresh) []
  | prepare (h : state.pendingSummary = none) : Makes state .prepare (drainInbox sha256) []
  | apply {roundKey cursor decision entries} :
    Makes state (.apply roundKey cursor decision entries) (applyRound cursor decision entries)
      [roundKeyOf roundKey]
  | beginSummaryAttempt : Makes state .beginSummaryAttempt countAttempt []
  | configureBudget {budget} : Makes state (.configureBudget budget) (setBudgets budget) []
  | retrySummary : Makes state .retrySummary resetAttempts []
  | failSummary {id message} : Makes state (.failSummary id message) (recordFailure id message) []
  | commitSummaryPhase {roundKey id summary} (keys : List String) :
    Makes state (.commitSummaryPhase roundKey id summary) (integrateSummary id summary) keys
  | acknowledgeRound {roundKey} :
    Makes state (.acknowledgeRound roundKey) (pure ()) [roundKeyOf roundKey]
  | commitSummary {roundKey id summary} :
    Makes state (.commitSummary roundKey id summary) (integrateSummary id summary)
      [roundKeyOf roundKey]

/-- A change was made, checked and committed. -/
structure Committed (env : Surroundings) (change : Change Unit) (receiptKeys : List String)
    (s s' : Session) : Prop where
  key : s'.key = s.key
  made : ∃ m, prepareMutation env change s.state = .ok m ∧
    s.store.commit (some s.state.revision) m.state m.writes (receiptsOf m.state receiptKeys) =
      .ok s'.store ∧ s'.state = m.state

/-- `mutate` commits its change, or throws and leaves everything as it was. -/
theorem mutate_commits (env : Surroundings) (change : Change Unit) (receiptKeys : List String)
    (s : Session) :
    wp (mutate env change receiptKeys) (fun _ => Committed env change receiptKeys s)
      (fun _ s' => s' = s) s := by
  simp only [mutate, wp_bind, wp_get, wp_lift, wp_set, implies_true, and_true]
  intro m hm _ _ store hstore
  exact ⟨rfl, m, hm, hstore, rfl⟩

/-- Reading changes nothing. -/
theorem read_unchanged (env : Surroundings) (ref : String) (s : Session) :
    Ends (read env ref) (· = s) s := by
  simp [read, Ends]

/-- To read a receipt changes nothing. -/
theorem receipt_unchanged (env : Surroundings) (id : String) (s : Session) :
    wp (receipt env id) (fun r s' => s' = s ∧ r = s.store.receipts.get? id) (fun _ s' => s' = s)
      s := by
  simp [receipt]

/-- The deliveries that are found new have passed their check. -/
theorem freshDeliveries_valid (env : Surroundings) (s : Session) (deliveries : List ContextDelivery)
    {fresh : List ContextDelivery} (h : ∀ d ∈ fresh, validateDelivery d = .ok ()) :
    wp (freshDeliveries sha256 env fresh deliveries)
      (fun fresh' s' => s' = s ∧ ∀ d ∈ fresh', validateDelivery d = .ok ()) (fun _ s' => s' = s)
      s := by
  induction deliveries generalizing fresh with
  | nil => exact ⟨rfl, h⟩
  | cons delivery deliveries ih =>
    simp only [freshDeliveries, wp_bind, wp_lift, wp_get, implies_true, and_true]
    intro _ hvalid _ _
    refine wp_mono (read_unchanged env _ s) ?_ (fun _ _ h => h)
    rintro previous _ rfl
    split
    · simp only [wp_bind, wp_lift, implies_true, and_true]
      exact fun _ _ => ih h
    · simp only [wp_bind, wp_lift, implies_true, and_true]
      exact fun _ _ => ih h
    · simp
    · refine ih ?_
      intro d hd
      rcases List.mem_append.mp hd with hold | hnew
      · exact h d hold
      · rwa [List.mem_singleton.mp hnew]

/-- What an operation may do to a session. -/
def Operation.Commits (env : Surroundings) (op : Operation) (s s' : Session) : Prop :=
  ∃ change receiptKeys, op.Makes sha256 s.state change receiptKeys ∧
    Committed env change receiptKeys s s'

/-- An operation that commits its change, or stops before. -/
theorem commits_of_mutate {env : Surroundings} {op : Operation} {change : Change Unit}
    {receiptKeys : List String} {s : Session} (h : op.Makes sha256 s.state change receiptKeys) :
    wp (mutate env change receiptKeys) (fun _ s' => s' = s ∨ op.Commits sha256 env s s')
      (fun _ s' => s' = s) s :=
  wp_mono (mutate_commits env change receiptKeys s)
    (fun _ _ hc => .inr ⟨change, receiptKeys, h, hc⟩) (fun _ _ h => h)

/-- To accept deliveries commits them, or changes nothing. -/
theorem receiveFresh_commits {env : Surroundings} {op : Operation} {fresh : List ContextDelivery}
    {s : Session} (h : op.Makes sha256 s.state (acceptDeliveries sha256 fresh) []) :
    wp (receiveFresh sha256 env fresh) (fun _ s' => s' = s ∨ op.Commits sha256 env s s')
      (fun _ s' => s' = s) s := by
  unfold receiveFresh
  split_ifs
  · exact .inl rfl
  · exact commits_of_mutate sha256 h

/-- An operation that has been answered before does nothing more. -/
theorem commits_after_receipt {env : Surroundings} {op : Operation} {id : String}
    {rest : Operate Unit} {s : Session}
    (h : wp rest (fun _ s' => s' = s ∨ op.Commits sha256 env s s') (fun _ s' => s' = s) s) :
    wp (receipt env id >>= fun r => if r.isSome then pure () else rest)
      (fun _ s' => s' = s ∨ op.Commits sha256 env s s') (fun _ s' => s' = s) s := by
  refine wp_bind_of (receipt_unchanged env id s) ?_ (fun _ _ h => h)
  rintro r _ ⟨rfl, -⟩
  split_ifs
  · exact .inl rfl
  · exact h

/-- An operation changes nothing, or commits the change that is named for it; one that throws
changes nothing. -/
theorem perform_commits (env : Surroundings) (op : Operation) (s : Session) :
    wp (op.perform sha256 env) (fun _ s' => s' = s ∨ op.Commits sha256 env s s')
      (fun _ s' => s' = s) s := by
  -- By the operation: each makes its checks, looks for its receipt, and commits one change.
  cases op with
  | receive deliveries =>
    refine wp_bind_of (freshDeliveries_valid sha256 env s deliveries (List.forall_mem_nil _))
      ?_ (fun _ _ h => h)
    rintro fresh _ ⟨rfl, hfresh⟩
    simp only [wp_bind, wp_get, wp_lift, implies_true, and_true]
    exact fun _ _ => receiveFresh_commits sha256 (.receive hfresh)
  | receiveAvailable deliveries =>
    simp only [Operation.perform, receiveAvailable, wp_bind]
    refine wp_mono (freshDeliveries_valid sha256 env s deliveries (List.forall_mem_nil _))
      ?_ (fun _ _ h => h)
    rintro fresh _ ⟨rfl, hfresh⟩
    simp only [wp_get, wp_pure]
    refine receiveFresh_commits sha256 (.receiveAvailable fun d hd => ?_)
    exact hfresh d (List.mem_of_mem_take hd)
  | prepare =>
    simp only [Operation.perform, Context.prepare, wp_bind, wp_get, wp_ite, wp_pure]
    -- With a pending summary there is nothing to prepare.
    split_ifs with hnone
    · exact commits_of_mutate sha256 (.prepare (Option.isNone_iff_eq_none.mp hnone))
    · exact .inl trivial
  | apply roundKey cursor decision entries =>
    simp only [Operation.perform, Context.apply]
    rw [wp_bind, wp_lift]
    refine ⟨fun _ _ => ?_, fun _ _ => rfl⟩
    exact commits_after_receipt sha256 (commits_of_mutate sha256 .apply)
  | beginSummaryAttempt =>
    simp only [Operation.perform, Context.beginSummaryAttempt, wp_bind, wp_get, wp_pure]
    exact commits_of_mutate sha256 .beginSummaryAttempt
  | configureBudget budget =>
    simp only [Operation.perform, Context.configureBudget, wp_bind, wp_get, wp_lift, wp_ite,
      wp_pure, implies_true, and_true]
    intro _ _
    -- Budgets that are the same are not set again.
    split_ifs
    · exact .inl trivial
    · exact commits_of_mutate sha256 .configureBudget
  | retrySummary =>
    simp only [Operation.perform, Context.retrySummary, wp_bind, wp_get, wp_lift, implies_true,
      and_true]
    exact fun _ _ => commits_of_mutate sha256 .retrySummary
  | failSummary id message => exact commits_of_mutate sha256 .failSummary
  | commitSummaryPhase roundKey id summary =>
    simp only [Operation.perform, Context.commitSummaryPhase]
    rw [wp_bind, wp_lift]
    refine ⟨fun _ _ => ?_, fun _ _ => rfl⟩
    rw [wp_bind, wp_lift]
    refine ⟨fun _ _ => ?_, fun _ _ => rfl⟩
    refine commits_after_receipt sha256 ?_
    -- Whether the phase was reported before decides what is integrated, and not how.
    refine wp_bind_of (receipt_unchanged env _ s) ?_ (fun _ _ h => h)
    rintro reported _ ⟨rfl, -⟩
    exact commits_of_mutate sha256 (.commitSummaryPhase _)
  | acknowledgeRound roundKey =>
    simp only [Operation.perform, Context.acknowledgeRound]
    rw [wp_bind, wp_lift]
    refine ⟨fun _ _ => ?_, fun _ _ => rfl⟩
    refine commits_after_receipt sha256 ?_
    refine wp_bind_of (receipt_unchanged env _ s) ?_ (fun _ _ h => h)
    rintro reported _ ⟨rfl, -⟩
    simp only [wp_bind, wp_lift, implies_true, and_true]
    exact fun _ _ => commits_of_mutate sha256 .acknowledgeRound
  | commitSummary roundKey id summary =>
    simp only [Operation.perform, Context.commitSummary]
    rw [wp_bind, wp_lift]
    refine ⟨fun _ _ => ?_, fun _ _ => rfl⟩
    exact commits_after_receipt sha256 (commits_of_mutate sha256 .commitSummary)

/-! ## What is kept -/

/-- The records that are added come last. -/
theorem entries_addRecords {writes : List ContextStoreWrite}
    {records records' : OrderedMap ContextStoreWrite.ref}
    (h : addRecords records writes = .ok records') :
    records'.entries = records.entries ++ writes := by
  induction writes generalizing records with
  | nil =>
    obtain rfl : records = records' := by simpa [addRecords] using h
    simp
  | cons write writes ih =>
    simp only [addRecords, bind_eq_ok, exists_unit, requireContext_eq_ok] at h
    have hnew : records.get? write.ref = none := by
      simpa [OrderedMap.has] using h.1
    rw [ih h.2, OrderedMap.entries_insert_of_get?_eq_none hnew]
    simp

/-- The receipts that are added come last. -/
theorem entries_addReceipts {receipts : List ContextReceipt}
    {results results' : OrderedMap ContextReceipt.key}
    (h : addReceipts results receipts = .ok results') :
    results'.entries = results.entries ++ receipts := by
  induction receipts generalizing results with
  | nil =>
    obtain rfl : results = results' := by simpa [addReceipts] using h
    simp
  | cons receipt receipts ih =>
    simp only [addReceipts, bind_eq_ok, exists_unit, requireContext_eq_ok] at h
    have hnew : results.get? receipt.key = none := by
      simpa [OrderedMap.has] using h.1
    rw [ih h.2, OrderedMap.entries_insert_of_get?_eq_none hnew]
    simp

/-- A commit takes the checkpoint and appends the records and receipts. -/
structure Appended (store : Namespace) (checkpoint : ContextCheckpoint)
    (writes : List ContextStoreWrite) (receipts : List ContextReceipt) (store' : Namespace) :
    Prop where
  state : store'.state = some checkpoint
  records : store'.records.entries = store.records.entries ++ writes
  receipts : store'.receipts.entries = store.receipts.entries ++ receipts

/-- A commit adds to the records and the receipts. -/
theorem commit_appended {store store' : Namespace} {expectedRevision : Option ℕ}
    {checkpoint : ContextCheckpoint} {writes : List ContextStoreWrite}
    {receipts : List ContextReceipt}
    (h : store.commit expectedRevision checkpoint writes receipts = .ok store') :
    Appended store checkpoint writes receipts store' := by
  simp only [Namespace.commit, bind_eq_ok, exists_unit, pure_eq_ok] at h
  obtain ⟨-, -, records, hrecords, results, hresults, rfl⟩ := h
  exact ⟨rfl, entries_addRecords hrecords, entries_addReceipts hresults⟩

/-- A change that was prepared has been made and checked. -/
theorem prepared {env : Surroundings} {change : Change Unit} {state : ContextCheckpoint}
    {m : Mutation} {Q : Mutation → Prop} (h : prepareMutation env change state = .ok m)
    (hchange : Returns change (fun _ => Q) (state.mutation env.createId))
    (hrevision : ∀ m revision, Q m → Q { m with state := { m.state with revision } }) :
    Q m ∧ validateCheckpoint m.state = .ok () := by
  unfold prepareMutation at h
  split at h
  · cases h
  · rename_i m₀ hrun
    simp only [bind_eq_ok, exists_unit, pure_eq_ok] at h
    obtain ⟨-, hvalid, rfl⟩ := h
    exact ⟨hrevision m₀ _ (wp_ok hchange hrun), hvalid⟩

/-- The revision does not matter. -/
theorem Outcome.withRevision {state : ContextCheckpoint} {besides : ContextRecord → Prop}
    {m : Mutation} (h : Outcome state besides m) (revision : ℕ) :
    Outcome state besides { m with state := { m.state with revision } } :=
  ⟨h.written, h.sealed⟩

/-- What an operation may write besides the last context of its change. -/
def Operation.Besides (state : ContextCheckpoint) : Operation → ContextRecord → Prop
  | .receive _, record | .receiveAvailable _, record =>
    ∃ delivery, validateDelivery delivery = .ok () ∧ record = .history delivery
  | .apply _ _ decision entries, record => PlanRecord decision entries state.context record
  | .commitSummaryPhase _ _ summary, record | .commitSummary _ _ summary, record =>
    SummaryRecord state summary record
  | _, _ => False

/-- The outcome of the change that an operation commits. -/
theorem Operation.Makes.outcome {state : ContextCheckpoint} {op : Operation} {change : Change Unit}
    {receiptKeys : List String} (h : op.Makes sha256 state change receiptKeys)
    (hlower : state.context.Lower) (createId : ℕ → String) :
    Returns change (fun _ => Outcome state (op.Besides state)) (state.mutation createId) := by
  have accept {fresh : List ContextDelivery} (hf : ∀ d ∈ fresh, validateDelivery d = .ok ()) :
      Returns (acceptDeliveries sha256 fresh) (fun _ => Outcome state fun record =>
        ∃ delivery, validateDelivery delivery = .ok () ∧ record = .history delivery)
        (state.mutation createId) := by
    refine wp_mono (acceptDeliveries_outcome sha256 state createId fresh) ?_ (fun _ _ h => h)
    intro _ m ho
    refine ⟨fun write hw => (ho.written write hw).imp id ?_, ho.sealed⟩
    exact fun ⟨delivery, hd, heq⟩ => ⟨delivery, hf delivery hd, heq⟩
  cases h with
  | receive hf => exact accept hf
  | receiveAvailable hf => exact accept hf
  | prepare hnone => exact drainInbox_outcome sha256 createId hnone
  | apply => exact applyRound_outcome createId _ _ _ hlower
  | beginSummaryAttempt => exact countAttempt_outcome createId
  | configureBudget => exact setBudgets_outcome createId _
  | retrySummary => exact resetAttempts_outcome createId
  | failSummary => exact recordFailure_outcome createId _ _
  | commitSummaryPhase => exact integrateSummary_outcome createId _ _
  | acknowledgeRound =>
    exact ⟨by simp [ContextCheckpoint.mutation], fun p hp => .inr ⟨rfl, p, hp, rfl⟩⟩
  | commitSummary => exact integrateSummary_outcome createId _ _

/-- An operation that commits appends the records of its outcome, and its state passes the check. -/
theorem Operation.Commits.outcome {env : Surroundings} {op : Operation} {s s' : Session}
    (h : op.Commits sha256 env s s') (hlower : s.state.context.Lower) :
    s'.key = s.key ∧ validateCheckpoint s'.state = .ok () ∧ ∃ m receipts,
      m.state = s'.state ∧ Outcome s.state (op.Besides s.state) m ∧
        Appended s.store s'.state m.writes receipts s'.store := by
  obtain ⟨change, receiptKeys, hmakes, hkey, m, hm, hcommit, hstate⟩ := h
  obtain ⟨ho, hvalid⟩ := prepared hm (hmakes.outcome sha256 hlower env.createId)
    fun _ revision h => h.withRevision revision
  have happ := commit_appended hcommit
  rw [← hstate] at hvalid happ
  exact ⟨hkey, hvalid, m, _, hstate.symm, ho, happ⟩

end Sessions

end OsAgent.Context
