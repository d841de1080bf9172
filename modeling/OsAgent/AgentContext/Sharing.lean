import OsAgent.AgentContext.Sessions
import OsAgent.Library.Interaction

/-!
# Managers that share a store

Several managers may be open on one key of one store, and the store may be the one in memory or the
SQLite database. An operation of a manager reads the store and then commits, and others may commit
between any two of its calls. `Operation.script` is an operation with its calls one at a time, and
`run_script` says that it is the operation of `Manager` when nothing comes in between.

The SQLite store inserts rows in one transaction and rolls back at the first that fails, so a commit
takes the same as that of the store in memory (`sqliteCommit_eq_ok`).
-/

namespace OsAgent.Context

open OsAgent.Library

/-! ## The SQLite store -/

section Sqlite

/-- The error of an `INSERT` under a primary key that is there. -/
def uniqueFailed (table : String) : Fault := .storage ("UNIQUE constraint failed: " ++ table)

/-- Undo everything if the body throws. -/
def transaction (body : EStateM Fault Namespace Unit) : EStateM Fault Namespace Unit := fun store =>
  match body store with
  | .ok _ store' => .ok () store'
  | .error e _ => .error e store

/-- Inserts a record, whose reference has to be new. -/
def insertRecord (write : ContextStoreWrite) : EStateM Fault Namespace Unit := do
  let store ← get
  (require (store.records.has write.ref = false) (uniqueFailed "agent_context_records") :
    Except Fault Unit)
  set { store with records := store.records.insert write }

/-- Inserts a receipt, whose key has to be new. -/
def insertReceipt (receipt : ContextReceipt) : EStateM Fault Namespace Unit := do
  let store ← get
  (require (store.receipts.has receipt.key = false) (uniqueFailed "agent_context_receipts") :
    Except Fault Unit)
  set { store with receipts := store.receipts.insert receipt }

/-- `SqliteContextStore.commit`, on the rows of one key. -/
def sqliteCommit (expectedRevision : Option ℕ) (checkpoint : ContextCheckpoint)
    (writes : List ContextStoreWrite) (receipts : List ContextReceipt) :
    EStateM Fault Namespace Unit := transaction do
  requireContext ((← get).state.map (·.revision) = expectedRevision)
    "检查点版本冲突，请重新恢复。" .storageConflict
  requireContext (checkpoint.revision = (expectedRevision.map (· + 1)).getD 0)
    "检查点版本必须逐次递增。" .storageConflict
  modify ({ · with state := some checkpoint })
  writes.forM insertRecord
  receipts.forM insertReceipt

/-- To insert records one by one is to add them. -/
theorem insertRecords_eq (writes : List ContextStoreWrite) (store : Namespace) :
    wp (writes.forM insertRecord)
      (fun _ s' => ∃ records, addRecords store.records writes = .ok records ∧
        s' = { store with records })
      (fun _ _ => ∃ e, addRecords store.records writes = .error e) store := by
  induction writes generalizing store with
  | nil => exact ⟨store.records, rfl, rfl⟩
  | cons write writes ih =>
    show wp (insertRecord write >>= fun _ => writes.forM insertRecord) _ _ store
    by_cases hnew : store.records.has write.ref = false
    · have hadd : addRecords store.records (write :: writes) =
          addRecords (store.records.insert write) writes := by
        simp [addRecords, requireContext, require, hnew, bind, Except.bind]
      simp only [insertRecord, wp_bind, wp_get, wp_lift, wp_set, require, hnew, if_true, hadd]
      exact ⟨fun _ _ => ih _, fun _ h => (by cases h)⟩
    · have hadd : ∃ e, addRecords store.records (write :: writes) = .error e := by
        simp [addRecords, requireContext, require, hnew, bind, Except.bind]
      simp only [insertRecord, wp_bind, wp_get, wp_lift, wp_set, require, hnew]
      exact ⟨fun _ h => (by cases h), fun _ _ => hadd⟩

/-- To insert receipts one by one is to add them. -/
theorem insertReceipts_eq (receipts : List ContextReceipt) (store : Namespace) :
    wp (receipts.forM insertReceipt)
      (fun _ s' => ∃ results, addReceipts store.receipts receipts = .ok results ∧
        s' = { store with receipts := results })
      (fun _ _ => ∃ e, addReceipts store.receipts receipts = .error e) store := by
  induction receipts generalizing store with
  | nil => exact ⟨store.receipts, rfl, rfl⟩
  | cons receipt receipts ih =>
    show wp (insertReceipt receipt >>= fun _ => receipts.forM insertReceipt) _ _ store
    by_cases hnew : store.receipts.has receipt.key = false
    · have hadd : addReceipts store.receipts (receipt :: receipts) =
          addReceipts (store.receipts.insert receipt) receipts := by
        simp [addReceipts, requireContext, require, hnew, bind, Except.bind]
      simp only [insertReceipt, wp_bind, wp_get, wp_lift, wp_set, require, hnew, if_true, hadd]
      exact ⟨fun _ _ => ih _, fun _ h => (by cases h)⟩
    · have hadd : ∃ e, addReceipts store.receipts (receipt :: receipts) = .error e := by
        simp [addReceipts, requireContext, require, hnew, bind, Except.bind]
      simp only [insertReceipt, wp_bind, wp_get, wp_lift, wp_set, require, hnew]
      exact ⟨fun _ h => (by cases h), fun _ _ => hadd⟩

/-- A transaction that fails leaves the store as it was. -/
theorem wp_transaction {body : EStateM Fault Namespace Unit} {Q : Unit → Namespace → Prop}
    {E : Fault → Namespace → Prop} {store : Namespace}
    (h : wp body Q (fun e _ => E e store) store) : wp (transaction body) Q E store := by
  unfold wp at h ⊢
  unfold transaction
  cases hb : body store <;> simp only [hb] at h ⊢ <;> exact h

/-- A commit to SQLite takes what a commit to the store in memory takes, or throws and takes
nothing. -/
theorem sqliteCommit_eq (store : Namespace) (expectedRevision : Option ℕ)
    (checkpoint : ContextCheckpoint) (writes : List ContextStoreWrite)
    (receipts : List ContextReceipt) :
    wp (sqliteCommit expectedRevision checkpoint writes receipts)
      (fun _ s' => store.commit expectedRevision checkpoint writes receipts = .ok s')
      (fun _ s' => s' = store ∧
        ∃ e, store.commit expectedRevision checkpoint writes receipts = .error e) store := by
  apply wp_transaction
  -- The revision is the expected one and the next one follows it, or the commit throws.
  by_cases hexpected : store.state.map (·.revision) = expectedRevision
  · by_cases hnext : checkpoint.revision = (expectedRevision.map (· + 1)).getD 0
    · simp only [wp_bind, wp_get, wp_lift, wp_modify, requireContext, require, hexpected, if_true,
        ← hnext]
      refine ⟨fun _ _ => ⟨fun _ _ => ?_, fun _ h => (by cases h)⟩, fun _ h => (by cases h)⟩
      -- The rows of the records go in one by one, and the first one that is there already throws.
      refine wp_mono (insertRecords_eq writes _) ?_ ?_
      · rintro _ _ ⟨records, hrecords, rfl⟩
        refine wp_mono (insertReceipts_eq receipts _) ?_ ?_
        · rintro _ _ ⟨results, hresults, rfl⟩
          simp [Namespace.commit, requireContext, require, hexpected, ← hnext, hrecords, hresults,
            bind, Except.bind, pure, Except.pure]
        · rintro _ _ ⟨e, hresults⟩
          simp [Namespace.commit, requireContext, require, hexpected, ← hnext, hrecords, hresults,
            bind, Except.bind]
      · rintro _ _ ⟨e, hrecords⟩
        simp [Namespace.commit, requireContext, require, hexpected, ← hnext, hrecords, bind,
          Except.bind]
    · simp only [wp_bind, wp_get, wp_lift, requireContext, require, hexpected, hnext, if_true,
        if_false]
      refine ⟨fun _ _ => ⟨fun _ h => (by cases h), fun _ _ => ?_⟩, fun _ h => (by cases h)⟩
      simp [Namespace.commit, requireContext, require, hexpected, hnext, bind, Except.bind]
  · simp only [wp_bind, wp_get, wp_lift, requireContext, require, hexpected, if_false]
    refine ⟨fun _ h => (by cases h), fun _ _ => ?_⟩
    simp [Namespace.commit, requireContext, require, hexpected, bind, Except.bind]

end Sqlite

/-! ## Operations, one call at a time -/

/-- The calls that an operation makes to its store. -/
inductive StoreRequest where
  | read (ref : String)
  | receipt (id : String)
  | commit (expectedRevision : Option ℕ) (checkpoint : ContextCheckpoint)
    (writes : List ContextStoreWrite) (receipts : List ContextReceipt)

/-- What a request to the store gives. -/
abbrev StoreRequest.Answer : StoreRequest → Type
  | .read _ => Option ContextRecord
  | .receipt _ => Option ContextReceipt
  | .commit .. => Unit

/-- A program that calls a store. -/
abbrev Script := Interaction StoreRequest StoreRequest.Answer Fault

/-- Make one call. -/
def StoreRequest.ask (c : StoreRequest) : Script c.Answer := Interaction.request c

/-- To ask is to be answered. -/
theorem wp_run_ask {σ : Type} (handle : (c : StoreRequest) → EStateM Fault σ c.Answer)
    (c : StoreRequest) {Q : c.Answer → σ → Prop} {E : Fault → σ → Prop} {s : σ} :
    wp (c.ask.run handle) Q E s ↔ wp (handle c) Q E s := Interaction.wp_run_request handle

namespace Script

section Manager

variable (sha256 : String → String) (env : Surroundings) (state : ContextCheckpoint)

/-- Reads a record, which is checked. -/
def read (ref : String) : Script (Option ContextRecord) := do
  let record : Option ContextRecord ← (StoreRequest.read ref).ask
  (checkIfPresent validateRecord record : Except Fault Unit)
  return record

/-- Reads a receipt. -/
def receipt (id : String) : Script (Option ContextReceipt) := (StoreRequest.receipt id).ask

/-- Prepares a change and asks for its commit. -/
def mutate (change : Change Unit) (receiptKeys : List String) : Script Unit := do
  let mutation ← prepareMutation env change state
  (StoreRequest.commit (some state.revision) mutation.state mutation.writes
    (receiptsOf mutation.state receiptKeys)).ask

/-- The deliveries that are new. -/
def freshDeliveries (fresh : List ContextDelivery) :
    List ContextDelivery → Script (List ContextDelivery)
  | [] => pure fresh
  | delivery :: deliveries => do
    validateDelivery delivery
    requireContext (byteLength (stringify delivery.toJson) ≤ state.policy.maxDeliveryBytes)
      "单次输入过大，请保存正文并投递引用。" .budgetExceeded
    let previous ← read (deliveryRef sha256 delivery.key)
    match fresh.find? (·.key = delivery.key), previous with
    | some duplicate, _ => do
      requireContext (sameDelivery duplicate delivery) "投递键已绑定其他输入。" .invalidInput
      freshDeliveries fresh deliveries
    | none, some (.history recorded) => do
      requireContext (sameDelivery recorded delivery) "投递键已绑定其他输入。" .invalidInput
      freshDeliveries fresh deliveries
    | none, some _ => .done (.error (.context .invalidInput "投递键已绑定其他输入。"))
    | none, none => freshDeliveries (fresh ++ [delivery]) deliveries

/-- Accepts deliveries that are new. -/
def receiveFresh (fresh : List ContextDelivery) : Script Unit :=
  if fresh.length = 0 then pure () else mutate env state (acceptDeliveries sha256 fresh) []

/-- Go on unless there is a receipt. -/
def unlessReceipt (id : String) (rest : Script Unit) : Script Unit := do
  let found ← receipt id
  if found.isSome then pure () else rest

end Manager

end Script

/-- An operation of a manager with a state, one call at a time. -/
def Operation.script (sha256 : String → String) (env : Surroundings) (state : ContextCheckpoint) :
    Operation → Script Unit
  | .receive deliveries => do
    let fresh ← Script.freshDeliveries sha256 state [] deliveries
    requireContext (state.inbox.length + fresh.length ≤ state.policy.maxInbox)
      "收件箱已满，来源系统需要保留并稍后重投。" .budgetExceeded
    Script.receiveFresh sha256 env state fresh
  | .receiveAvailable deliveries => do
    let fresh ← Script.freshDeliveries sha256 state [] deliveries
    Script.receiveFresh sha256 env state (fresh.take (state.policy.maxInbox - state.inbox.length))
  | .prepare =>
    if state.pendingSummary.isNone then Script.mutate env state (drainInbox sha256) [] else pure ()
  | .apply roundKey cursor decision entries => do
    text roundKey
    Script.unlessReceipt (roundKeyOf roundKey)
      (Script.mutate env state (applyRound cursor decision entries) [roundKeyOf roundKey])
  | .beginSummaryAttempt => Script.mutate env state countAttempt []
  | .configureBudget budget => do
    validateBudget budget
    if ∀ level ∈ [ContextLevel.one, .two, .three],
        stringify (state.policy.budgets level).toJson = stringify budget.toJson then pure ()
    else Script.mutate env state (setBudgets budget) []
  | .retrySummary => do
    requireContext state.pendingSummary.isSome "当前没有待总结请求。" .invalidState
    Script.mutate env state resetAttempts []
  | .failSummary id message => Script.mutate env state (recordFailure id message) []
  | .commitSummaryPhase roundKey id summary => do
    text roundKey
    text id
    Script.unlessReceipt (phaseKeyOf id) do
      let reported ← Script.receipt (summaryKeyOf roundKey)
      Script.mutate env state (integrateSummary id summary)
        (phaseKeyOf id :: if reported.isSome then [] else [summaryKeyOf roundKey])
  | .acknowledgeRound roundKey => do
    text roundKey
    Script.unlessReceipt (roundKeyOf roundKey) do
      let reported ← Script.receipt (summaryKeyOf roundKey)
      requireContext reported.isSome "批次尚未提交总结阶段。" .invalidState
      Script.mutate env state (pure ()) [roundKeyOf roundKey]
  | .commitSummary roundKey id summary => do
    text roundKey
    Script.unlessReceipt (roundKeyOf roundKey)
      (Script.mutate env state (integrateSummary id summary) [roundKeyOf roundKey])

/-! ## With nothing in between -/

section Alone

variable (sha256 : String → String) (env : Surroundings)

/-- The store of a session answers the session's manager. -/
def answerAlone : (c : StoreRequest) → Operate c.Answer
  | .read ref => do
    storeCall env (.read ref)
    return ((← get).store.records.get? ref).map ContextStoreWrite.record
  | .receipt id => receipt env id
  | .commit expectedRevision checkpoint writes receipts => do
    storeCall env .commit
    let s ← get
    let store ← s.store.commit expectedRevision checkpoint writes receipts
    set { s with state := checkpoint, store }

variable {Q : Unit → Session → Prop} {E : Fault → Session → Prop} {s : Session}

/-- To read in a script is to read. -/
theorem wp_run_read {Q : Option ContextRecord → Session → Prop} (ref : String) :
    wp ((Script.read ref).run (answerAlone env)) Q E s ↔ wp (read env ref) Q E s := by
  rw [Script.read, Interaction.wp_run_bind]
  refine (wp_run_ask _ _).trans ?_
  simp [read, answerAlone]

/-- To read a receipt in a script is to read it. -/
theorem wp_run_receipt {Q : Option ContextReceipt → Session → Prop} (id : String) :
    wp ((Script.receipt id).run (answerAlone env)) Q E s ↔ wp (receipt env id) Q E s :=
  wp_run_ask _ _

/-- To change in a script is to change. -/
theorem wp_run_mutate (change : Change Unit) (receiptKeys : List String) :
    wp ((Script.mutate env s.state change receiptKeys).run (answerAlone env)) Q E s ↔
      wp (mutate env change receiptKeys) Q E s := by
  simp only [Script.mutate, mutate, Interaction.wp_run_bind, Interaction.wp_run_lift, wp_bind,
    wp_get, wp_lift]
  refine and_congr_left' (forall₂_congr fun mutation _ => (wp_run_ask _ _).trans ?_)
  simp [answerAlone]

/-- What follows a read starts from the session as it was. -/
theorem wp_read_congr {Q Q' : Option ContextRecord → Session → Prop} (ref : String)
    (h : ∀ record, Q record s ↔ Q' record s) :
    wp (read env ref) Q E s ↔ wp (read env ref) Q' E s := by
  simp [read, h]

/-- What follows a receipt matters for the state alone. -/
theorem wp_receipt_congr {Q Q' : Option ContextReceipt → Session → Prop} (id : String)
    (h : ∀ r, Q r s ↔ Q' r s) : wp (receipt env id) Q E s ↔ wp (receipt env id) Q' E s := by
  simp [receipt, h]

/-- To look for new deliveries in a script is to look for them. -/
theorem wp_run_freshDeliveries {Q : List ContextDelivery → Session → Prop}
    (fresh deliveries : List ContextDelivery) :
    wp ((Script.freshDeliveries sha256 s.state fresh deliveries).run (answerAlone env)) Q E s ↔
      wp (freshDeliveries sha256 env fresh deliveries) Q E s := by
  induction deliveries generalizing fresh with
  | nil => exact Iff.rfl
  | cons delivery deliveries ih =>
    simp only [Script.freshDeliveries, freshDeliveries, Interaction.wp_run_bind,
      Interaction.wp_run_lift, wp_bind, wp_lift, wp_get, wp_run_read]
    refine and_congr_left' (forall₂_congr fun _ _ => and_congr_left' (forall₂_congr fun _ _ => ?_))
    refine wp_read_congr env _ fun previous => ?_
    cases fresh.find? (·.key = delivery.key) with
    | some duplicate =>
      simp only [Interaction.wp_run_bind, Interaction.wp_run_lift, wp_bind, wp_lift, ih]
    | none =>
      rcases previous with _ | recorded | _ | _
      · exact ih _
      · simp only [Interaction.wp_run_bind, Interaction.wp_run_lift, wp_bind, wp_lift, ih]
      · exact Iff.rfl
      · exact Iff.rfl

/-- To accept deliveries in a script is to accept them. -/
theorem wp_run_receiveFresh (fresh : List ContextDelivery) :
    wp ((Script.receiveFresh sha256 env s.state fresh).run (answerAlone env)) Q E s ↔
      wp (receiveFresh sha256 env fresh) Q E s := by
  simp only [Script.receiveFresh, receiveFresh, Interaction.wp_run_ite, wp_ite, wp_run_mutate]
  rfl

/-- To go on without a receipt in a script is to do so. -/
theorem wp_run_unlessReceipt {rest : Script Unit} {body : Operate Unit} (id : String)
    (h : wp (rest.run (answerAlone env)) Q E s ↔ wp body Q E s) :
    wp ((Script.unlessReceipt id rest).run (answerAlone env)) Q E s ↔
      wp (receipt env id >>= fun r => if r.isSome then pure () else body) Q E s := by
  simp only [Script.unlessReceipt, Interaction.wp_run_bind, wp_run_receipt, wp_bind]
  refine wp_receipt_congr env id fun r => ?_
  simp only [Interaction.wp_run_ite, wp_ite, h]
  rfl

/-- The script of an operation, with nothing in between its calls, is the operation. -/
theorem run_script (op : Operation) :
    (op.script sha256 env s.state).run (answerAlone env) s = op.perform sha256 env s := by
  refine eq_of_wp_iff fun Q E => ?_
  -- Call by call: each is answered from the state that the script began in, which no call before it changed.
  cases op with
  | receive deliveries =>
    simp only [Operation.script, Operation.perform, receive, Interaction.wp_run_bind,
      wp_run_freshDeliveries, wp_bind]
    refine wp_congr_of (freshDeliveries_valid sha256 env s deliveries (List.forall_mem_nil _)) ?_
      (fun _ _ _ => Iff.rfl)
    rintro fresh _ ⟨rfl, -⟩
    simp only [Interaction.wp_run_lift, wp_run_receiveFresh, wp_get, wp_lift]
  | receiveAvailable deliveries =>
    simp only [Operation.script, Operation.perform, receiveAvailable, Interaction.wp_run_bind,
      wp_run_freshDeliveries, wp_bind]
    refine wp_congr_of (freshDeliveries_valid sha256 env s deliveries (List.forall_mem_nil _)) ?_
      (fun _ _ _ => Iff.rfl)
    rintro fresh _ ⟨rfl, -⟩
    simp only [wp_run_receiveFresh, wp_get, wp_pure]
  | prepare =>
    simp only [Operation.script, Operation.perform, Context.prepare, Interaction.wp_run_ite,
      wp_run_mutate, wp_bind, wp_get, wp_ite, wp_pure]
    rfl
  | apply roundKey cursor decision entries =>
    simp only [Operation.script, Operation.perform, Context.apply, Interaction.wp_run_bind,
      Interaction.wp_run_lift]
    rw [wp_bind, wp_lift]
    -- Checks come first in both, and do not look at the store.
    refine and_congr_left' (forall₂_congr fun _ _ => ?_)
    exact wp_run_unlessReceipt env _ (wp_run_mutate env _ _)
  | beginSummaryAttempt =>
    simp only [Operation.script, Operation.perform, Context.beginSummaryAttempt, wp_run_mutate,
      wp_bind, wp_get, wp_pure]
  | configureBudget budget =>
    simp only [Operation.script, Operation.perform, Context.configureBudget,
      Interaction.wp_run_bind, Interaction.wp_run_lift, Interaction.wp_run_ite, wp_run_mutate,
      wp_bind, wp_get, wp_lift, wp_ite]
    rfl
  | retrySummary =>
    simp only [Operation.script, Operation.perform, Context.retrySummary, Interaction.wp_run_bind,
      Interaction.wp_run_lift, wp_run_mutate, wp_bind, wp_get, wp_lift]
  | failSummary id message => exact wp_run_mutate env _ _
  | commitSummaryPhase roundKey id summary =>
    simp only [Operation.script, Operation.perform, Context.commitSummaryPhase,
      Interaction.wp_run_bind, Interaction.wp_run_lift]
    rw [wp_bind, wp_lift]
    -- The two checks come first in both.
    refine and_congr_left' (forall₂_congr fun _ _ => ?_)
    rw [wp_bind, wp_lift]
    refine and_congr_left' (forall₂_congr fun _ _ => ?_)
    refine wp_run_unlessReceipt env _ ?_
    simp only [Interaction.wp_run_bind, wp_run_receipt, wp_bind, summaryReceipt]
    exact wp_receipt_congr env _ fun _ => wp_run_mutate env _ _
  | acknowledgeRound roundKey =>
    simp only [Operation.script, Operation.perform, Context.acknowledgeRound,
      Interaction.wp_run_bind, Interaction.wp_run_lift]
    rw [wp_bind, wp_lift]
    -- The check comes first in both.
    refine and_congr_left' (forall₂_congr fun _ _ => ?_)
    refine wp_run_unlessReceipt env _ ?_
    simp only [Interaction.wp_run_bind, Interaction.wp_run_lift, wp_run_receipt, wp_bind, wp_lift,
      summaryReceipt]
    exact wp_receipt_congr env _ fun _ =>
      and_congr_left' (forall₂_congr fun _ _ => wp_run_mutate env _ _)
  | commitSummary roundKey id summary =>
    simp only [Operation.script, Operation.perform, Context.commitSummary,
      Interaction.wp_run_bind, Interaction.wp_run_lift]
    rw [wp_bind, wp_lift]
    refine and_congr_left' (forall₂_congr fun _ _ => ?_)
    exact wp_run_unlessReceipt env _ (wp_run_mutate env _ _)

end Alone

end OsAgent.Context
