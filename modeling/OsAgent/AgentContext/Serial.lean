import OsAgent.AgentContext.Durability
import OsAgent.AgentContext.Sharing
import OsAgent.Library.Keyed

/-!
# Managers on one key

Any number of managers on one key of one store, created, restored and closed at any time, each in the
middle of at most one operation. Between any two calls of an operation the others may do anything.
`log` is what was committed so far, with the operation and the state from which each commit was
computed, and `serial_of_reachable` is what holds of it after any run: the commits form one line, each
computed from the one before.

A store compares the expected revision with its own and takes every receipt once. The first keeps the
commits in line, and the second lets a round or a summary take effect once.
-/

namespace OsAgent.Context

open OsAgent.Library

/-! ## The two stores -/

/-- The two stores. -/
inductive StoreKind where
  | memory
  | sqlite
deriving DecidableEq, Repr

/-- What the calls of a store return and make of it. -/
def StoreKind.answer : StoreKind → (c : StoreRequest) → EStateM Fault Namespace c.Answer
  | .memory, .read ref => do return ((← get).records.get? ref).map ContextStoreWrite.record
  | .sqlite, .read ref => do
    let record := ((← get).records.get? ref).map ContextStoreWrite.record
    (checkIfPresent validateRecord record : Except Fault Unit)
    return record
  | .memory, .receipt id => do return (← get).receipts.get? id
  | .sqlite, .receipt id => do
    let receipt := (← get).receipts.get? id
    (checkIfPresent (fun value : ContextReceipt =>
      requireContext (value.key = id) "轮次回执损坏。" .invalidInput) receipt : Except Fault Unit)
    return receipt
  | .memory, .commit expectedRevision checkpoint writes receipts => do
    let store ← (← get).commit expectedRevision checkpoint writes receipts
    set store
  | .sqlite, .commit expectedRevision checkpoint writes receipts =>
    sqliteCommit expectedRevision checkpoint writes receipts

/-- Whether a call is a commit. -/
def StoreRequest.commits : StoreRequest → Bool
  | .commit .. => true
  | _ => false

/-- A call that only reads. -/
abbrev StoreRequest.Reads (c : StoreRequest) : Prop := c.commits = false

/-- Only a commit changes a store. -/
theorem answer_unchanged (kind : StoreKind) {c : StoreRequest} (hc : c.Reads)
    (store : Namespace) : Ends (kind.answer c) (· = store) store := by
  cases c with
  | read ref => cases kind <;> simp [StoreKind.answer, Ends]
  | receipt id => cases kind <;> simp [StoreKind.answer, Ends]
  | commit => cases hc

/-- Both stores take the same commits, and are as they were when they throw. -/
theorem answer_commit (kind : StoreKind) (store : Namespace) (expectedRevision : Option ℕ)
    (checkpoint : ContextCheckpoint) (writes : List ContextStoreWrite)
    (receipts : List ContextReceipt) :
    wp (kind.answer (.commit expectedRevision checkpoint writes receipts))
      (fun _ store' => store.commit expectedRevision checkpoint writes receipts = .ok store')
      (fun _ store' => store' = store ∧
        ∃ e, store.commit expectedRevision checkpoint writes receipts = .error e) store := by
  cases kind with
  | memory =>
    simp only [StoreKind.answer, wp_bind, wp_get, wp_lift, wp_set]
    exact ⟨fun _ h => h, fun e h => ⟨trivial, e, h⟩⟩
  | sqlite => exact sqliteCommit_eq store expectedRevision checkpoint writes receipts

/-- A store takes a commit that can be made. -/
theorem answer_commit_ok (kind : StoreKind) {store store' : Namespace} {expectedRevision : Option ℕ}
    {checkpoint : ContextCheckpoint} {writes : List ContextStoreWrite}
    {receipts : List ContextReceipt}
    (h : store.commit expectedRevision checkpoint writes receipts = .ok store') :
    kind.answer (.commit expectedRevision checkpoint writes receipts) store = .ok () store' := by
  have hwp := answer_commit kind store expectedRevision checkpoint writes receipts
  cases hanswer : kind.answer (.commit expectedRevision checkpoint writes receipts) store with
  | ok a store'' =>
    have hcommit := wp_ok hwp hanswer
    obtain rfl := Except.ok.inj (h.symm.trans hcommit)
    rfl
  | error e store'' =>
    obtain ⟨-, e', he⟩ := wp_error hwp hanswer
    rw [h] at he
    cases he

/-- A commit is taken only on top of the revision that it expects, and counts it up. -/
theorem commit_revisions {store store' : Namespace} {expectedRevision : Option ℕ}
    {checkpoint : ContextCheckpoint} {writes : List ContextStoreWrite}
    {receipts : List ContextReceipt}
    (h : store.commit expectedRevision checkpoint writes receipts = .ok store') :
    store.state.map (·.revision) = expectedRevision ∧
      checkpoint.revision = (expectedRevision.map (· + 1)).getD 0 := by
  simp only [Namespace.commit, bind_eq_ok, exists_unit, requireContext_eq_ok] at h
  exact ⟨h.1, h.2.1⟩

/-- The receipts of a store have distinct keys. -/
theorem nodup_receipts (store : Namespace) :
    (store.receipts.entries.map ContextReceipt.key).Nodup := store.receipts.nodup

/-! ## What an operation computes -/

section Computed

variable (sha256 : String → String) (env : Surroundings)

/-- The receipt that lets an operation take effect once. -/
def Operation.receiptKey : Operation → Option String
  | .apply roundKey .. | .acknowledgeRound roundKey | .commitSummary roundKey .. =>
    some (roundKeyOf roundKey)
  | .commitSummaryPhase _ id _ => some (phaseKeyOf id)
  | _ => none

/-- What an operation commits in a state: the change that is named for it, made and checked, with its
receipts. -/
structure Operation.Computes (op : Operation) (state checkpoint : ContextCheckpoint)
    (writes : List ContextStoreWrite) (receipts : List ContextReceipt) : Prop where
  made : ∃ change receiptKeys m, op.Makes sha256 state change receiptKeys ∧
    (∀ key ∈ op.receiptKey, key ∈ receiptKeys) ∧ prepareMutation env change state = .ok m ∧
    checkpoint = m.state ∧ writes = m.writes ∧ receipts = receiptsOf m.state receiptKeys

/-- An operation in a state reads, and makes at most one commit, which is its last call. -/
inductive Operation.Mutates (op : Operation) (state : ContextCheckpoint) : Script Unit → Prop
  | done (result : Except Fault Unit) : Mutates op state (.done result)
  | read (c : StoreRequest) (next : Except Fault c.Answer → Script Unit) (hc : c.Reads)
    (hok : ∀ a, Mutates op state (next (.ok a))) (herror : ∀ e, next (.error e) = .done (.error e)) :
    Mutates op state (.call c next)
  | commit {checkpoint : ContextCheckpoint} {writes : List ContextStoreWrite}
    {receipts : List ContextReceipt}
    (h : op.Computes sha256 env state checkpoint writes receipts) :
    Mutates op state (.call (.commit (some state.revision) checkpoint writes receipts) .done)

variable {op : Operation} {state : ContextCheckpoint}

/-- Reading before. -/
theorem mutates_bind {β : Type} {R : β → Prop} {x : Script β} {f : β → Script Unit}
    (hx : Interaction.Calls StoreRequest.Reads R x)
    (hf : ∀ b, R b → op.Mutates sha256 env state (f b)) : op.Mutates sha256 env state (x >>= f) := by
  show op.Mutates sha256 env state (x.bind f)
  induction hx with
  | done result h =>
    cases result with
    | ok a => exact hf a (h a rfl)
    | error e => exact .done _
  | call c next h _ herror ih =>
    refine .read c _ h ih fun e => ?_
    rw [herror e]
    rfl

/-- A check before what reads and commits. -/
theorem mutates_check {x : Except Fault Unit} {rest : Script Unit}
    (h : op.Mutates sha256 env state rest) :
    op.Mutates sha256 env state ((liftM x : Script Unit) >>= fun _ => rest) :=
  mutates_bind sha256 env (Interaction.calls_lift x) fun _ _ => h

/-- To ask for something to read is a read. -/
theorem calls_ask {c : StoreRequest} (hc : c.Reads) :
    Interaction.Calls StoreRequest.Reads (fun _ => True) c.ask := by
  unfold StoreRequest.ask
  exact Interaction.calls_request hc

/-- To ask for a receipt is a read. -/
theorem calls_receipt (id : String) :
    Interaction.Calls StoreRequest.Reads (fun _ => True) (Script.receipt id) :=
  calls_ask (c := .receipt id) rfl

/-- What is done without a receipt reads and commits. -/
theorem mutates_unlessReceipt {id : String} {rest : Script Unit}
    (h : op.Mutates sha256 env state rest) :
    op.Mutates sha256 env state (Script.unlessReceipt id rest) := by
  refine mutates_bind sha256 env (calls_receipt id) fun found _ => ?_
  split_ifs
  · exact .done _
  · exact h

/-- A change is one commit. -/
theorem mutates_mutate {change : Change Unit} {receiptKeys : List String}
    (h : op.Makes sha256 state change receiptKeys) (hkey : ∀ key ∈ op.receiptKey, key ∈ receiptKeys) :
    op.Mutates sha256 env state (Script.mutate env state change receiptKeys) := by
  refine mutates_bind sha256 env (Interaction.calls_lift _) fun m hm => ?_
  exact .commit ⟨⟨change, receiptKeys, m, h, hkey, hm, rfl, rfl, rfl⟩⟩

/-- The deliveries that are found new have passed their check. -/
theorem calls_freshDeliveries {fresh : List ContextDelivery} (deliveries : List ContextDelivery)
    (h : ∀ d ∈ fresh, validateDelivery d = .ok ()) :
    Interaction.Calls StoreRequest.Reads
      (fun fresh => ∀ d ∈ fresh, validateDelivery d = .ok ())
      (Script.freshDeliveries sha256 state fresh deliveries) := by
  have hread (ref : String) :
      Interaction.Calls StoreRequest.Reads (fun _ => True) (Script.read ref) := by
    refine Interaction.calls_bind (calls_ask (c := .read ref) rfl) fun record _ => ?_
    exact Interaction.calls_bind (Interaction.calls_lift _) fun _ _ => Interaction.calls_pure trivial
  induction deliveries generalizing fresh with
  | nil => exact Interaction.calls_pure h
  | cons delivery deliveries ih =>
    refine Interaction.calls_bind (Interaction.calls_lift _) fun _ hvalid => ?_
    refine Interaction.calls_bind (Interaction.calls_lift _) fun _ _ => ?_
    refine Interaction.calls_bind (hread _) fun previous _ => ?_
    split
    · exact Interaction.calls_bind (Interaction.calls_lift _) fun _ _ => ih h
    · exact Interaction.calls_bind (Interaction.calls_lift _) fun _ _ => ih h
    · exact .done _ (fun _ h => (by cases h))
    · refine ih fun d hd => ?_
      rcases List.mem_append.mp hd with hold | hnew
      · exact h d hold
      · rwa [List.mem_singleton.mp hnew]

/-- To accept deliveries is one commit, or none. -/
theorem mutates_receiveFresh {fresh : List ContextDelivery}
    (h : op.Makes sha256 state (acceptDeliveries sha256 fresh) []) (hkey : op.receiptKey = none) :
    op.Mutates sha256 env state (Script.receiveFresh sha256 env state fresh) := by
  unfold Script.receiveFresh
  split_ifs
  · exact .done _
  · exact mutates_mutate sha256 env h (by simp [hkey])

/-- Every operation reads, then commits its change. -/
theorem script_mutates (op : Operation) (state : ContextCheckpoint) :
    op.Mutates sha256 env state (op.script sha256 env state) := by
  -- By the operation, following its script: checks and reads, then one commit.
  cases op with
  | receive deliveries =>
    refine mutates_bind sha256 env (calls_freshDeliveries sha256 deliveries (List.forall_mem_nil _))
      fun fresh h => ?_
    exact mutates_check sha256 env (mutates_receiveFresh sha256 env (.receive h) rfl)
  | receiveAvailable deliveries =>
    refine mutates_bind sha256 env (calls_freshDeliveries sha256 deliveries (List.forall_mem_nil _))
      fun fresh h => ?_
    refine mutates_receiveFresh sha256 env (.receiveAvailable fun d hd => ?_) rfl
    exact h d (List.mem_of_mem_take hd)
  | prepare =>
    unfold Operation.script
    split_ifs with hnone
    · exact mutates_mutate sha256 env (.prepare (Option.isNone_iff_eq_none.mp hnone))
        (fun _ h => (by cases h))
    · exact .done _
  | apply roundKey cursor decision entries =>
    refine mutates_check sha256 env (mutates_unlessReceipt sha256 env ?_)
    exact mutates_mutate sha256 env .apply (by simp [Operation.receiptKey])
  | beginSummaryAttempt =>
    exact mutates_mutate sha256 env .beginSummaryAttempt (fun _ h => (by cases h))
  | configureBudget budget =>
    refine mutates_check sha256 env ?_
    split_ifs
    · exact .done _
    · exact mutates_mutate sha256 env .configureBudget (fun _ h => (by cases h))
  | retrySummary =>
    exact mutates_check sha256 env
      (mutates_mutate sha256 env .retrySummary (fun _ h => (by cases h)))
  | failSummary id message => exact mutates_mutate sha256 env .failSummary (fun _ h => (by cases h))
  | commitSummaryPhase roundKey id summary =>
    refine mutates_check sha256 env (mutates_check sha256 env ?_)
    refine mutates_unlessReceipt sha256 env ?_
    refine mutates_bind sha256 env (calls_receipt _) fun reported _ => ?_
    exact mutates_mutate sha256 env (.commitSummaryPhase _) (by simp [Operation.receiptKey])
  | acknowledgeRound roundKey =>
    refine mutates_check sha256 env (mutates_unlessReceipt sha256 env ?_)
    refine mutates_bind sha256 env (calls_receipt _) fun reported _ => ?_
    refine mutates_check sha256 env ?_
    exact mutates_mutate sha256 env .acknowledgeRound (by simp [Operation.receiptKey])
  | commitSummary roundKey id summary =>
    refine mutates_check sha256 env (mutates_unlessReceipt sha256 env ?_)
    exact mutates_mutate sha256 env .commitSummary (by simp [Operation.receiptKey])

end Computed

/-! ## Managers on one store -/

/-- An open manager: its state, and what is left of the operation that it is in. -/
structure Instance where
  state : ContextCheckpoint
  running : Option (Operation × Script Unit)

/-- A commit: the operation and the state from which it was computed, unless it created a manager,
and what was committed. -/
structure Commit where
  cause : Option (Operation × ContextCheckpoint)
  checkpoint : ContextCheckpoint
  receipts : List ContextReceipt

/-- A store with the managers that are open on it, and what was committed so far. -/
structure Shared (ι : Type) where
  store : Namespace
  managers : ι → Option Instance
  log : List Commit

/-- What a manager's memory is after a call that succeeded. -/
def StoreRequest.published (c : StoreRequest) (state : ContextCheckpoint) : ContextCheckpoint :=
  match c with
  | .commit _ checkpoint _ _ => checkpoint
  | _ => state

/-- What a call that succeeded adds to the log. -/
def StoreRequest.logged (c : StoreRequest) (op : Operation) (state : ContextCheckpoint) :
    List Commit :=
  match c with
  | .commit _ checkpoint _ receipts => [⟨some (op, state), checkpoint, receipts⟩]
  | _ => []

/-! ## The line of commits -/

section Line

variable {ι : Type} (sha256 : String → String)

/-- Every commit of an operation was computed from the commit before it. -/
def InLine (log : List Commit) : Prop :=
  ∀ before commit after, log = before ++ commit :: after → ∀ op base,
    commit.cause = some (op, base) → before.getLast?.map Commit.checkpoint = some base ∧
      commit.checkpoint.revision = base.revision + 1 ∧ ∃ env writes,
        op.Computes sha256 env base commit.checkpoint writes commit.receipts

/-- What holds of managers that share a store. -/
structure Shared.Serial (s : Shared ι) : Prop where
  saved : s.store.state = s.log.getLast?.map Commit.checkpoint
  numbered : s.log.map (fun commit => commit.checkpoint.revision) = List.range s.log.length
  receipts : s.store.receipts.entries = s.log.flatMap Commit.receipts
  inLine : InLine sha256 s.log
  held : ∀ i m, s.managers i = some m → m.state ∈ s.log.map Commit.checkpoint
  running : ∀ i m op script, s.managers i = some m → m.running = some (op, script) →
    ∃ env, op.Mutates sha256 env m.state script

variable {sha256} {kind : StoreKind} {s : Shared ι}

/-- A commit on top of the last one. -/
theorem InLine.concat {log : List Commit} (h : InLine sha256 log) {commit : Commit}
    (hcommit : ∀ op base, commit.cause = some (op, base) →
      log.getLast?.map Commit.checkpoint = some base ∧
      commit.checkpoint.revision = base.revision + 1 ∧ ∃ env writes,
        op.Computes sha256 env base commit.checkpoint writes commit.receipts) :
    InLine sha256 (log ++ [commit]) := by
  intro before c after heq op base hcause
  rcases eq_append_cons_of_concat heq with ⟨rfl, rfl, -⟩ | ⟨rest, rfl⟩
  · exact hcommit op base hcause
  · exact h before c rest rfl op base hcause

/-- Two committed checkpoints of one revision are one. -/
theorem Shared.Serial.eq_of_revision (h : s.Serial sha256) {state last : ContextCheckpoint}
    (hstate : state ∈ s.log.map Commit.checkpoint)
    (hlast : s.log.getLast?.map Commit.checkpoint = some last)
    (hrevision : last.revision = state.revision) : last = state := by
  have hnodup : ((s.log.map Commit.checkpoint).map (·.revision)).Nodup := by
    rw [List.map_map]
    exact (h.numbered ▸ List.nodup_range :)
  obtain ⟨commit, hcommit, rfl⟩ := Option.map_eq_some_iff.mp hlast
  have hmem := List.mem_map_of_mem (f := Commit.checkpoint) (List.mem_of_getLast? hcommit)
  exact List.inj_on_of_nodup_map hnodup hmem hstate hrevision

/-- The revision after the last one is the number of commits. -/
theorem Shared.Serial.next_revision (h : s.Serial sha256) {expectedRevision : Option ℕ}
    (hstore : s.store.state.map (·.revision) = expectedRevision) :
    (expectedRevision.map (· + 1)).getD 0 = s.log.length := by
  have hlast : (s.log.map fun commit => commit.checkpoint.revision).getLast? =
      (List.range s.log.length).getLast? := by rw [h.numbered]
  rw [List.getLast?_map, List.getLast?_range] at hlast
  have hrevision : s.store.state.map (·.revision) =
      s.log.getLast?.map fun commit => commit.checkpoint.revision := by
    rw [h.saved, Option.map_map]
    rfl
  rw [← hstore, hrevision, hlast]
  split_ifs with hempty
  · simpa using hempty.symm
  · simp only [Option.map_some, Option.getD_some]
    omega

/-- Whether a commit is the one of `apply` or `commitSummary` for a round. -/
def Commit.completes (roundKey : String) (commit : Commit) : Bool :=
  match commit.cause with
  | some (.apply key .., _) | some (.commitSummary key .., _) => key = roundKey
  | _ => false

/-- Whether a commit is the one of `commitSummaryPhase` for a summary. -/
def Commit.integrates (id : String) (commit : Commit) : Bool :=
  match commit.cause with
  | some (.commitSummaryPhase _ key _, _) => key = id
  | _ => false

/-- At most one commit took a receipt. -/
theorem Shared.Serial.once (h : s.Serial sha256) (id : String) {p : Commit → Bool}
    (hp : ∀ commit, p commit = true →
      ∃ op base, commit.cause = some (op, base) ∧ op.receiptKey = some id) :
    (s.log.filter p).length ≤ 1 := by
  have hnodup : (s.log.flatMap fun commit => commit.receipts.map ContextReceipt.key).Nodup := by
    rw [← List.map_flatMap, ← h.receipts]
    exact nodup_receipts s.store
  refine length_filter_le_one (b := id) hnodup fun commit hcommit hpc => ?_
  obtain ⟨op, base, hcause, hid⟩ := hp commit hpc
  obtain ⟨before, after, hsplit⟩ := List.append_of_mem hcommit
  obtain ⟨-, -, env, writes, ⟨change, receiptKeys, m, -, hkeys, -, -, -, hreceipts⟩⟩ :=
    h.inLine before commit after hsplit op base hcause
  have hkey : id ∈ receiptKeys := hkeys id hid
  rw [hreceipts, receiptsOf, List.map_map]
  simpa using hkey

/-- The next call of an operation: a read, or the commit of what the operation computed. -/
theorem Operation.Mutates.call {env : Surroundings} {op : Operation} {state : ContextCheckpoint}
    {c : StoreRequest} {next : Except Fault c.Answer → Script Unit}
    (h : op.Mutates sha256 env state (.call c next)) :
    (∀ e, next (.error e) = .done (.error e)) ∧
      ((c.Reads ∧ ∀ a, op.Mutates sha256 env state (next (.ok a))) ∨
        ∃ checkpoint writes receipts, op.Computes sha256 env state checkpoint writes receipts ∧
          c = .commit (some state.revision) checkpoint writes receipts ∧
          ∀ a, ∃ result, next (.ok a) = .done result) := by
  cases h with
  | read c next hc hok herror => exact ⟨herror, .inl ⟨hc, hok⟩⟩
  | commit h => exact ⟨fun _ => rfl, .inr ⟨_, _, _, h, rfl, fun a => ⟨_, rfl⟩⟩⟩

/-- A store that refuses a call is as it was. -/
theorem refused_unchanged {c : StoreRequest} {store store' : Namespace} {e : Fault}
    (h : kind.answer c store = .error e store') : store' = store := by
  have hwp : wp (kind.answer c) (fun _ _ => True) (fun _ s => s = store) store := by
    cases c with
    | commit => exact wp_mono (answer_commit kind store _ _ _ _) (fun _ _ _ => trivial) fun _ _ h => h.1
    | _ => exact wp_mono (answer_unchanged kind rfl store) (fun _ _ _ => trivial) fun _ _ h => h
  exact wp_error (E := fun _ s => s = store) hwp h

/-- A commit on a state that is not the latest is refused. -/
theorem Shared.Serial.refused (h : s.Serial sha256) {i : ι} {state : ContextCheckpoint}
    {op : Operation} {c : StoreRequest} {next : Except Fault c.Answer → Script Unit}
    (hi : s.managers i = some ⟨state, some (op, .call c next)⟩) (hc : c.commits = true)
    (hstale : s.store.state ≠ some state) :
    ∃ e, kind.answer c s.store = .error e s.store := by
  obtain ⟨env, hmutates⟩ : ∃ env, op.Mutates sha256 env state (.call c next) :=
    h.running i _ op _ hi rfl
  rcases hmutates.call.2 with ⟨hreads, -⟩ | ⟨checkpoint, writes, receipts, -, rfl, -⟩
  · simp [StoreRequest.Reads, hc] at hreads
  · cases hanswer : kind.answer (.commit (some state.revision) checkpoint writes receipts) s.store with
    | ok a store =>
      have hstore := wp_ok (answer_commit kind s.store _ _ _ _) hanswer
      obtain ⟨hexpected, -⟩ := commit_revisions hstore
      obtain ⟨last, hlast, hrevision⟩ := Option.map_eq_some_iff.mp hexpected
      obtain rfl := h.eq_of_revision (h.held i _ hi) (h.saved.symm.trans hlast) hrevision
      exact absurd hlast hstale
    | error e store =>
      obtain rfl := refused_unchanged hanswer
      exact ⟨e, rfl⟩

end Line

/-! ## Runs -/

section Runs

variable {ι : Type} [DecidableEq ι]

/-- The managers with one of them replaced. -/
def Shared.manages (s : Shared ι) (i : ι) (manager : Option Instance) : ι → Option Instance :=
  Function.update s.managers i manager

variable (sha256 : String → String) (kind : StoreKind) (key : String)

/-- The steps of managers that share a store. A restoration reads its checkpoint and the source of its
summary at once: the source was committed with the checkpoint and never changes. -/
inductive Shared.Step (s : Shared ι) : Shared ι → Prop
  | create (i : ι) (env : Surroundings) (options : ContextManagerOptions) (created : Session)
    (hi : s.managers i = none) (hkey : options.key = key)
    (h : createAgentContextManager env options s.store = .ok created) :
    Step s ⟨created.store, s.manages i (some ⟨created.state, none⟩),
      s.log ++ [⟨none, created.state, []⟩]⟩
  | restore (i : ι) (env : Surroundings) (restored : Session) (hi : s.managers i = none)
    (h : restoreAgentContextManager env key s.store = .ok restored) :
    Step s { s with managers := s.manages i (some ⟨restored.state, none⟩) }
  /-- A manager is given up, or its process ends, at any moment. -/
  | close (i : ι) : Step s { s with managers := s.manages i none }
  | start (i : ι) (state : ContextCheckpoint) (env : Surroundings) (op : Operation)
    (hi : s.managers i = some ⟨state, none⟩) :
    Step s { s with
      managers := s.manages i (some ⟨state, some (op, op.script sha256 env state)⟩) }
  | answer (i : ι) (state : ContextCheckpoint) (op : Operation) (c : StoreRequest)
    (next : Except Fault c.Answer → Script Unit) (a : c.Answer) (store : Namespace)
    (hi : s.managers i = some ⟨state, some (op, .call c next)⟩)
    (h : kind.answer c s.store = .ok a store) :
    Step s ⟨store, s.manages i (some ⟨c.published state, some (op, next (.ok a))⟩),
      s.log ++ c.logged op state⟩
  | refuse (i : ι) (state : ContextCheckpoint) (op : Operation) (c : StoreRequest)
    (next : Except Fault c.Answer → Script Unit) (e : Fault) (store : Namespace)
    (hi : s.managers i = some ⟨state, some (op, .call c next)⟩)
    (h : kind.answer c s.store = .error e store) :
    Step s { s with store, managers := s.manages i (some ⟨state, some (op, next (.error e))⟩) }
  /-- The store fails for a reason of its own. -/
  | fail (i : ι) (state : ContextCheckpoint) (op : Operation) (c : StoreRequest)
    (next : Except Fault c.Answer → Script Unit) (e : Fault)
    (hi : s.managers i = some ⟨state, some (op, .call c next)⟩) :
    Step s { s with managers := s.manages i (some ⟨state, some (op, next (.error e))⟩) }
  | finish (i : ι) (state : ContextCheckpoint) (op : Operation) (result : Except Fault Unit)
    (hi : s.managers i = some ⟨state, some (op, .done result)⟩) :
    Step s { s with managers := s.manages i (some ⟨state, none⟩) }

/-- The runs of managers that share a store. -/
def shared : TransitionSystem (Shared ι) where
  init s := s = ⟨.empty, fun _ => none, []⟩
  step s s' := s.Step sha256 kind key s'

variable {sha256 kind key} {s : Shared ι}

/-- A manager among the others. -/
theorem manages_eq_some {i j : ι} {manager : Option Instance} {m : Instance}
    (h : s.manages i manager j = some m) : manager = some m ∨ s.managers j = some m := by
  unfold Shared.manages at h
  by_cases hij : j = i
  · subst hij
    exact .inl (by simpa using h)
  · exact .inr (by simpa [Function.update_of_ne hij] using h)

/-- A manager is closed. -/
theorem Shared.Serial.close (h : s.Serial sha256) (i : ι) :
    Shared.Serial sha256 { s with managers := s.manages i none } where
  saved := h.saved
  numbered := h.numbered
  receipts := h.receipts
  inLine := h.inLine
  held j m hj := (manages_eq_some hj).elim (fun h => (by cases h)) (h.held j m)
  running j m op script hj hscript :=
    (manages_eq_some hj).elim (fun h => (by cases h)) fun hold => h.running j m op script hold hscript

/-- A step without a commit. -/
theorem Shared.Serial.manage (h : s.Serial sha256) (i : ι) {state : ContextCheckpoint}
    {running : Option (Operation × Script Unit)} (hheld : state ∈ s.log.map Commit.checkpoint)
    (hrunning : ∀ op script, running = some (op, script) →
      ∃ env, op.Mutates sha256 env state script) :
    Shared.Serial sha256 { s with managers := s.manages i (some ⟨state, running⟩) } where
  saved := h.saved
  numbered := h.numbered
  receipts := h.receipts
  inLine := h.inLine
  held j m hj := by
    rcases manages_eq_some hj with hm | hold
    · obtain rfl := Option.some.inj hm
      exact hheld
    · exact h.held j m hold
  running j m op script hj hscript := by
    rcases manages_eq_some hj with hm | hold
    · obtain rfl := Option.some.inj hm
      exact hrunning op script hscript
    · exact h.running j m op script hold hscript

/-- A step with a commit. -/
theorem Shared.Serial.commit (h : s.Serial sha256) (i : ι)
    {cause : Option (Operation × ContextCheckpoint)} {checkpoint : ContextCheckpoint}
    {expectedRevision : Option ℕ} {writes : List ContextStoreWrite}
    {receipts : List ContextReceipt} {store : Namespace}
    (hstore : s.store.commit expectedRevision checkpoint writes receipts = .ok store)
    (hline : ∀ op base, cause = some (op, base) →
      s.log.getLast?.map Commit.checkpoint = some base ∧
      checkpoint.revision = base.revision + 1 ∧ ∃ env writes,
        op.Computes sha256 env base checkpoint writes receipts)
    {running : Option (Operation × Script Unit)}
    (hrunning : ∀ op script, running = some (op, script) →
      ∃ env, op.Mutates sha256 env checkpoint script) :
    Shared.Serial sha256
      ⟨store, s.manages i (some ⟨checkpoint, running⟩), s.log ++ [⟨cause, checkpoint, receipts⟩]⟩ := by
  -- The commit is the next one, and everything in the store is that of the log.
  have happ := commit_appended hstore
  obtain ⟨hexpected, hnext⟩ := commit_revisions hstore
  rw [h.next_revision hexpected] at hnext
  have hinLine : InLine sha256 (s.log ++ [⟨cause, checkpoint, receipts⟩]) := h.inLine.concat hline
  refine ⟨?_, ?_, ?_, hinLine, ?_, ?_⟩
  · rw [happ.state, List.getLast?_concat]
    rfl
  · rw [List.map_append, h.numbered, List.length_append, List.length_singleton, List.range_succ]
    simp [hnext]
  · rw [happ.receipts, h.receipts, List.flatMap_append, List.flatMap_singleton]
  · -- The manager that committed goes on from its own commit, and the others from where they were.
    intro j m hj
    rw [List.map_append, List.mem_append]
    rcases manages_eq_some hj with hm | hold
    · obtain rfl := Option.some.inj hm
      exact .inr (List.mem_singleton.mpr rfl)
    · exact .inl (h.held j m hold)
  · intro j m op script hj hscript
    rcases manages_eq_some hj with hm | hold
    · obtain rfl := Option.some.inj hm
      exact hrunning op script hscript
    · exact h.running j m op script hold hscript

/-- An operation whose call failed is over. -/
theorem Shared.Serial.failed (h : s.Serial sha256) {i : ι} {state : ContextCheckpoint}
    {op : Operation} {c : StoreRequest} {next : Except Fault c.Answer → Script Unit}
    (hi : s.managers i = some ⟨state, some (op, .call c next)⟩) (e : Fault) :
    Shared.Serial sha256
      { s with managers := s.manages i (some ⟨state, some (op, next (.error e))⟩) } := by
  obtain ⟨env, hmutates⟩ : ∃ env, op.Mutates sha256 env state (.call c next) :=
    h.running i _ op _ hi rfl
  refine h.manage i (h.held i _ hi) ?_
  intro op' script hrunning
  obtain ⟨rfl, rfl⟩ := Prod.mk.inj (Option.some.inj hrunning)
  rw [hmutates.call.1 e]
  exact ⟨env, .done _⟩

/-- An operation has made a call. -/
theorem Shared.Serial.answered (h : s.Serial sha256) {i : ι} {state : ContextCheckpoint}
    {op : Operation} {c : StoreRequest} {next : Except Fault c.Answer → Script Unit}
    (hi : s.managers i = some ⟨state, some (op, .call c next)⟩) {a : c.Answer} {store : Namespace}
    (hanswer : kind.answer c s.store = .ok a store) :
    Shared.Serial sha256 ⟨store, s.manages i (some ⟨c.published state, some (op, next (.ok a))⟩),
      s.log ++ c.logged op state⟩ := by
  obtain ⟨env, hmutates⟩ : ∃ env, op.Mutates sha256 env state (.call c next) :=
    h.running i _ op _ hi rfl
  obtain ⟨-, ⟨hreads, hok⟩ | ⟨checkpoint, writes, receipts, hcomputes, rfl, hdone⟩⟩ :=
    hmutates.call
  · have hsame : store = s.store :=
      wp_ok (Q := fun _ s' => s' = s.store) (answer_unchanged kind hreads s.store) hanswer
    have hstate : c.published state = state := by cases c <;> first | rfl | cases hreads
    have hlog : c.logged op state = [] := by cases c <;> first | rfl | cases hreads
    rw [hsame, hstate, hlog, List.append_nil]
    refine h.manage i (h.held i _ hi) ?_
    intro op' script hrunning
    obtain ⟨rfl, rfl⟩ := Prod.mk.inj (Option.some.inj hrunning)
    exact ⟨env, hok a⟩
  · have hstore := wp_ok (answer_commit kind s.store _ _ _ _) hanswer
    obtain ⟨hexpected, hnext⟩ := commit_revisions hstore
    refine h.commit i hstore ?_ ?_
    · intro op' base hcause
      obtain ⟨rfl, rfl⟩ := Prod.mk.inj (Option.some.inj hcause)
      -- The store is at the manager's revision, and only one commit has it.
      obtain ⟨last, hlast, hrevision⟩ := Option.map_eq_some_iff.mp hexpected
      have hlatest := h.saved.symm.trans hlast
      obtain rfl := h.eq_of_revision (h.held i _ hi) hlatest hrevision
      exact ⟨hlatest, hnext, env, writes, hcomputes⟩
    · intro op' script hrunning
      obtain ⟨rfl, rfl⟩ := Prod.mk.inj (Option.some.inj hrunning)
      obtain ⟨result, hresult⟩ := hdone a
      rw [hresult]
      exact ⟨env, .done result⟩

/-- Every step keeps the commits in line. -/
theorem Shared.Serial.step (h : s.Serial sha256) {s' : Shared ι}
    (hstep : s.Step sha256 kind key s') : s'.Serial sha256 := by
  -- One case per step of the managers; only a creation and an answer commit.
  cases hstep with
  | create i env options created hi hkey hcreate =>
    simp only [createAgentContextManager, bind_eq_ok, exists_unit, pure_eq_ok] at hcreate
    obtain ⟨-, -, -, -, -, -, store, hcommit, rfl⟩ := hcreate
    exact h.commit i hcommit (by intro op base hcause; cases hcause)
      (by intro op script hrunning; cases hrunning)
  | restore i env restored hi hrestore =>
    simp only [restoreAgentContextManager, bind_eq_ok, exists_unit, pure_eq_ok,
      requirePresent_eq_ok] at hrestore
    obtain ⟨-, -, checkpoint, hload, -, -, rfl⟩ := hrestore
    rw [h.saved] at hload
    obtain ⟨commit, hcommit, rfl⟩ := Option.map_eq_some_iff.mp hload
    refine h.manage i (List.mem_map_of_mem (List.mem_of_getLast? hcommit)) ?_
    intro op script hrunning
    cases hrunning
  | close i => exact h.close i
  | start i state env op hi =>
    refine h.manage i (h.held i _ hi) ?_
    intro op' script hrunning
    obtain ⟨rfl, rfl⟩ := Prod.mk.inj (Option.some.inj hrunning)
    exact ⟨env, script_mutates sha256 env op state⟩
  | answer i state op c next a store hi hanswer => exact h.answered hi hanswer
  | refuse i state op c next e store hi hanswer =>
    rw [refused_unchanged hanswer]
    exact h.failed hi e
  | fail i state op c next e hi => exact h.failed hi e
  | finish i state op result hi =>
    refine h.manage i (h.held i _ hi) ?_
    intro op' script hrunning
    cases hrunning

/-- Every reachable state is that of operations one after the other. -/
theorem serial (h : (shared sha256 kind key).Reachable s) : s.Serial sha256 := by
  refine TransitionSystem.Reachable.invariant (P := fun s => s.Serial sha256) ?_ ?_ h
  · rintro _ rfl
    refine ⟨rfl, rfl, rfl, ?_, ?_, ?_⟩
    · intro before commit after heq
      simp at heq
    · intro i m hi
      cases hi
    · intro i m op script hi
      cases hi
  · intro t t' _ ht hstep
    exact ht.step hstep

/-- After any run of managers on one key of one store, of either kind: every commit of an operation was
computed from the commit before it and counts the revision up by one, from a state that is no longer the
latest an operation can only throw and changes nothing, and a round and a summary took effect at most
once. -/
theorem serial_of_reachable (h : (shared sha256 kind key).Reachable s) :
    InLine sha256 s.log ∧
    s.store.state = s.log.getLast?.map Commit.checkpoint ∧
    s.log.map (fun commit => commit.checkpoint.revision) = List.range s.log.length ∧
    (∀ i state op c next, s.managers i = some ⟨state, some (op, .call c next)⟩ →
      c.commits = true → s.store.state ≠ some state →
        (∃ e, kind.answer c s.store = .error e s.store) ∧
          ∀ e, next (.error e) = .done (.error e)) ∧
    (∀ roundKey, (s.log.filter (·.completes roundKey)).length ≤ 1) ∧
    ∀ id, (s.log.filter (·.integrates id)).length ≤ 1 := by
  have hs := serial h
  refine ⟨hs.inLine, hs.saved, hs.numbered, ?_, ?_, ?_⟩
  · -- A commit that is stale is refused.
    intro i state op c next hi hc hstale
    obtain ⟨env, hmutates⟩ : ∃ env, op.Mutates sha256 env state (.call c next) :=
      hs.running i _ op _ hi rfl
    exact ⟨hs.refused hi hc hstale, hmutates.call.1⟩
  · -- Only an applied round and an acknowledged one settle the round.
    intro roundKey
    refine hs.once (roundKeyOf roundKey) fun commit hcommit => ?_
    unfold Commit.completes at hcommit
    split at hcommit
    · rename_i key _ _ _ base hcause
      obtain rfl : key = roundKey := by simpa using hcommit
      exact ⟨_, base, hcause, rfl⟩
    · rename_i key _ _ base hcause
      obtain rfl : key = roundKey := by simpa using hcommit
      exact ⟨_, base, hcause, rfl⟩
    · cases hcommit
  · -- Only a committed phase settles the phase.
    intro id
    refine hs.once (phaseKeyOf id) fun commit hcommit => ?_
    unfold Commit.integrates at hcommit
    split at hcommit
    · rename_i _ key _ base hcause
      obtain rfl : key = id := by simpa using hcommit
      exact ⟨_, base, hcause, rfl⟩
    · cases hcommit

end Runs

/-! ## Two managers -/

section Witness

/-- What the opened session commits when its inbox is drained. -/
def drained (s : Session) (f : Mutation → Namespace → Bool) : Bool :=
  match prepareMutation (steady "b") (drainInbox id) s.state with
  | .error _ => false
  | .ok m =>
    match s.store.commit (some s.state.revision) m.state m.writes (receiptsOf m.state []) with
    | .error _ => false
    | .ok store => f m store

/-- A test of the drained inbox tells of a commit. -/
theorem exists_of_drained {s : Session} {f : Mutation → Namespace → Bool} (h : drained s f = true) :
    ∃ m store, prepareMutation (steady "b") (drainInbox id) s.state = .ok m ∧
      s.store.commit (some s.state.revision) m.state m.writes (receiptsOf m.state []) = .ok store ∧
      f m store = true := by
  unfold drained at h
  split at h
  · cases h
  · split at h
    · cases h
    · exact ⟨_, _, ‹_›, ‹_›, h⟩

/-- To drain the inbox of the new manager changes its revision. -/
theorem drained_opened :
    whenOpened (fun s => s.state.pendingSummary.isNone && drained s fun m _ =>
      m.state.revision != s.state.revision) = true := by
  decide +kernel

/-- To prepare without a pending summary is to commit the drained inbox. -/
theorem script_prepare {sha256 : String → String} {env : Surroundings} {state : ContextCheckpoint}
    {m : Mutation} (hnone : state.pendingSummary = none)
    (hm : prepareMutation env (drainInbox sha256) state = .ok m) :
    Operation.prepare.script sha256 env state =
      .call (.commit (some state.revision) m.state m.writes (receiptsOf m.state [])) .done := by
  simp only [Operation.script, hnone, Option.isNone_none, if_true, Script.mutate, hm]
  rfl

/-- The key of the new manager. -/
theorem key_opened {s : Session} (h : opened = .ok s) : s.key = "agent" := by
  simp only [opened, createAgentContextManager, bind_eq_ok, exists_unit, pure_eq_ok] at h
  obtain ⟨-, -, -, -, -, -, store, -, rfl⟩ := h
  rfl

/-- Two managers drain the inbox at once. One commits, and the other is refused. -/
theorem serial_drained : ∃ s : Shared Bool, (shared id .sqlite "agent").Reachable s ∧
    s.log.length = 2 ∧ ∃ state op c next,
      s.managers false = some ⟨state, some (op, .call c next)⟩ ∧ c.commits = true ∧
        ∃ e, StoreKind.sqlite.answer c s.store = .error e s.store := by
  obtain ⟨s, hopened, hs⟩ := exists_of_whenOpened drained_opened
  rw [Bool.and_eq_true] at hs
  obtain ⟨m, store, hm, hcommit, hrevision⟩ := exists_of_drained hs.2
  have hscript := script_prepare (Option.isNone_iff_eq_none.mp hs.1) hm
  have hdurable : Durable s := durable_created hopened
  -- One manager is created, the other restored, and both start.
  have h0 : (shared id .sqlite "agent").Reachable (⟨.empty, fun _ => none, []⟩ : Shared Bool) :=
    .of_init rfl
  have h1 := h0.step (.create true (steady "a") tightOptions s rfl rfl hopened)
  have hrestore : restoreAgentContextManager (steady "c") "agent" s.store = .ok s := by
    rw [← key_opened hopened]
    exact hdurable.restore rfl fun _ => rfl
  have h2 := h1.step (.restore false (steady "c") s rfl hrestore)
  have h3 := h2.step (.start true s.state (steady "b") .prepare rfl)
  have h4 := h3.step (.start false s.state (steady "b") .prepare rfl)
  rw [hscript] at h4
  have h5 := h4.step (.answer true s.state .prepare _ _ () store rfl
    (answer_commit_ok .sqlite hcommit))
  have hstate : store.state ≠ some s.state := by
    rw [(commit_appended hcommit).state]
    intro heq
    rw [Option.some.inj heq] at hrevision
    simp at hrevision
  refine ⟨_, h5, rfl, s.state, .prepare, _, _, rfl, rfl, ?_⟩
  exact ((serial_of_reachable h5).2.2.2.1 false s.state .prepare _ _ rfl rfl hstate).1

end Witness

end OsAgent.Context
