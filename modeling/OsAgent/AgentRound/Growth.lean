import OsAgent.AgentRound.Runner

/-!
# What a round does to the context

Records and receipts are only added. The receipt of a round is added by `apply` and `acknowledgeRound` alone,
and only for the round that they are called for.
-/

namespace OsAgent.AgentRound

open OsAgent.Library OsAgent.Context

/-- The round has a receipt. -/
def HasRound (s : Session) (roundKey : String) : Prop :=
  s.store.receipts.has (roundKeyOf roundKey) = true

/-- Records and receipts were added, but no receipt of a round. -/
structure Grows (s s' : Session) : Prop where
  durable : Durable s'
  records : s.store.records.entries <+: s'.store.records.entries
  receipts : s.store.receipts.entries <+: s'.store.receipts.entries
  rounds : ∀ roundKey, HasRound s' roundKey → HasRound s roundKey

/-- A round was settled. -/
structure Settles (roundKey : String) (s s' : Session) : Prop where
  durable : Durable s'
  records : s.store.records.entries <+: s'.store.records.entries
  receipts : s.store.receipts.entries <+: s'.store.receipts.entries
  rounds : ∀ key, HasRound s' key → HasRound s key ∨ key = roundKey
  settled : HasRound s' roundKey

variable {sha256 : String → String} {s s' s'' : Session} {env : Surroundings}

/-- A session grows into itself. -/
theorem Grows.refl (h : Durable s) : Grows s s := ⟨h, List.prefix_rfl, List.prefix_rfl, fun _ hr => hr⟩

/-- What grows twice grows. -/
theorem Grows.trans (h : Grows s s') (h' : Grows s' s'') : Grows s s'' where
  durable := h'.durable
  records := h.records.trans h'.records
  receipts := h.receipts.trans h'.receipts
  rounds roundKey hr := h.rounds roundKey (h'.rounds roundKey hr)

/-- The receipts of an ordered map, by membership. -/
theorem hasRound_iff {roundKey : String} :
    HasRound s roundKey ↔ ∃ receipt ∈ s.store.receipts.entries, receipt.key = roundKeyOf roundKey := by
  unfold HasRound OrderedMap.has
  rw [Option.isSome_iff_exists]
  constructor
  · rintro ⟨receipt, hget⟩
    exact ⟨receipt, OrderedMap.mem_of_get? hget, OrderedMap.key_of_get? hget⟩
  · rintro ⟨receipt, hmem, hkey⟩
    rw [← hkey]
    exact ⟨receipt, OrderedMap.get?_of_mem hmem⟩

/-- A receipt stays. -/
theorem HasRound.mono {roundKey : String} (h : HasRound s roundKey)
    (hreceipts : s.store.receipts.entries <+: s'.store.receipts.entries) : HasRound s' roundKey := by
  rw [hasRound_iff] at h ⊢
  obtain ⟨receipt, hmem, hkey⟩ := h
  exact ⟨receipt, hreceipts.subset hmem, hkey⟩

/-- What was accepted stays so. -/
theorem hasAccepted_mono {delivery : ContextDelivery} (h : s.HasAccepted sha256 delivery)
    (hrecords : s.store.records.entries <+: s'.store.records.entries) :
    s'.HasAccepted sha256 delivery := by
  obtain ⟨recorded, hrecorded, hsame⟩ := h
  exact ⟨recorded, recorded_mono hrecords hrecorded, hsame⟩

/-- The keys of two rounds are the same exactly if the rounds are. -/
theorem roundKeyOf_inj {x y : String} : roundKeyOf x = roundKeyOf y ↔ x = y := by
  simp [roundKeyOf]

/-- The key of a summary is not that of a round. -/
theorem roundKeyOf_ne_summaryKeyOf (x y : String) : summaryKeyOf x ≠ roundKeyOf y := by
  intro h
  have hlist := congrArg String.toList h
  simp [summaryKeyOf, roundKeyOf, String.toList_append] at hlist

/-- The key of a phase is not that of a round. -/
theorem roundKeyOf_ne_phaseKeyOf (x y : String) : phaseKeyOf x ≠ roundKeyOf y := by
  intro h
  have hlist := congrArg String.toList h
  simp [phaseKeyOf, roundKeyOf, String.toList_append] at hlist

/-! ## Commits -/

/-- Which receipts a commit adds. -/
theorem mem_receiptsOf {state : ContextCheckpoint} {keys : List String} {receipt : ContextReceipt}
    (h : receipt ∈ receiptsOf state keys) : receipt.key ∈ keys := by
  obtain ⟨key, hkey, rfl⟩ := List.mem_map.mp h
  exact hkey

/-- The receipts after a commit. -/
theorem hasRound_of_committed {change : Change Unit} {keys : List String}
    (h : Committed env change keys s s') {roundKey : String} (hr : HasRound s' roundKey) :
    HasRound s roundKey ∨ roundKeyOf roundKey ∈ keys := by
  obtain ⟨-, m, -, hcommit, -⟩ := h
  obtain ⟨-, -, hreceipts⟩ := commit_appended hcommit
  rw [hasRound_iff] at hr
  obtain ⟨receipt, hmem, hkey⟩ := hr
  rw [hreceipts] at hmem
  rcases List.mem_append.mp hmem with hold | hnew
  · exact .inl (hasRound_iff.mpr ⟨receipt, hold, hkey⟩)
  · rw [← hkey]
    exact .inr (mem_receiptsOf hnew)

/-- At the start no round has a receipt. -/
theorem not_hasRound_created {options : ContextManagerOptions}
    (h : createAgentContextManager env options .empty = .ok s) (roundKey : String) :
    ¬HasRound s roundKey := by
  simp only [createAgentContextManager, bind_eq_ok, exists_unit, pure_eq_ok] at h
  obtain ⟨-, -, -, -, -, -, store, hcommit, rfl⟩ := h
  rw [hasRound_iff]
  rintro ⟨receipt, hmem, -⟩
  rw [(commit_appended hcommit).receipts] at hmem
  cases hmem

/-- A commit without the receipt of a round. -/
theorem grows_of_committed {change : Change Unit} {keys : List String}
    (h : Committed env change keys s s') (hdurable : Durable s')
    (hkeys : ∀ roundKey, roundKeyOf roundKey ∉ keys) : Grows s s' := by
  have hrounds : ∀ roundKey, HasRound s' roundKey → HasRound s roundKey ∨ roundKeyOf roundKey ∈ keys :=
    fun _ => hasRound_of_committed h
  obtain ⟨-, m, -, hcommit, -⟩ := h
  obtain ⟨-, hrecords, hreceipts⟩ := commit_appended hcommit
  refine ⟨hdurable, ?_, ?_, fun roundKey hr => (hrounds roundKey hr).resolve_right (hkeys roundKey)⟩
  · rw [hrecords]
    exact List.prefix_append _ _
  · rw [hreceipts]
    exact List.prefix_append _ _

/-- A commit with the receipt of a round. -/
theorem settles_of_committed {change : Change Unit} {roundKey : String}
    (h : Committed env change [roundKeyOf roundKey] s s') (hdurable : Durable s') :
    Settles roundKey s s' := by
  have hrounds : ∀ key, HasRound s' key → HasRound s key ∨ roundKeyOf key ∈ [roundKeyOf roundKey] :=
    fun _ => hasRound_of_committed h
  obtain ⟨-, m, -, hcommit, -⟩ := h
  obtain ⟨-, hrecords, hreceipts⟩ := commit_appended hcommit
  refine ⟨hdurable, ?_, ?_, ?_, ?_⟩
  · rw [hrecords]
    exact List.prefix_append _ _
  · rw [hreceipts]
    exact List.prefix_append _ _
  · intro key hr
    refine (hrounds key hr).imp_right fun hkey => ?_
    rwa [List.mem_singleton, roundKeyOf_inj] at hkey
  · rw [hasRound_iff, hreceipts]
    exact ⟨_, List.mem_append_right _ (List.mem_singleton_self _), rfl⟩

/-- Only the operations that settle rounds commit receipts. -/
theorem keys_of_other {op : Context.Operation} {state : ContextCheckpoint} {change : Change Unit}
    {keys : List String} (h : op.Makes sha256 state change keys) (other : settles op = false) :
    keys = [] := by
  cases h <;> first | rfl | cases other

/-- What others do settles no round. -/
theorem perform_grows (h : Durable s) {op : Context.Operation} (other : settles op = false) :
    Ends (op.perform sha256 env) (Grows s) s := by
  refine wp_mono (wp_and (perform_commits sha256 env op s) (h.perform sha256 env op)) ?_ ?_
  · rintro _ s' ⟨rfl | ⟨change, keys, hmakes, hcommitted⟩, hdurable⟩
    · exact .refl hdurable
    · refine grows_of_committed hcommitted hdurable fun roundKey hmem => ?_
      rw [keys_of_other hmakes other] at hmem
      cases hmem
  · rintro _ s' ⟨rfl, hdurable⟩
    exact .refl hdurable

/-! ## The operations of the runner -/

/-- An operation of others, with a result that is used. -/
theorem grows_of_perform {α : Type} {x : Operate α} (h : Ends (do let _ ← x) (Grows s) s) :
    Ends x (Grows s) s :=
  (wp_bind _ _).mp h

/-- To prepare settles no round. -/
theorem prepare_grows (h : Durable s) : Ends (prepare sha256 env) (Grows s) s := by
  have hperform : Ends (Operation.perform sha256 env .prepare) (Grows s) s := perform_grows h rfl
  exact grows_of_perform hperform

/-- To receive settles no round. -/
theorem receiveAvailable_grows (h : Durable s) (deliveries : List ContextDelivery) :
    Ends (receiveAvailable sha256 env deliveries) (Grows s) s := by
  have hperform : Ends (Operation.perform sha256 env (.receiveAvailable deliveries)) (Grows s) s :=
    perform_grows h rfl
  exact grows_of_perform hperform

/-- To begin an attempt settles no round. -/
theorem beginSummaryAttempt_grows (h : Durable s) : Ends (beginSummaryAttempt env) (Grows s) s := by
  have hperform : Ends (Operation.perform (fun key => key) env .beginSummaryAttempt) (Grows s) s :=
    perform_grows h rfl
  exact grows_of_perform hperform

/-- To note a failure settles no round. -/
theorem failSummary_grows (h : Durable s) (id message : String) :
    Ends (failSummary env id message) (Grows s) s := by
  have hperform : Ends (Operation.perform (fun key => key) env (.failSummary id message)) (Grows s) s :=
    perform_grows h rfl
  exact hperform

/-- A pass settles no round. -/
theorem drainPass_grows {envs : ℕ → Surroundings} {deliveries : List ContextDelivery} {k : ℕ}
    (h : Durable s) : Ends (drainPass sha256 envs deliveries k) (Grows s) s := by
  refine wp_bind_of (receiveAvailable_grows h deliveries) ?_ (fun _ _ hg => hg)
  intro received t hg
  refine wp_bind_of (prepare_grows hg.durable) ?_ (fun _ _ hg' => hg.trans hg')
  intro checkpoint t' hg'
  exact hg.trans hg'

/-- A drain settles no round. -/
theorem drain_grows {envs : ℕ → Surroundings} {deliveries : List ContextDelivery} {fuel : ℕ}
    (h : Durable s) : Ends (drain sha256 envs deliveries fuel) (Grows s) s := by
  refine wp_bind_of (prepare_grows h) ?_ (fun _ _ hg => hg)
  intro checkpoint t hg
  refine wp_bind_of (drainPass_grows hg.durable) ?_ (fun _ _ hg' => hg.trans hg')
  intro pass t' hg'
  refine ends_loopWhile (fun k pass t'' hg'' => ?_) (hg.trans hg')
  exact wp_mono (drainPass_grows hg''.durable) (fun _ _ hg₃ => hg''.trans hg₃) fun _ _ hg₃ => hg''.trans hg₃

/-- To commit a phase settles no round. -/
theorem commitSummaryPhase_grows (h : Durable s) (roundKey id : String) (summary : ContextSummary) :
    Ends (commitSummaryPhase env roundKey id summary) (Grows s) s := by
  have hdurable := h.perform (fun key => key) env (.commitSummaryPhase roundKey id summary)
  -- The commit writes the key of the phase, and that of the summary if it is not there.
  have hcommits : wp (commitSummaryPhase env roundKey id summary)
      (fun _ s' => s' = s ∨ ∃ keys, Committed env (integrateSummary id summary) keys s s' ∧
        ∀ key, roundKeyOf key ∉ keys) (fun _ s' => s' = s) s := by
    unfold commitSummaryPhase
    rw [wp_bind, wp_lift]
    refine ⟨fun _ _ => ?_, fun _ _ => rfl⟩
    rw [wp_bind, wp_lift]
    refine ⟨fun _ _ => ?_, fun _ _ => rfl⟩
    refine wp_bind_of (receipt_unchanged env _ s) ?_ (fun _ _ h => h)
    rintro r _ ⟨rfl, -⟩
    split_ifs
    · exact .inl rfl
    · refine wp_bind_of (receipt_unchanged env _ _) ?_ (fun _ _ h => h)
      rintro reported _ ⟨rfl, -⟩
      refine wp_mono (mutate_commits env _ _ _) (fun _ _ hc => .inr ⟨_, hc, ?_⟩) (fun _ _ h => h)
      intro key hmem
      rcases List.mem_cons.mp hmem with hphase | hsummary
      · exact roundKeyOf_ne_phaseKeyOf _ _ hphase.symm
      · split_ifs at hsummary
        · cases hsummary
        · exact roundKeyOf_ne_summaryKeyOf _ _ (List.mem_singleton.mp hsummary).symm
  refine wp_mono (wp_and hcommits hdurable) ?_ ?_
  · rintro _ s' ⟨rfl | ⟨keys, hcommitted, hkeys⟩, hd⟩
    · exact .refl hd
    · exact grows_of_committed hcommitted hd hkeys
  · rintro _ s' ⟨rfl, hd⟩
    exact .refl hd

/-- The receipt of the round was there, or was committed. -/
def Receives (env : Surroundings) (roundKey : String) (s s' : Session) : Prop :=
  s' = s ∧ HasRound s roundKey ∨ ∃ change, Committed env change [roundKeyOf roundKey] s s'

/-- A receipt that was committed settles its round. -/
theorem Receives.settles {roundKey : String} (h : Receives env roundKey s s') (hdurable : Durable s') :
    Settles roundKey s s' := by
  rcases h with ⟨rfl, hround⟩ | ⟨change, hcommitted⟩
  · exact ⟨hdurable, List.prefix_rfl, List.prefix_rfl, fun _ hk => .inl hk, hround⟩
  · exact settles_of_committed hcommitted hdurable

/-- An operation that commits the receipt of a round, unless it is there. -/
theorem receives_after_receipt {roundKey : String} {rest : Operate Unit}
    (hrest : wp rest (fun _ => Receives env roundKey s) (fun _ s' => s' = s) s) :
    wp (roundReceipt env roundKey >>= fun r => if r.isSome then pure () else rest)
      (fun _ => Receives env roundKey s) (fun _ s' => s' = s) s := by
  refine wp_bind_of (receipt_unchanged env (roundKeyOf roundKey) s) ?_ (fun _ _ h => h)
  rintro r _ ⟨rfl, hr⟩
  split_ifs with hsome
  · rw [hr] at hsome
    exact .inl ⟨rfl, hsome⟩
  · exact hrest

/-- To apply a decision settles the round. -/
theorem apply_settles (h : Durable s) (roundKey : String) (cursor : ContextCursor)
    (decision : ContextDecision) (entries : List ContextEntry) :
    wp (apply env roundKey cursor decision entries) (fun _ => Settles roundKey s)
      (fun _ s' => s' = s) s := by
  have hdurable := h.perform (fun key => key) env (.apply roundKey cursor decision entries)
  have hreceives : wp (apply env roundKey cursor decision entries) (fun _ => Receives env roundKey s)
      (fun _ s' => s' = s) s := by
    unfold apply
    rw [wp_bind, wp_lift]
    refine ⟨fun _ _ => receives_after_receipt ?_, fun _ _ => rfl⟩
    exact wp_mono (mutate_commits env _ _ s) (fun _ _ hc => .inr ⟨_, hc⟩) fun _ _ h => h
  exact wp_mono (wp_and hreceives hdurable) (fun _ _ hs => hs.1.settles hs.2) fun _ _ hs => hs.1

/-- To acknowledge a round settles it. -/
theorem acknowledgeRound_settles (h : Durable s) (roundKey : String) :
    wp (acknowledgeRound env roundKey) (fun _ => Settles roundKey s) (fun _ s' => s' = s) s := by
  have hdurable := h.perform (fun key => key) env (.acknowledgeRound roundKey)
  have hreceives : wp (acknowledgeRound env roundKey) (fun _ => Receives env roundKey s)
      (fun _ s' => s' = s) s := by
    unfold acknowledgeRound
    rw [wp_bind, wp_lift]
    refine ⟨fun _ _ => receives_after_receipt ?_, fun _ _ => rfl⟩
    refine wp_bind_of (receipt_unchanged env _ s) ?_ (fun _ _ h => h)
    rintro reported _ ⟨rfl, -⟩
    rw [wp_bind, wp_lift]
    refine ⟨fun _ _ => ?_, fun _ _ => rfl⟩
    exact wp_mono (mutate_commits env _ _ _) (fun _ _ hc => .inr ⟨_, hc⟩) fun _ _ h => h
  exact wp_mono (wp_and hreceives hdurable) (fun _ _ hs => hs.1.settles hs.2) fun _ _ hs => hs.1

end OsAgent.AgentRound
