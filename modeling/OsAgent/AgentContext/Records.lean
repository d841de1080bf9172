import OsAgent.AgentContext.Durability

/-!
# Which records can be read back

A record is checked when it is read, and a checkpoint when it is committed, but a decision that
replaces a plan archives the context before the chain is replaced, and that context is not the one
that is checked. Its only fault can be its size: `readable_of_fitting` says that the records of a run
can all be read as long as every plan is replaced in a frame that fits its budget with the entries of
the round, and that a plan replaced in one that does not leaves a record which cannot be read.
-/

namespace OsAgent.Context

open OsAgent.Library

/-- Every record of the store is returned when a manager over the store reads it. -/
def Readable (store : Namespace) : Prop :=
  ∀ write ∈ store.records.entries, ∀ (env : Surroundings) (s : Session), s.store = store →
    env.failure (.read write.ref) = none → read env write.ref s = .ok (some write.record) s

/-- What a read of a recorded reference does depends on the check of the record only. -/
theorem readable_iff {store : Namespace} :
    Readable store ↔ ∀ write ∈ store.records.entries, validateRecord write.record = .ok () := by
  constructor
  · intro h write hmem
    let env : Surroundings := ⟨fun _ => "", fun _ => none⟩
    let s : Session := ⟨"", ⟨0, ⟨⟨⟨"", emptyMemory, ⟨0, 0, 0, 0⟩, emptyChain 0⟩, [], ⟨"", ""⟩⟩, none,
      none⟩, ⟨fun _ => ⟨0, 0, 0, 0⟩, 0, 0, 0⟩, false, none, []⟩, store⟩
    have hread := h write hmem env s rfl rfl
    have hreturns : Returns (read env write.ref)
        (fun record _ => ∀ r ∈ record, validateRecord r = .ok ()) s := by
      simp [read, Returns]
    exact wp_ok hreturns hread write.record rfl
  · rintro h write hmem env s rfl hfail
    apply eq_of_wp
    have hget : s.store.records.get? write.ref = some write := OrderedMap.get?_of_mem hmem
    have hvalid := h write hmem
    simp [read, storeCall, hfail, hget, checkIfPresent, hvalid]

/-- The plan that an operation replaces is archived within the budget of its frame. -/
def Operation.Fitting (s : Session) : Operation → Prop
  | .apply _ _ decision entries => decision.replaces.isSome →
      (active (archivedContext decision entries s.state.context)).size ≤
        (active s.state.context).data.budget.maxTokens
  | _ => True

/-- A summary whose references are among the allowed ones is a summary. -/
theorem validateSummary_of_allowed {summary : ContextSummary} {allowed : Option (List String)}
    (h : validateSummary summary allowed = .ok ()) : validateSummary summary none = .ok () := by
  have refs {l : List String} (hl : checkRefs allowed l = .ok ()) : checkRefs none l = .ok () := by
    simp only [checkRefs, bind_eq_ok, exists_unit, checkIfPresent_eq_ok] at hl ⊢
    exact ⟨hl.1, fun _ h => (by cases h)⟩
  simp only [validateSummary, bind_eq_ok, exists_unit, forM_eq_ok, validateObservation,
    validateLesson] at h ⊢
  obtain ⟨h1, h2, h3, h4, h5, h6, h7, h8, hobs, hles⟩ := h
  exact ⟨h1, h2, h3, h4, h5, h6, refs h7, refs h8,
    fun o ho => ⟨(hobs o ho).1, refs (hobs o ho).2.1, (hobs o ho).2.2⟩,
    fun l hl => ⟨(hles l hl).1, (hles l hl).2.1, refs (hles l hl).2.2⟩⟩

/-- The source of a pending summary is a text. -/
theorem text_sourceRef {c : ContextCheckpoint} (h : validateCheckpoint c = .ok ())
    {pending : PendingContextSummary} (hp : pending ∈ c.pendingSummary) :
    text pending.sourceRef = .ok () := by
  simp only [validateCheckpoint, bind_eq_ok, exists_unit, checkIfPresent_eq_ok] at h
  have hpending := h.2.2.2.2 pending hp
  simp only [validatePending, bind_eq_ok, exists_unit] at hpending
  exact hpending.2.2.2.1

section Records

variable (sha256 : String → String)

/-- What a fitting operation writes besides its last context passes the check of records. -/
theorem valid_besides {s : Session} (h : Durable s) {op : Operation} (hop : op.Fitting s)
    {record : ContextRecord} (hr : op.Besides s.state record) : validateRecord record = .ok () := by
  have summary {summary : ContextSummary} (hr : SummaryRecord s.state summary record) :
      validateRecord record = .ok () := by
    obtain ⟨⟨pending, hp, rfl⟩, allowed, hvalid⟩ := hr
    simp only [validateRecord, bind_eq_ok, exists_unit]
    exact ⟨text_sourceRef h.valid hp, validateSummary_of_allowed hvalid⟩
  cases op with
  | receive deliveries =>
    obtain ⟨delivery, hvalid, rfl⟩ := hr
    exact hvalid
  | receiveAvailable deliveries =>
    obtain ⟨delivery, hvalid, rfl⟩ := hr
    exact hvalid
  | apply roundKey cursor decision entries =>
    have hr : PlanRecord decision entries s.state.context record := hr
    rw [hr.record_eq, validateRecord_frame,
      wellFormed_archivedContext (wellFormed_of_validateCheckpoint h.valid) hr.entries hr.reason]
    exact hop hr.replaces
  | commitSummaryPhase roundKey id s => exact summary hr
  | commitSummary roundKey id s => exact summary hr
  | _ => exact hr.elim

/-- A fitting operation leaves only records that can be read. -/
theorem Readable.perform {s : Session} (h : Durable s) (hr : Readable s.store) (env : Surroundings)
    {op : Operation} (hop : op.Fitting s) :
    Ends (op.perform sha256 env) (fun s' => Readable s'.store) s := by
  refine wp_mono (perform_commits sha256 env op s) ?_ (by rintro _ s' rfl; exact hr)
  rintro _ s' (rfl | hc)
  · exact hr
  · obtain ⟨-, hvalid, m, receipts, hstate, ho, happ⟩ := hc.outcome sha256 h.lower
    rw [readable_iff] at hr ⊢
    intro write hmem
    rw [happ.records] at hmem
    rcases List.mem_append.mp hmem with hold | hnew
    · exact hr write hold
    · rcases ho.written write hnew with hlast | hbesides
      · rw [hlast, validateRecord_frame, hstate]
        exact wellFormed_of_validateCheckpoint hvalid
      · exact valid_besides h hop hbesides

/-- Replacing a plan in a frame that does not fit leaves a record that cannot be read. -/
theorem not_readable_of_not_fitting {s s' : Session} (h : Durable s) {env : Surroundings}
    {op : Operation} (hop : ¬ op.Fitting s) (hperform : op.perform sha256 env s = .ok () s')
    (hne : s' ≠ s) : ¬ Readable s'.store := by
  have hc := (wp_ok (perform_commits sha256 env op s) hperform).resolve_left hne
  cases op with
  | apply roundKey cursor decision entries =>
    obtain ⟨hd, hlarge⟩ := Classical.not_imp.mp hop
    obtain ⟨change, receiptKeys, hmakes, -, m, hm, hcommit, -⟩ := hc
    cases hmakes
    obtain ⟨⟨write, hmem, hrecord⟩, -⟩ := prepared hm
      (applyRound_archives env.createId cursor entries h.lower hd) fun _ _ h => h
    intro hreadable
    have hvalid := readable_iff.mp hreadable write (by
      rw [(commit_appended hcommit).records]
      exact List.mem_append_right _ hmem)
    rw [hrecord, validateRecord_frame] at hvalid
    refine hlarge ?_
    have hsize := hvalid.active_fits.size
    simpa [archivedContext, archivedData] using hsize
  | _ => exact (hop trivial).elim

/-- The records of a new manager are readable. -/
theorem readable_created {env : Surroundings} {options : ContextManagerOptions} {s : Session}
    (h : createAgentContextManager env options .empty = .ok s) : Readable s.store := by
  simp only [createAgentContextManager, bind_eq_ok, exists_unit, pure_eq_ok] at h
  obtain ⟨-, -, -, -, -, -, store, hcommit, rfl⟩ := h
  rw [readable_iff, (commit_appended hcommit).records]
  intro write hmem
  cases hmem

/-- Every record of a run can be read as long as every plan is replaced in a frame that fits; and
once one is not, a record that cannot be read has been committed. -/
theorem readable_of_fitting :
    (∀ s, (sessions sha256 fun s op => op.Fitting s).Reachable s → Readable s.store) ∧
    ∀ s, (sessions sha256 fun _ _ => True).Reachable s →
      ∀ (env : Surroundings) (op : Operation) (s' : Session), ¬ op.Fitting s →
        op.perform sha256 env s = .ok () s' → s' ≠ s → ¬ Readable s'.store := by
  constructor
  · intro s hs
    refine TransitionSystem.Reachable.invariant (P := fun s => Readable s.store) ?_ ?_ hs
    · rintro s₀ ⟨env, options, hcreate⟩
      exact readable_created hcreate
    · rintro t t' ht hr (⟨env, op, hop, rfl⟩ | ⟨env, hrestore⟩)
      · exact wp_finalState (hr.perform sha256 (durable_of_reachable sha256 ht) env hop)
      · rwa [(durable_of_reachable sha256 ht).restored hrestore]
  · intro s hs env op s' hop hperform hne
    exact not_readable_of_not_fitting sha256 (durable_of_reachable sha256 hs) hop hperform hne

end Records

/-! ## A plan that does not fit -/

section Oversized

/-- A plan of four tasks. -/
def fourTasks : Operation := .apply "1" ⟨"a0", 0⟩ (.plan ["v", "w", "x", "y"]) []

/-- A plan of one task in place of it. -/
def oneTask : Operation :=
  .apply "2" ⟨"a0", 1⟩ (.replan ["z"] "late") [⟨"e", 0, .message .user "hi" none⟩]

/-- The session after a plan of four tasks. -/
def planned (s : Session) : Session := finalState (fourTasks.perform id (steady "b") s)

/-- The session after the four tasks were replaced by one, with a message. -/
def replanned (s : Session) : Session :=
  finalState (oneTask.perform id (steady "c") (planned s))

/-- Both plans are committed, and a record of the second one cannot be read. -/
theorem unreadable_replanned : whenOpened (fun s =>
    (replanned s).store.records.entries.any fun w => !(validateRecord w.record).toBool) = true := by
  decide +kernel

/-- Not every record that a run commits can be read. -/
theorem not_always_readable :
    ¬ ∀ s, (sessions id fun _ _ => True).Reachable s → Readable s.store := by
  intro h
  obtain ⟨s, hopened, hbad⟩ := exists_of_whenOpened unreadable_replanned
  have hreach : (sessions id fun _ _ => True).Reachable (replanned s) :=
    ((reachable_opened hopened).step (.inl ⟨_, _, trivial, rfl⟩)).step (.inl ⟨_, _, trivial, rfl⟩)
  obtain ⟨write, hmem, hw⟩ := List.any_eq_true.mp hbad
  rw [readable_iff.mp (h _ hreach) write hmem] at hw
  cases hw

/-- The plan of four tasks fits, and the message does not fit beside them. -/
theorem fitting_opened : whenOpened (fun s =>
    decide ((active (archivedContext (.plan ["v", "w", "x", "y"]) [] s.state.context)).size ≤
      (active s.state.context).data.budget.maxTokens) &&
    decide ((active (planned s).state.context).data.budget.maxTokens <
      (active (archivedContext (.replan ["z"] "late") [⟨"e", 0, .message .user "hi" none⟩]
        (planned s).state.context)).size) &&
    (match oneTask.perform id (steady "c") (planned s) with
      | .ok _ s' => decide (s'.state.revision ≠ (planned s).state.revision)
      | .error _ _ => false)) = true := by
  decide +kernel

/-- The plan of four tasks is readable, and its replacement is not. -/
theorem readable_planned : ∃ s, opened = .ok s ∧ Readable (planned s).store ∧
    ¬ Readable (replanned s).store := by
  obtain ⟨s, hopened, hfacts⟩ := exists_of_whenOpened fitting_opened
  simp only [Bool.and_eq_true, decide_eq_true_eq] at hfacts
  obtain ⟨⟨hfits, hlarge⟩, hcommits⟩ := hfacts
  refine ⟨s, hopened, ?_, ?_⟩
  · refine (readable_of_fitting id).1 _ ((reachable_opened hopened).step ?_)
    exact .inl ⟨_, fourTasks, fun _ => hfits, rfl⟩
  · have hreach : (sessions id fun _ _ => True).Reachable (planned s) :=
      (reachable_opened hopened).step (.inl ⟨_, _, trivial, rfl⟩)
    cases hperform : oneTask.perform id (steady "c") (planned s) with
    | error e s' => simp [hperform] at hcommits
    | ok u s' =>
      rw [hperform] at hcommits
      have hlast : replanned s = s' := by rw [replanned, hperform]; rfl
      rw [hlast]
      refine (readable_of_fitting id).2 _ hreach _ oneTask s' ?_ hperform ?_
      · exact fun hfit => absurd (hfit rfl) (by simpa using hlarge)
      · rintro rfl
        simp at hcommits

end Oversized

end OsAgent.Context
