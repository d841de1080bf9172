import OsAgent.AgentContext.Sessions

/-!
# What is saved is what is live

After any run, the store holds the manager's state, and while a summary is pending it holds the sealed
context under the summary's source. So the manager can be restored at any moment, as it is.
-/

namespace OsAgent.Context

open OsAgent.Library

section Durability

variable (sha256 : String → String)

/-- The store holds what the manager has. -/
structure Durable (s : Session) : Prop where
  key : text s.key = .ok ()
  saved : s.store.state = some s.state
  valid : validateCheckpoint s.state = .ok ()
  sealed : ∀ pending ∈ s.state.pendingSummary,
    { ref := pending.sourceRef, record := .frame s.state.context } ∈ s.store.records.entries

/-- There is a third level only below a second one. -/
theorem Durable.lower {s : Session} (h : Durable s) : s.state.context.Lower :=
  (wellFormed_of_validateCheckpoint h.valid).lower

/-- What was just created is durable. -/
theorem durable_created {env : Surroundings} {options : ContextManagerOptions} {s : Session}
    (h : createAgentContextManager env options .empty = .ok s) : Durable s := by
  simp only [createAgentContextManager, bind_eq_ok, exists_unit, pure_eq_ok] at h
  obtain ⟨-, -, -, hkey, hvalid, -, store, hcommit, rfl⟩ := h
  exact ⟨hkey, (commit_appended hcommit).state, hvalid, fun _ h => (by cases h)⟩

/-- Every operation keeps the store and the manager together. -/
theorem Durable.perform {s : Session} (h : Durable s) (env : Surroundings) (op : Operation) :
    Ends (op.perform sha256 env) Durable s := by
  refine wp_mono (perform_commits sha256 env op s) ?_ ?_
  · rintro _ s' (rfl | hc)
    · exact h
    · obtain ⟨hkey, hvalid, m, receipts, hstate, ho, happ⟩ := hc.outcome sha256 h.lower
      refine ⟨hkey ▸ h.key, happ.state, hvalid, fun pending hpending => ?_⟩
      rw [happ.records]
      rw [← hstate] at hpending ⊢
      rcases ho.sealed pending hpending with hsource | ⟨hcontext, old, hold, hsource⟩
      · exact List.mem_append_right _ hsource
      · -- The summary was pending before, and its context is the one that was sealed.
        rw [hcontext, ← hsource]
        exact List.mem_append_left _ (h.sealed old hold)
  · rintro _ s' rfl
    exact h

/-- The source of a pending summary passes the check of a restoration. -/
theorem Durable.source {s : Session} (h : Durable s) {env : Surroundings}
    {pending : PendingContextSummary} (hpending : pending ∈ s.state.pendingSummary)
    (hread : env.failure (.read pending.sourceRef) = none) :
    validateSource env s.store s.state pending = .ok () := by
  have hget : s.store.records.get? pending.sourceRef =
      some { ref := pending.sourceRef, record := .frame s.state.context } :=
    OrderedMap.get?_of_mem (h.sealed pending hpending)
  have hrecord : validateRecord (.frame s.state.context) = .ok () :=
    validateRecord_frame.mpr (wellFormed_of_validateCheckpoint h.valid)
  simp [validateSource, storeCall, hread, hget, hrecord]

/-- A manager whose state the store holds is restored as it is. -/
theorem Durable.restore {s : Session} (h : Durable s) {env : Surroundings}
    (hload : env.failure .load = none) (hread : ∀ ref, env.failure (.read ref) = none) :
    restoreAgentContextManager env s.key s.store = .ok s := by
  simp only [restoreAgentContextManager, bind_eq_ok, exists_unit, pure_eq_ok, storeCall, hload,
    requirePresent_eq_ok, checkIfPresent_eq_ok]
  exact ⟨h.key, trivial, s.state, h.saved, h.valid,
    fun pending hpending => h.source hpending (hread _), rfl⟩

/-- A restored manager is the one whose state the store held. -/
theorem Durable.restored {s t : Session} (h : Durable s) {env : Surroundings}
    (hr : restoreAgentContextManager env s.key s.store = .ok t) : t = s := by
  simp only [restoreAgentContextManager, bind_eq_ok, exists_unit, pure_eq_ok,
    requirePresent_eq_ok] at hr
  obtain ⟨-, -, checkpoint, hload, -, -, rfl⟩ := hr
  obtain rfl : s.state = checkpoint := Option.some.inj (h.saved.symm.trans hload)
  rfl

/-- Every session of a run is durable. -/
theorem durable_of_reachable {allowed : Session → Operation → Prop} {s : Session}
    (h : (sessions sha256 allowed).Reachable s) : Durable s := by
  refine h.invariant ?_ ?_
  · rintro s₀ ⟨env, options, hcreate⟩
    exact durable_created hcreate
  · rintro t t' - ht (⟨env, op, -, rfl⟩ | ⟨env, hrestore⟩)
    · exact wp_finalState (ht.perform sha256 env op)
    · rwa [ht.restored hrestore]

/-- After any run, a restoration finds the live manager's state, and an operation that throws leaves
the manager and the store as they were. -/
theorem restores_of_reachable {s : Session}
    (h : (sessions sha256 fun _ _ => True).Reachable s) :
    (∀ env : Surroundings, env.failure .load = none →
      (∀ ref, env.failure (.read ref) = none) →
        ∃ restored, restoreAgentContextManager env s.key s.store = .ok restored ∧
          restored.state = s.state ∧ restored.store = s.store) ∧
    ∀ (env : Surroundings) (op : Operation) (fault : Fault) (s' : Session),
      op.perform sha256 env s = .error fault s' → s'.state = s.state ∧ s'.store = s.store := by
  have hd := durable_of_reachable sha256 h
  refine ⟨fun env hload hread => ⟨s, hd.restore hload hread, rfl, rfl⟩, ?_⟩
  intro env op fault s' hthrow
  have hsame := wp_error (perform_commits sha256 env op s) hthrow
  exact ⟨by rw [hsame], by rw [hsame]⟩

end Durability

/-! ## A pending summary -/

section Witness

/-- Surroundings in which nothing fails, with identities of their own. -/
def steady (name : String) : Surroundings := ⟨fun k => name ++ toString k, fun _ => none⟩

/-- A manager whose frames may take 560 bytes. -/
def tightOptions : ContextManagerOptions where
  key := "agent"
  instructions := []
  objective := "serve"
  policy := ⟨fun _ => ⟨560, 500, 400, 5⟩, 1, 1, 1⟩
  initiallyIdle := true

/-- A manager that was just created. -/
def opened : Except Fault Session := createAgentContextManager (steady "a") tightOptions .empty

/-- What a computation with the opened session finds. -/
def whenOpened (f : Session → Bool) : Bool :=
  match opened with
  | .ok s => f s
  | .error _ => false

/-- A test of the created manager tells of a session. -/
theorem exists_of_whenOpened {f : Session → Bool} (h : whenOpened f = true) :
    ∃ s, opened = .ok s ∧ f s = true := by
  unfold whenOpened at h
  cases ho : opened with
  | error e => simp [ho] at h
  | ok s => exact ⟨s, rfl, by simpa [ho] using h⟩

/-- The created manager is reachable. -/
theorem reachable_opened {allowed : Session → Operation → Prop} {s : Session} (h : opened = .ok s) :
    (sessions id allowed).Reachable s :=
  .of_init ⟨_, _, h⟩

/-- The session after a round that asked to compact. -/
def compacting (s : Session) : Session :=
  finalState ((Operation.apply "1" ⟨"a0", 0⟩ .compact []).perform id (steady "b") s)

/-- The manager waits for a summary. -/
theorem pending_compacting :
    whenOpened (fun s => (compacting s).state.pendingSummary.isSome) = true := by
  decide +kernel

/-- A manager with a pending summary is restored. -/
theorem restores_compacting : ∃ s, opened = .ok s ∧ (compacting s).state.pendingSummary.isSome ∧
    ∃ restored, restoreAgentContextManager (steady "c") (compacting s).key (compacting s).store =
      .ok restored ∧ restored.state = (compacting s).state := by
  obtain ⟨s, hopened, hpending⟩ := exists_of_whenOpened pending_compacting
  have hreach : (sessions id fun _ _ => True).Reachable (compacting s) :=
    (reachable_opened hopened).step (.inl ⟨_, _, trivial, rfl⟩)
  obtain ⟨restored, hrestore, hstate, -⟩ :=
    (restores_of_reachable id hreach).1 (steady "c") rfl fun _ => rfl
  exact ⟨s, hopened, hpending, restored, hrestore, hstate⟩

end Witness

end OsAgent.Context
