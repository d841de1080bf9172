import OsAgent.AgentContext.Cursors

/-!
# Accepted input and wake-ups

A manager whose inbox holds something for the active frame should ask to be run. Every change keeps
this but one: a round that ends with `wait` or `finish_turn` clears the flag without a look at the
inbox, which a delivery may have entered since the round was prepared. `awake_of_attentive` says that
input is never forgotten as long as no such round ends while the inbox holds input for the active
frame, and that it is forgotten whenever one does.
-/

namespace OsAgent.Context

open OsAgent.Library

/-- The value of `needsRun` in a state. -/
def ContextCheckpoint.wanted (state : ContextCheckpoint) : Bool :=
  state.runnable || state.pendingSummary.isSome

/-- To ask whether the manager needs a run changes nothing. -/
theorem needsRun_eq (s : Session) : needsRun s = .ok s.state.wanted s := rfl

/-- Input that `prepare` would put into the active frame makes the manager ask to be run. -/
def Awake (s : Session) : Prop :=
  (∃ delivery ∈ s.state.inbox, delivery.absorbed s.state.context = true) → needsRun s = .ok true s

/-- The inbox holds something for the active frame. -/
def ContextCheckpoint.Waiting (state : ContextCheckpoint) : Prop :=
  ∃ delivery ∈ state.inbox, delivery.absorbed state.context = true

/-- A manager is awake exactly if what waits makes it wanted. -/
theorem awake_iff {s : Session} : Awake s ↔ (s.state.Waiting → s.state.wanted = true) := by
  simp [Awake, ContextCheckpoint.Waiting, needsRun_eq]

/-- A state with the same cursors and the same inbox waits for the same input. -/
theorem waiting_congr {state state' : ContextCheckpoint} (hinbox : state'.inbox = state.inbox)
    (hcursor : state'.context.cursorAt = state.context.cursorAt) :
    state'.Waiting ↔ state.Waiting := by
  simp only [ContextCheckpoint.Waiting, hinbox, absorbed_congr hcursor]

/-- What a change does to the wish to be run: it makes it, it leaves it and what waits, or it leaves
nothing in the inbox. -/
inductive Wakes (state state' : ContextCheckpoint) : Prop
  | wanted (h : state'.wanted = true)
  | same (inbox : state'.inbox = state.inbox)
    (cursors : state'.context.cursorAt = state.context.cursorAt)
    (wanted : state'.wanted = state.wanted)
  | empty (h : state'.inbox = [])

/-- A change that clears the wish to be run, and leaves what waits. -/
structure Rests (state state' : ContextCheckpoint) : Prop where
  inbox : state'.inbox = state.inbox
  cursors : state'.context.cursorAt = state.context.cursorAt
  unwanted : state'.wanted = false

/-- The revision does not matter. -/
theorem Wakes.withRevision {state state' : ContextCheckpoint} (h : Wakes state state')
    (revision : ℕ) : Wakes state { state' with revision } := by
  cases h with
  | wanted h => exact .wanted h
  | same inbox cursors wanted => exact .same inbox cursors wanted
  | empty h => exact .empty h

/-- The revision does not matter. -/
theorem Rests.withRevision {state state' : ContextCheckpoint} (h : Rests state state')
    (revision : ℕ) : Rests state { state' with revision } :=
  ⟨h.inbox, h.cursors, h.unwanted⟩

/-- What waits still has a wake-up after a change that wakes. -/
theorem Wakes.keeps {state state' : ContextCheckpoint} (h : Wakes state state')
    (hs : state.Waiting → state.wanted = true) : state'.Waiting → state'.wanted = true := by
  intro hw
  cases h with
  | wanted h => exact h
  | same inbox cursors wanted =>
    rw [wanted]
    exact hs ((waiting_congr inbox cursors).mp hw)
  | empty h =>
    obtain ⟨delivery, hmem, -⟩ := hw
    rw [h] at hmem
    cases hmem

/-! ## Changes that wake -/

/-- A manager that is runnable is wanted. -/
theorem wanted_of_runnable {state : ContextCheckpoint} (h : state.runnable = true) :
    state.wanted = true := by
  simp [ContextCheckpoint.wanted, h]

/-- A manager with a pending summary is wanted. -/
theorem wanted_of_pending {state : ContextCheckpoint} (h : state.pendingSummary.isSome = true) :
    state.wanted = true := by
  simp [ContextCheckpoint.wanted, h]

/-- A scheduled summary asks to be run. -/
theorem scheduleSummary_runnable (purpose : ContextSummaryPurpose) (reason : String) (m : Mutation) :
    Returns (scheduleSummary purpose reason) (fun _ m' => m'.state.runnable = true) m := by
  simp only [scheduleSummary, Returns, wp_bind, wp_draft, wp_lift, wp_archive, wp_nextId, wp_assign,
    implies_true, and_true]

/-- Draining the inbox moves something, or schedules a summary, or changes nothing. -/
theorem drainDeliveries_wakes (sha256 : String → String) (deliveries : List ContextDelivery)
    (m : Mutation) : Returns (drainDeliveries sha256 deliveries)
      (fun ended m' => m'.state.runnable = true ∨ ended = false ∧ m'.state = m.state) m := by
  induction deliveries generalizing m with
  | nil => exact .inr ⟨rfl, rfl⟩
  | cons delivery rest ih =>
    have schedule (m₁ : Mutation) : Returns (scheduleSummary .compact "")
        (fun _ m' => m'.state.runnable = true ∨ true = false ∧ m'.state = m.state) m₁ :=
      wp_mono (scheduleSummary_runnable .compact "" m₁) (fun _ _ h => .inl h) (fun _ _ h => h)
    simp only [drainDeliveries, Returns, wp_bind, wp_draft, wp_ite]
    split_ifs with hid
    · exact ih m
    · refine returns_deliveryEntries sha256 _ _ fun entries created => ?_
      split_ifs with hlarge hcompact
      · simp only [wp_lift, wp_pure, implies_true, and_true]
        exact fun _ _ => schedule _
      · refine returns_putFrame _ fun context => ?_
        simp only [wp_assign, wp_pure]
        exact schedule _
      · refine returns_putFrame _ fun context => ?_
        rw [wp_assign]
        refine wp_mono (ih _) ?_ (fun _ _ h => h)
        rintro ended m' (h | ⟨rfl, h⟩)
        · exact .inl h
        · exact .inl (by rw [h])

/-- To drain the inbox keeps the manager awake. -/
theorem drainInbox_wakes (sha256 : String → String) {state : ContextCheckpoint}
    (createId : ℕ → String) :
    Returns (drainInbox sha256) (fun _ m => Wakes state m.state) (state.mutation createId) := by
  have schedule (m₁ : Mutation) : Returns (scheduleSummary .compact "")
      (fun _ m => Wakes state m.state) m₁ :=
    wp_mono (scheduleSummary_runnable .compact "" m₁)
      (fun _ _ h => .wanted (wanted_of_runnable h)) (fun _ _ h => h)
  simp only [drainInbox, Returns, wp_bind, wp_draft, wp_ite, wp_pure]
  split_ifs
  · exact .same rfl rfl rfl
  · refine wp_mono (drainDeliveries_wakes sha256 _ _) ?_ (fun _ _ h => h)
    intro ended m hd
    have woken : Wakes state m.state := by
      rcases hd with h | ⟨-, h⟩
      · exact .wanted (wanted_of_runnable h)
      · rw [h]
        exact .same rfl rfl rfl
    split_ifs
    · exact woken
    · exact schedule m
    · exact woken

/-- To accept deliveries keeps the manager awake. -/
theorem acceptDeliveries_wakes (sha256 : String → String) {state : ContextCheckpoint}
    (createId : ℕ → String) (fresh : List ContextDelivery) :
    Returns (acceptDeliveries sha256 fresh) (fun _ m => Wakes state m.state)
      (state.mutation createId) := by
  simp only [acceptDeliveries, Returns, wp_bind, wp_assign, wp_modify]
  exact .wanted (wanted_of_runnable rfl)

/-- To set the budgets keeps the manager awake. -/
theorem setBudgets_wakes {state : ContextCheckpoint} (createId : ℕ → String)
    (budget : ContextBudget) :
    Returns (setBudgets budget) (fun _ m => Wakes state m.state) (state.mutation createId) := by
  simp only [setBudgets, Returns, wp_bind, wp_assign, wp_draft]
  refine wp_mono (cursorAt_putBudgets budget _ _ fun frame hf => mem_cursorAt hf) ?_
    (fun _ _ h => h)
  rintro _ m ⟨hstate, hcursor⟩
  cases hpending : m.state.pendingSummary with
  | none =>
    rw [wp_pure]
    refine .same ?_ hcursor ?_
    · rw [hstate]; rfl
    · rw [hstate]; rfl
  | some old =>
    simp only [wp_bind, wp_archive, wp_assign]
    exact .wanted (wanted_of_pending rfl)

/-- A summary is integrated with a wish to be run, or with nothing in the inbox. -/
theorem integrateSummary_wakes {state : ContextCheckpoint} (createId : ℕ → String) (id : String)
    (summary : ContextSummary) :
    Returns (integrateSummary id summary) (fun _ m => Wakes state m.state)
      (state.mutation createId) := by
  simp only [integrateSummary, Returns, wp_bind, wp_draft, wp_lift, wp_nextId, wp_pushWrite,
    wp_ite, wp_assign, wp_assignContext, implies_true, and_true]
  intro pending _ _ _ _ _ _ _ _ _ _ _
  have woken (state' : ContextCheckpoint)
      (hr : state'.runnable = (pending.purpose ≠ .idle || 0 < state'.inbox.length : Bool)) :
      Wakes state state' := by
    by_cases hempty : state'.inbox = []
    · exact .empty hempty
    · have hpos : 0 < state'.inbox.length := List.length_pos_iff.mpr hempty
      exact .wanted (wanted_of_runnable (by simp [hr, hpos]))
  split_ifs
  · exact returns_putFrame _ fun context _ _ => woken _ rfl
  · exact fun context _ _ _ => woken _ rfl

/-! ## Rounds -/

/-- The decisions after which an agent sleeps although nothing is to be summarised. -/
def ContextDecision.rests : ContextDecision → Bool
  | .finishTurn | .wait => true
  | _ => false

/-- A plan is installed in a state that otherwise stays. -/
theorem installPlan_runnable {m : Mutation} (frame : ContextFrame) (objectives : List String)
    (reason : Option String) (h : m.state.runnable = true) :
    Returns (installPlan frame objectives reason) (fun _ m' => m'.state.runnable = true) m := by
  simp only [installPlan, Returns, wp_bind, wp_archive]
  refine returns_newTasks objectives _ fun tasks created => ?_
  exact returns_putFrame _ fun context => h

/-- A round that does not end in sleep wakes, and one that does leaves what waits. -/
theorem takeDecision_wakes {state : ContextCheckpoint} (createId : ℕ → String)
    (decision : ContextDecision) (entries : List ContextEntry)
    (hp : state.pendingSummary = none) :
    Returns (takeDecision ((active state.context).withData
        ((active state.context).data.withEntries entries)) decision)
      (fun _ m => if decision.rests then Rests state m.state else m.state.runnable = true)
      (state.decisionMutation createId entries) := by
  -- An operation that lets the manager rest changes neither the inbox nor the cursors.
  have rests : Rests state
      { (state.decisionMutation createId entries).state with runnable := false } := by
    refine ⟨rfl, cursorAt_withActive rfl rfl, ?_⟩
    simp [ContextCheckpoint.wanted, ContextCheckpoint.decisionMutation, hp]
  -- Only to wait and to finish let the manager rest; everything else makes it runnable.
  cases decision with
  | plan objectives =>
    simp only [takeDecision, Returns, wp_bind, wp_lift, implies_true, and_true]
    exact fun _ _ _ _ => installPlan_runnable _ _ _ rfl
  | replan objectives reason =>
    simp only [takeDecision, Returns, wp_bind, wp_lift, implies_true, and_true]
    exact fun _ _ _ _ => returns_putFrame _ fun context => installPlan_runnable _ _ _ rfl
  | advance =>
    simp only [takeDecision, advance, Returns, wp_bind, wp_lift, implies_true, and_true]
    intro _ _ next _
    refine returns_putFrame _ fun context => ?_
    simp only [wp_nextId, wp_draft, wp_assignContext]
    rfl
  | stepCompleted result =>
    simp only [takeDecision, completeStep, Returns, wp_bind, wp_lift, implies_true, and_true]
    exact fun _ _ _ _ => returns_putFrame _ fun context => rfl
  | interrupt reason =>
    simp only [takeDecision, Returns, wp_bind, wp_lift, implies_true, and_true]
    exact fun _ _ => scheduleSummary_runnable _ _ _
  | complete => exact scheduleSummary_runnable _ _ _
  | compact => exact scheduleSummary_runnable _ _ _
  | idle => exact scheduleSummary_runnable _ _ _
  | finishTurn =>
    simp only [takeDecision, Returns, wp_bind, wp_draft, wp_lift, wp_assign, implies_true, and_true]
    exact fun _ _ => rests
  | «continue» =>
    rw [takeDecision, Returns, wp_assign]
    rfl
  | wait =>
    rw [takeDecision, Returns, wp_assign]
    exact rests

/-- To apply a round keeps the manager awake, unless it lets it rest. -/
theorem applyRound_wakes {state : ContextCheckpoint} (createId : ℕ → String)
    (cursor : ContextCursor) (decision : ContextDecision) (entries : List ContextEntry)
    (hlower : state.context.Lower) :
    Returns (applyRound cursor decision entries)
      (fun _ m => if decision.rests then Rests state m.state else m.state.runnable = true)
      (state.mutation createId) := by
  simp only [applyRound, Returns, wp_bind, wp_draft, wp_lift, requireContext_eq_ok, implies_true,
    and_true]
  intro _ hnone _ _
  refine wp_mono (returns_applyDecision decision entries hlower fun _ =>
    takeDecision_wakes createId decision entries (Option.isNone_iff_eq_none.mp hnone)) ?_
    (fun _ _ h => h)
  intro _ m h
  simpa only [wp_archive, wp_pure] using h

/-! ## Runs -/

/-- No round ends in sleep while the inbox holds something for the active frame. -/
def Operation.Attentive (s : Session) : Operation → Prop
  | .apply _ _ decision _ => (decision = .wait ∨ decision = .finishTurn) →
      ∀ delivery ∈ s.state.inbox, delivery.absorbed s.state.context = false
  | _ => True

/-- The decisions to wait and to finish let the manager rest. -/
theorem rests_iff {decision : ContextDecision} :
    decision.rests = true ↔ decision = .wait ∨ decision = .finishTurn := by
  cases decision <;> simp [ContextDecision.rests]

section Runs

variable (sha256 : String → String)

/-- The change of an operation that is no round wakes. -/
theorem Operation.Makes.wakes {state : ContextCheckpoint} {op : Operation} {change : Change Unit}
    {receiptKeys : List String} (h : op.Makes sha256 state change receiptKeys)
    (createId : ℕ → String)
    (hround : ∀ roundKey cursor decision entries, op = .apply roundKey cursor decision entries →
      Returns change (fun _ m => Wakes state m.state) (state.mutation createId)) :
    Returns change (fun _ m => Wakes state m.state) (state.mutation createId) := by
  cases h with
  | receive => exact acceptDeliveries_wakes sha256 createId _
  | receiveAvailable => exact acceptDeliveries_wakes sha256 createId _
  | prepare => exact drainInbox_wakes sha256 createId
  | apply => exact hround _ _ _ _ rfl
  | beginSummaryAttempt =>
    simp only [countAttempt, Returns, wp_bind, wp_draft, wp_lift, wp_assign, implies_true, and_true]
    exact fun _ _ _ _ => .wanted (wanted_of_pending rfl)
  | configureBudget => exact setBudgets_wakes createId _
  | retrySummary =>
    simp only [resetAttempts, Returns, wp_assign]
    refine .same rfl rfl ?_
    simp [ContextCheckpoint.wanted, ContextCheckpoint.mutation]
  | failSummary =>
    simp only [recordFailure, Returns, wp_bind, wp_draft, wp_lift, wp_assign, implies_true,
      and_true]
    exact fun _ _ => .wanted (wanted_of_pending rfl)
  | commitSummaryPhase => exact integrateSummary_wakes createId _ _
  | acknowledgeRound => exact Wakes.same rfl rfl rfl
  | commitSummary => exact integrateSummary_wakes createId _ _

/-- An attentive operation keeps the manager awake. -/
theorem Awake.perform {s : Session} (ha : Awake s) (hd : Durable s) (env : Surroundings)
    {op : Operation} (hop : op.Attentive s) : Ends (op.perform sha256 env) Awake s := by
  refine wp_mono (perform_commits sha256 env op s) ?_ (by rintro _ s' rfl; exact ha)
  rintro _ s' (rfl | ⟨change, receiptKeys, hmakes, -, m, hm, -, hstate⟩)
  · exact ha
  · rw [awake_iff] at ha ⊢
    rw [hstate]
    -- A round that ends in sleep does so while nothing waits.
    by_cases hrest : ∃ roundKey cursor decision entries,
        op = .apply roundKey cursor decision entries ∧ decision.rests = true
    · obtain ⟨roundKey, cursor, decision, entries, rfl, hr⟩ := hrest
      cases hmakes
      obtain ⟨h, -⟩ := prepared (Q := fun m => Rests s.state m.state) hm
        (by simpa only [hr, if_true] using
          applyRound_wakes env.createId cursor decision entries hd.lower)
        fun _ revision h => h.withRevision revision
      intro hw
      obtain ⟨delivery, hmem, habs⟩ := (waiting_congr h.inbox h.cursors).mp hw
      exact absurd habs (by simp [hop (rests_iff.mp hr) delivery hmem])
    · have hwakes : Returns change (fun _ m => Wakes s.state m.state)
          (s.state.mutation env.createId) := by
        refine hmakes.wakes sha256 env.createId ?_
        rintro roundKey cursor decision entries rfl
        cases hmakes
        have hr : decision.rests = false := by
          by_contra hr
          exact hrest ⟨_, _, _, _, rfl, by simpa using hr⟩
        refine wp_mono (applyRound_wakes env.createId cursor decision entries hd.lower) ?_
          (fun _ _ h => h)
        intro _ m h
        rw [hr] at h
        exact .wanted (wanted_of_runnable h)
      obtain ⟨h, -⟩ := prepared hm hwakes fun _ revision h => h.withRevision revision
      exact h.keeps ha

/-- A round that ends in sleep while something waits for the active frame forgets it. -/
theorem not_awake_of_not_attentive {s s' : Session} (hd : Durable s) {env : Surroundings}
    {op : Operation} (hop : ¬ op.Attentive s) (hperform : op.perform sha256 env s = .ok () s')
    (hne : s' ≠ s) : ¬ Awake s' := by
  have hc := (wp_ok (perform_commits sha256 env op s) hperform).resolve_left hne
  cases op with
  | apply roundKey cursor decision entries =>
    simp only [Operation.Attentive, Classical.not_imp, not_forall, Bool.not_eq_false] at hop
    obtain ⟨hr, delivery, hmem, habs⟩ := hop
    obtain ⟨change, receiptKeys, hmakes, -, m, hm, -, hstate⟩ := hc
    cases hmakes
    obtain ⟨h, -⟩ := prepared (Q := fun m => Rests s.state m.state) hm
      (by simpa only [rests_iff.mpr hr, if_true] using
        applyRound_wakes env.createId cursor decision entries hd.lower)
      fun _ revision h => h.withRevision revision
    rw [awake_iff, hstate]
    intro hawake
    have := hawake ((waiting_congr h.inbox h.cursors).mpr ⟨delivery, hmem, habs⟩)
    rw [h.unwanted] at this
    cases this
  | _ => exact (hop trivial).elim

/-- Accepted input always has a wake-up as long as no round ends with `wait` or `finish_turn` while
the inbox holds input for the active frame; and a round that does leaves that input without one. -/
theorem awake_of_attentive :
    (∀ s, (sessions sha256 fun s op => op.Attentive s).Reachable s → Awake s) ∧
    ∀ s, (sessions sha256 fun _ _ => True).Reachable s →
      ∀ (env : Surroundings) (op : Operation) (s' : Session), ¬ op.Attentive s →
        op.perform sha256 env s = .ok () s' → s' ≠ s → ¬ Awake s' := by
  constructor
  · intro s hs
    refine TransitionSystem.Reachable.invariant (P := Awake) ?_ ?_ hs
    · rintro s₀ ⟨env, options, hcreate⟩
      simp only [createAgentContextManager, bind_eq_ok, exists_unit, pure_eq_ok] at hcreate
      obtain ⟨-, -, -, -, -, -, store, -, rfl⟩ := hcreate
      rintro ⟨delivery, hmem, -⟩
      cases hmem
    · rintro t t' ht ha (⟨env, op, hop, rfl⟩ | ⟨env, hrestore⟩)
      · exact wp_finalState (ha.perform sha256 (durable_of_reachable sha256 ht) env hop)
      · rwa [(durable_of_reachable sha256 ht).restored hrestore]
  · intro s hs env op s' hop hperform hne
    exact not_awake_of_not_attentive sha256 (durable_of_reachable sha256 hs) hop hperform hne

end Runs

/-! ## A round that forgets its input -/

section Forgotten

/-- A manager that takes a delivery of at most 100 bytes. -/
def receptive : Except Fault Session :=
  createAgentContextManager (steady "a")
    { tightOptions with policy := { tightOptions.policy with maxDeliveryBytes := 100 } } .empty

/-- What a computation with a session finds, if there is the session. -/
def ifCreated (created : Except Fault Session) (f : Session → Bool) : Bool :=
  match created with
  | .ok s => f s
  | .error _ => false

/-- A test of a created manager tells of a session. -/
theorem exists_of_ifCreated {created : Except Fault Session} {f : Session → Bool}
    (h : ifCreated created f = true) : ∃ s, created = .ok s ∧ f s = true := by
  cases hc : created with
  | error e => simp [ifCreated, hc] at h
  | ok s => exact ⟨s, rfl, by simpa [ifCreated, hc] using h⟩

/-- A message of the user. -/
def greeting : ContextDelivery := ⟨"k", [⟨"e", 0, .message .user "hi" none⟩], none⟩

/-- The session after the greeting was received. -/
def greeted (s : Session) : Session :=
  finalState ((Operation.receive [greeting]).perform id (steady "b") s)

/-- A round that was prepared before the greeting came, and that ends with `wait`. -/
def waitRound : Operation := .apply "1" ⟨"a0", 0⟩ .wait []

/-- The round commits, and leaves the greeting in the inbox of a manager that nothing wakes. -/
theorem greeted_receptive : ifCreated receptive (fun s =>
    ((greeted s).state.inbox.any fun d => d.absorbed (greeted s).state.context) &&
    match waitRound.perform id (steady "c") (greeted s) with
    | .ok _ s' => decide (s'.state.revision ≠ (greeted s).state.revision) && !s'.state.wanted &&
        s'.state.inbox.any fun d => d.absorbed s'.state.context
    | .error _ _ => false) = true := by
  decide +kernel

/-- Not every accepted input has a wake-up. -/
theorem not_always_awake : ¬ ∀ s, (sessions id fun _ _ => True).Reachable s → Awake s := by
  intro h
  obtain ⟨s, hcreated, hfacts⟩ := exists_of_ifCreated greeted_receptive
  have hstart : (sessions id fun _ _ => True).Reachable s := .of_init ⟨_, _, hcreated⟩
  have hreach : (sessions id fun _ _ => True).Reachable (greeted s) :=
    hstart.step (.inl ⟨_, _, trivial, rfl⟩)
  cases hperform : waitRound.perform id (steady "c") (greeted s) with
  | error e s' => simp [hperform] at hfacts
  | ok u s' =>
    simp only [hperform, Bool.and_eq_true, Bool.not_eq_true', List.any_eq_true] at hfacts
    obtain ⟨-, ⟨-, hunwanted⟩, hwaiting⟩ := hfacts
    have hlast : s' = finalState (waitRound.perform id (steady "c") (greeted s)) := by
      rw [hperform]; rfl
    have hawake := awake_iff.mp (h s' (hreach.step (.inl ⟨_, _, trivial, hlast⟩))) hwaiting
    rw [hunwanted] at hawake
    cases hawake

/-- The greeting is not forgotten until the round ends. -/
theorem awake_greeted : ∃ s, receptive = .ok s ∧ Awake (greeted s) ∧
    ¬ Awake (finalState (waitRound.perform id (steady "c") (greeted s))) := by
  obtain ⟨s, hcreated, hfacts⟩ := exists_of_ifCreated greeted_receptive
  have hstart {allowed : Session → Operation → Prop} : (sessions id allowed).Reachable s :=
    .of_init ⟨_, _, hcreated⟩
  refine ⟨s, hcreated, ?_, ?_⟩
  · exact (awake_of_attentive id).1 _ (hstart.step (.inl ⟨_, .receive [greeting], trivial, rfl⟩))
  · have hreach : (sessions id fun _ _ => True).Reachable (greeted s) :=
      hstart.step (.inl ⟨_, _, trivial, rfl⟩)
    cases hperform : waitRound.perform id (steady "c") (greeted s) with
    | error e s' => simp [hperform] at hfacts
    | ok u s' =>
      simp only [hperform, Bool.and_eq_true, List.any_eq_true, decide_eq_true_eq] at hfacts
      obtain ⟨⟨delivery, hmem, habs⟩, ⟨hcommits, -⟩, -⟩ := hfacts
      refine (awake_of_attentive id).2 _ hreach _ waitRound s' ?_ hperform ?_
      · intro hattentive
        have := hattentive (.inl rfl) delivery hmem
        rw [habs] at this
        cases this
      · rintro rfl
        exact hcommits rfl

end Forgotten

end OsAgent.Context
