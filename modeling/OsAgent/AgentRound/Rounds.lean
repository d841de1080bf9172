import OsAgent.AgentRound.Growth
import OsAgent.AgentScheduler.Batches
import OsAgent.AgentScheduler.ExactlyOnce

/-!
# Rounds of an agent

A run of the system is any sequence of rounds, of what others do to the scheduler and the context, and of ends
of the process, after which the scheduler starts over from its store and the manager of the context is
restored. A round may fail anywhere, and then its batch comes again. `rounds_of_reachable` says what the
receipts and keys are for: a batch is consumed only after the context has accepted all of it, and no more than
one decision is applied for it.
-/

namespace OsAgent.AgentRound

open OsAgent.Library OsAgent.Context
open AgentScheduler (AgentRun AgentDispatchBatch AgentWakeEvent AsyncOperationResult Archive Filed Files)

/-- A new process starts over from what the store holds. -/
def restarted (s : AgentScheduler.Scheduler) : AgentScheduler.Scheduler :=
  { AgentScheduler.Scheduler.initial s.saves with
    readings := s.readings, draws := s.draws, controllers := s.controllers, attempts := s.attempts }

/-- One step of the system. -/
inductive Rounds.Step (options : AgentRoundOptions) (g : Rounds) : Rounds → Prop
  /-- Others do something. -/
  | act (act : Act options.agentId) : Step options g (act.perform options g)
  /-- A round is executed for a run that the scheduler handed out. -/
  | execute (env : RoundSurroundings options.agentId) {run : AgentRun} (taken : run ∈ g.taken) :
    Step options g (finalState (execute options env run g))
  /-- The process ends, and a new one starts. -/
  | restart (env : Context.Surroundings) {session : Session}
    (restored : restoreAgentContextManager env g.session.key g.session.store = .ok session) :
    Step options g { g with scheduler := restarted g.scheduler, session }

/-- The rounds of an agent, from empty stores on. -/
def Rounds.system (options : AgentRoundOptions) : TransitionSystem Rounds where
  init g := ∃ env manager session, createAgentContextManager env manager .empty = .ok session ∧
    g = { scheduler := .initial [], session, taken := [], consumed := [], decided := [] }
  step := Rounds.Step options

/-! ## What holds of every run -/

/-- The keys under which a batch is delivered. -/
def deliveryKeys (batch : AgentDispatchBatch) : List String :=
  batch.events.map eventKey ++ batch.results.map resultKey

/-- The context has accepted every input of the batch, under its key. -/
def Takes (options : AgentRoundOptions) (s : Session) (batch : AgentDispatchBatch) : Prop :=
  ∀ key ∈ deliveryKeys batch, ∃ delivery : ContextDelivery, delivery.key = key ∧
    s.HasAccepted options.sha256 delivery

/-- The scheduler or its store has the batch. -/
def HasBatch (s : AgentScheduler.Scheduler) (batch : AgentDispatchBatch) : Prop :=
  (∃ id r, s.agents.get? id = some r ∧ r.batch = some batch) ∨ ∃ c ∈ s.saves, c.batch = some batch

/-- What the rounds keep, where `archive` has the batches that were sealed. -/
structure Kept (options : AgentRoundOptions) (archive : Archive) (g : Rounds) : Prop where
  durable : Durable g.session
  filed : Filed options.scheduler archive g.scheduler
  taken : ∀ run ∈ g.taken, archive.Has g.scheduler.draws run.batch
  settled : ∀ key, HasRound g.session key →
    ∃ run ∈ g.taken, run.batch.batchId = key ∧ Takes options g.session run.batch
  consumed : ∀ batch ∈ g.consumed, archive.Has g.scheduler.draws batch ∧ HasRound g.session batch.batchId
  decided : ∀ d ∈ g.decided, HasRound g.session d.1
  once : (g.decided.map Prod.fst).Nodup

/-- The rounds are sound, for some archive of the batches. -/
def Rounds.Sound (options : AgentRoundOptions) (g : Rounds) : Prop := ∃ archive, Kept options archive g

/-- A step of others: the rounds are sound, and none is settled or decided. -/
structure Goes (options : AgentRoundOptions) (g g' : Rounds) : Prop where
  sound : g'.Sound options
  grows : Grows g.session g'.session
  taken : g.taken ⊆ g'.taken
  decided : g'.decided = g.decided

variable {options : AgentRoundOptions} {g g' g'' : Rounds} {batch : AgentDispatchBatch}

/-- The inputs of a batch stay accepted. -/
theorem Takes.mono {s s' : Session} (h : Takes options s batch)
    (hrecords : s.store.records.entries <+: s'.store.records.entries) : Takes options s' batch := by
  intro key hkey
  obtain ⟨delivery, hd, haccepted⟩ := h key hkey
  exact ⟨delivery, hd, hasAccepted_mono haccepted hrecords⟩

/-- The session of sound rounds is durable. -/
theorem Rounds.Sound.durable (h : g.Sound options) : Durable g.session := by
  obtain ⟨archive, hkept⟩ := h
  exact hkept.durable

/-- Nothing happens to sound rounds. -/
theorem Goes.refl (h : g.Sound options) : Goes options g g :=
  ⟨h, .refl h.durable, fun _ hrun => hrun, rfl⟩

/-- One step of others after another. -/
theorem Goes.trans (h : Goes options g g') (h' : Goes options g' g'') : Goes options g g'' :=
  ⟨h'.sound, h.grows.trans h'.grows, fun _ hrun => h'.taken (h.taken hrun), h'.decided.trans h.decided⟩

/-- The inputs of a batch stay accepted while others go on. -/
theorem Goes.takes (h : Goes options g g') (ht : Takes options g.session batch) :
    Takes options g'.session batch :=
  ht.mono h.grows.records

/-! ## One step of others -/

/-- The context goes on. -/
theorem Rounds.Sound.onSession (h : g.Sound options) {s : Session} (hgrows : Grows g.session s) :
    Goes options g { g with session := s } := by
  obtain ⟨archive, hkept⟩ := h
  refine ⟨⟨archive, hgrows.durable, hkept.filed, hkept.taken, ?_, ?_, ?_, hkept.once⟩, hgrows,
    fun _ hrun => hrun, rfl⟩
  · intro key hround
    obtain ⟨run, hrun, hid, htakes⟩ := hkept.settled key (hgrows.rounds key hround)
    exact ⟨run, hrun, hid, htakes.mono hgrows.records⟩
  · intro batch hbatch
    obtain ⟨hhas, hround⟩ := hkept.consumed batch hbatch
    exact ⟨hhas, hround.mono hgrows.receipts⟩
  · intro d hd
    exact (hkept.decided d hd).mono hgrows.receipts

/-- The run that an operation hands out has a batch that was sealed. -/
theorem has_of_takenRun {archive : Archive} {s : AgentScheduler.Scheduler}
    (h : Filed options.scheduler archive s) {op : AgentScheduler.Operation} {run : AgentRun}
    (hrun : takenRun options.scheduler op s = some run) : archive.Has s.draws run.batch := by
  unfold takenRun at hrun
  split at hrun
  · have hfiles := AgentScheduler.takeNextRun_files h
    split at hrun
    · rename_i taken t htaken
      exact (wp_ok hfiles htaken).2 run hrun
    · cases hrun
  · cases hrun

/-- The scheduler goes on, and what it consumes has a receipt. -/
theorem Rounds.Sound.scheduled (h : g.Sound options) (op : AgentScheduler.Operation)
    (hfinished : ∀ archive, Kept options archive g → ∀ batch,
      AgentScheduler.finishedBatch op g.scheduler options.agentId = some batch →
        archive.Has g.scheduler.draws batch ∧ HasRound g.session batch.batchId) :
    Goes options g (g.scheduled options op (finalState (op.perform options.scheduler g.scheduler))) := by
  obtain ⟨archive, hkept⟩ := h
  obtain ⟨archive', hagree, hdraws, hfiled⟩ := AgentScheduler.perform_files op hkept.filed
  have hstays : ∀ batch, archive.Has g.scheduler.draws batch →
      archive'.Has (finalState (op.perform options.scheduler g.scheduler)).draws batch :=
    fun batch hbatch => (hbatch.agree hagree).mono hdraws
  refine ⟨⟨archive', hkept.durable, hfiled, ?_, ?_, ?_, hkept.decided, hkept.once⟩, .refl hkept.durable,
    fun _ hrun => List.mem_append_left _ hrun, rfl⟩
  · intro run hrun
    rcases List.mem_append.mp hrun with hold | hnew
    · exact hstays _ (hkept.taken run hold)
    · exact hstays _ (has_of_takenRun hkept.filed (Option.mem_toList.mp hnew))
  · intro key hround
    obtain ⟨run, hrun, hid, htakes⟩ := hkept.settled key hround
    exact ⟨run, List.mem_append_left _ hrun, hid, htakes⟩
  · intro batch hbatch
    rcases List.mem_append.mp hbatch with hold | hnew
    · exact ⟨hstays _ (hkept.consumed batch hold).1, (hkept.consumed batch hold).2⟩
    · obtain ⟨hhas, hround⟩ := hfinished archive hkept batch (Option.mem_toList.mp hnew)
      exact ⟨hstays _ hhas, hround⟩

/-- Others consume no batch of the agent. -/
theorem finishedBatch_of_other {op : AgentScheduler.Operation} {s : AgentScheduler.Scheduler}
    {id : ControlBlock.AgentId} (other : finishes id op = false) :
    AgentScheduler.finishedBatch op s id = none := by
  unfold AgentScheduler.finishedBatch
  split
  · rename_i run intent
    have hne : run.agentId ≠ id := by simpa [finishes] using other
    rw [if_neg hne]
  · rfl

/-- An operation of the scheduler that finishes no run of the agent is a step of others. -/
theorem Rounds.Sound.other (h : g.Sound options) {op : AgentScheduler.Operation}
    (other : finishes options.agentId op = false) :
    Goes options g (g.scheduled options op (finalState (op.perform options.scheduler g.scheduler))) := by
  refine h.scheduled op fun archive _ batch hbatch => ?_
  rw [finishedBatch_of_other other] at hbatch
  cases hbatch

/-- What others do is a step of others. -/
theorem Act.goes (h : g.Sound options) (act : Act options.agentId) :
    Goes options g (act.perform options g) := by
  cases act with
  | context env op other => exact h.onSession (wp_finalState (perform_grows h.durable other))
  | scheduler op other => exact h.other other

/-- What others do one after the other is a step of others. -/
theorem goes_foldl (h : g.Sound options) (acts : List (Act options.agentId)) :
    Goes options g (acts.foldl (Act.perform options) g) := by
  induction acts generalizing g with
  | nil => exact .refl h
  | cons act acts ih =>
    have hact := act.goes h
    exact hact.trans (ih hact.sound)

/-! ## The parts of a round -/

section Parts

variable {α : Type} {Q : α → Rounds → Prop} {E : RoundFault → Rounds → Prop}

/-- An await is a step of others. -/
theorem wp_await (h : g.Sound options) {promise : Await options.agentId α} :
    wp (await options promise) (fun _ => Goes options g) (fun _ => Goes options g) g := by
  unfold await wp
  have hgoes := goes_foldl h promise.meanwhile
  cases promise.answer with
  | ok a => exact hgoes
  | error message => exact hgoes

/-- A call of the context that settles no round. -/
theorem wp_onContext (h : g.Sound options) {x : Operate α} (hx : Ends x (Grows g.session) g.session) :
    wp (onContext x) (fun _ => Goes options g) (fun _ => Goes options g) g := by
  unfold onContext
  rw [wp_within]
  exact wp_mono hx (fun _ _ hg => h.onSession hg) fun _ _ hg => h.onSession hg

/-- A computation changes nothing. -/
theorem wp_compute (h : g.Sound options) {x : Except Context.Fault α} :
    wp (compute x) (fun _ => Goes options g) (fun _ => Goes options g) g := by
  refine wp_onContext h ?_
  unfold Ends
  rw [wp_lift]
  exact ⟨fun _ _ => .refl h.durable, fun _ _ => .refl h.durable⟩

/-- To inspect the scheduler changes nothing. -/
theorem wp_inspect (h : g.Sound options) {id : ControlBlock.AgentId} :
    wp (inspect id) (fun _ => Goes options g) (fun _ => Goes options g) g := by
  unfold inspect
  rw [wp_within]
  unfold AgentScheduler.inspect
  rw [wp_bind]
  exact AgentScheduler.wp_recordOf (fun _ _ _ => .refl h) (fun _ _ => .refl h) (fun _ _ => .refl h)

/-- To look for an abort is a step of others. -/
theorem wp_throwIfAborted (h : g.Sound options) {env : RoundSurroundings options.agentId}
    {checkpoint : Checkpoint} : wp (throwIfAborted options env checkpoint) (fun _ => Goes options g)
      (fun _ => Goes options g) g := by
  unfold throwIfAborted
  split_ifs
  · exact .refl h
  · exact .refl h

/-- What follows a part in which others went on. -/
theorem wp_goes_bind {β : Type} {x : Round β} {f : β → Round α}
    (hx : wp x (fun _ => Goes options g) (fun _ => Goes options g) g)
    (hf : ∀ b g', Goes options g g' → wp (f b) Q (fun _ => Rounds.Sound options) g') :
    wp (x >>= f) Q (fun _ => Rounds.Sound options) g :=
  wp_bind_of hx hf fun _ _ hgoes => hgoes.sound

/-- The inputs are delivered under their keys. -/
theorem wp_resolveEach {ι : Type} {key : ι → String}
    {resolve : ι → Await options.agentId ResolvedContextInput} (inputs : List ι) (h : g.Sound options) :
    wp (resolveEach options key resolve inputs)
      (fun deliveries g' => Goes options g g' ∧ deliveries.map ContextDelivery.key = inputs.map key)
      (fun _ => Goes options g) g := by
  induction inputs generalizing g with
  | nil => exact ⟨.refl h, rfl⟩
  | cons input inputs ih =>
    refine wp_bind_of (wp_await h) ?_ (fun _ _ hgoes => hgoes)
    intro resolved g₁ h₁
    refine wp_bind_of (ih h₁.sound) ?_ (fun _ _ h₂ => h₁.trans h₂)
    rintro others g₂ ⟨h₂, hkeys⟩
    refine ⟨h₁.trans h₂, ?_⟩
    rw [List.map_cons, List.map_cons, hkeys]

/-- To resolve a batch is a step of others, and gives deliveries with the keys of the batch. -/
theorem wp_resolveBatch {env : RoundSurroundings options.agentId} (batch : AgentDispatchBatch)
    (h : g.Sound options) : wp (resolveBatch options env batch)
      (fun deliveries g' => Goes options g g' ∧
        deliveries.map ContextDelivery.key = deliveryKeys batch)
      (fun _ => Goes options g) g := by
  refine wp_bind_of (wp_resolveEach batch.events h) ?_ (fun _ _ hgoes => hgoes)
  rintro events g₁ ⟨h₁, hevents⟩
  refine wp_bind_of (wp_resolveEach batch.results h₁.sound) ?_ (fun _ _ h₂ => h₁.trans h₂)
  rintro results g₂ ⟨h₂, hresults⟩
  refine ⟨h₁.trans h₂, ?_⟩
  rw [List.map_append, hevents, hresults]
  rfl

/-- What an operation of the scheduler leaves. -/
theorem wp_schedule {op : AgentScheduler.Operation} :
    Ends (schedule options op) (fun g' =>
      g' = g.scheduled options op (finalState (op.perform options.scheduler g.scheduler))) g := by
  unfold schedule Ends wp
  dsimp only
  cases hp : op.perform options.scheduler g.scheduler with
  | ok a s => rfl
  | error e s => rfl

/-- To schedule what finishes no run is a step of others. -/
theorem wp_schedule_other (h : g.Sound options) {op : AgentScheduler.Operation}
    (other : finishes options.agentId op = false) :
    Ends (schedule options op) (Goes options g) g := by
  have hother := h.other other
  refine wp_mono wp_schedule ?_ ?_
  · rintro _ _ rfl
    exact hother
  · rintro _ _ rfl
    exact hother

/-- A round ends whose receipt is there. -/
theorem wp_finishRound (h : g.Sound options) {run : AgentRun} {intent : ContextIntent}
    (hround : HasRound g.session run.batch.batchId) :
    Ends (finishRound options run intent) (Rounds.Sound options) g := by
  unfold finishRound onContext Ends
  rw [wp_bind, wp_within]
  simp only [needsRun, wp_bind, wp_get, wp_pure]
  have hfinished : ∀ intent', Goes options g (g.scheduled options (.finishRun run intent')
      (finalState ((AgentScheduler.Operation.finishRun run intent').perform options.scheduler
        g.scheduler))) := by
    intro intent'
    refine h.scheduled _ fun archive hkept batch hbatch => ?_
    unfold AgentScheduler.finishedBatch at hbatch
    dsimp only at hbatch
    split_ifs at hbatch
    obtain ⟨r, hactive, hr⟩ := Option.bind_eq_some_iff.mp hbatch
    obtain ⟨hget, current, hcurrent, hid⟩ := AgentScheduler.exists_current hactive
    have hfiled := hkept.filed.records _ r hget
    have hsame : batch = current.batch := by
      have hrun := hfiled.run current hcurrent
      rw [hr] at hrun
      exact Option.some.inj hrun
    refine ⟨hfiled.batch batch hr, ?_⟩
    rw [hsame, hid]
    exact hround
  refine wp_mono wp_schedule ?_ ?_
  · rintro _ _ rfl
    exact (hfinished _).sound
  · rintro _ _ rfl
    exact (hfinished _).sound

/-- A round is settled whose batch was taken in. -/
theorem Rounds.Sound.settle (h : g.Sound options) {run : AgentRun} (taken : run ∈ g.taken)
    (htakes : Takes options g.session run.batch) {s : Session}
    (hs : Settles run.batch.batchId g.session s) : ({ g with session := s } : Rounds).Sound options := by
  obtain ⟨archive, hkept⟩ := h
  refine ⟨archive, hs.durable, hkept.filed, hkept.taken, ?_, ?_, ?_, hkept.once⟩
  · intro key hround
    rcases hs.rounds key hround with hold | rfl
    · obtain ⟨run', hrun, hid, ht⟩ := hkept.settled key hold
      exact ⟨run', hrun, hid, ht.mono hs.records⟩
    · exact ⟨run, taken, rfl, htakes.mono hs.records⟩
  · intro batch hbatch
    obtain ⟨hhas, hround⟩ := hkept.consumed batch hbatch
    exact ⟨hhas, hround.mono hs.receipts⟩
  · intro d hd
    exact (hkept.decided d hd).mono hs.receipts

/-- The call of the context that settles the round of a run. -/
theorem wp_settle (h : g.Sound options) {run : AgentRun} (taken : run ∈ g.taken)
    (htakes : Takes options g.session run.batch) {x : Operate Unit}
    (hx : wp x (fun _ => Settles run.batch.batchId g.session) (fun _ s' => s' = g.session) g.session) :
    wp (onContext x) (fun _ g' => g'.Sound options ∧ HasRound g'.session run.batch.batchId ∧
      g'.decided = g.decided) (fun _ => Rounds.Sound options) g := by
  unfold onContext
  rw [wp_within]
  refine wp_mono hx ?_ ?_
  · intro _ s hs
    exact ⟨h.settle taken htakes hs, hs.settled, rfl⟩
  · rintro _ s rfl
    exact h

/-- A decision is noted that is the first for its round. -/
theorem Rounds.Sound.decide (h : g.Sound options) {key : String} (decision : ContextDecision)
    (hround : HasRound g.session key) (hfirst : key ∉ g.decided.map Prod.fst) :
    ({ g with decided := g.decided ++ [(key, decision)] } : Rounds).Sound options := by
  obtain ⟨archive, hkept⟩ := h
  refine ⟨archive, hkept.durable, hkept.filed, hkept.taken, hkept.settled, hkept.consumed, ?_, ?_⟩
  · intro d hd
    rcases List.mem_append.mp hd with hold | hnew
    · exact hkept.decided d hold
    · obtain rfl := List.mem_singleton.mp hnew
      exact hround
  · rw [List.map_append, List.nodup_append]
    refine ⟨hkept.once, List.nodup_singleton _, ?_⟩
    intro k hk k' hk' hkk
    have hkey : k' = key := List.mem_singleton.mp hk'
    rw [hkk, hkey] at hk
    exact hfirst hk

end Parts

/-! ## A round -/

section Execute

variable {env : RoundSurroundings options.agentId} {run : AgentRun} {pass : Pass}

/-- To check a wait is a step of others. -/
theorem wp_checkWait (h : g.Sound options) {decision : ContextDecision} {pending : ℕ} :
    wp (checkWait options env decision pending) (fun _ => Goes options g) (fun _ => Goes options g) g := by
  unfold checkWait
  split_ifs
  · split
    · exact wp_compute h
    · exact .refl h
  · exact .refl h

/-- The work of a round that has no receipt, of a batch that was taken in. -/
theorem wp_doWork (h : g.Sound options) (taken : run ∈ g.taken)
    (htakes : Takes options g.session run.batch) (hnone : ¬HasRound g.session run.batch.batchId) :
    Ends (doWork options env run pass) (Rounds.Sound options) g := by
  unfold doWork
  have hcursor : wp (onContext cursor) (fun _ => Goes options g) (fun _ => Goes options g) g :=
    wp_onContext h (.refl h.durable)
  refine wp_goes_bind hcursor fun cursor g₁ h₁ => ?_
  refine wp_goes_bind (wp_compute h₁.sound) fun view g₂ h₂ => ?_
  refine wp_goes_bind (wp_await h₂.sound) fun decided g₃ h₃ => ?_
  obtain ⟨decision, entries⟩ := decided
  refine wp_goes_bind (wp_throwIfAborted h₃.sound) fun _ g₄ h₄ => ?_
  refine wp_goes_bind (wp_inspect h₄.sound) fun snapshot g₅ h₅ => ?_
  refine wp_goes_bind (wp_compute h₅.sound) fun _ g₆ h₆ => ?_
  refine wp_goes_bind (wp_checkWait h₆.sound) fun _ g₇ h₇ => ?_
  have hgoes : Goes options g g₇ :=
    h₁.trans (h₂.trans (h₃.trans (h₄.trans (h₅.trans (h₆.trans h₇)))))
  refine wp_bind_of (wp_settle hgoes.sound (hgoes.taken taken) (hgoes.takes htakes)
    (apply_settles hgoes.sound.durable _ _ _ _)) ?_ (fun _ _ hs => hs)
  rintro _ g₈ ⟨h₈, hround, hdecided⟩
  rw [wp_bind, wp_modify]
  have hfirst : run.batch.batchId ∉ g₈.decided.map Prod.fst := by
    intro hmem
    rw [hdecided, hgoes.decided] at hmem
    obtain ⟨d, hd, hkey⟩ := List.mem_map.mp hmem
    obtain ⟨archive, hkept⟩ := h
    exact hnone (hkey ▸ hkept.decided d hd)
  refine wp_bind_of (wp_finishRound (h₈.decide decision hround hfirst) hround) ?_ (fun _ _ hs => hs)
  exact fun _ _ hs => hs

/-- To dispatch events is a step of others. -/
theorem wp_dispatchEvents {attempted : Option PendingContextSummary}
    (events : List (Dispatched options.agentId)) (h : g.Sound options) :
    Ends (dispatchEvents options attempted events) (Goes options g) g := by
  induction events generalizing g attempted with
  | nil => exact .refl h
  | cons event events ih =>
    cases event with
    | act act =>
      have hact := act.goes h
      unfold dispatchEvents Ends
      rw [wp_bind, wp_modify]
      exact wp_mono (ih hact.sound) (fun _ _ h' => hact.trans h') fun _ _ h' => hact.trans h'
    | beforeSend aborted env =>
      unfold dispatchEvents
      split_ifs
      · exact ih h
      · have hattempt : Ends (tryCatch (onContext (beginSummaryAttempt env)) fun _ => pure none)
            (Goes options g) g := by
          unfold Ends
          rw [wp_tryCatch]
          exact wp_onContext h (beginSummaryAttempt_grows h.durable)
        refine wp_bind_of hattempt ?_ (fun _ _ h' => h')
        intro attempted g' h'
        exact wp_mono (ih h'.sound) (fun _ _ h'' => h'.trans h'') fun _ _ h'' => h'.trans h''

/-- To send a summary request is a step of others. -/
theorem wp_sendSummary (h : g.Sound options) (sending : Sending options.agentId) :
    Ends (sendSummary options sending) (Goes options g) g := by
  cases sending with
  | requester aborted env answer =>
    simp only [sendSummary]
    split_ifs
    · exact .refl h
    · refine wp_bind_of (wp_onContext h (beginSummaryAttempt_grows h.durable)) ?_ (fun _ _ h' => h')
      intro attempted g' h'
      have hanswer : Ends (tryCatch (Except.ok <$> await options answer) fun e => pure (.error e))
          (Goes options g') g' := by
        unfold Ends
        rw [wp_tryCatch, wp_map]
        exact wp_await h'.sound
      refine wp_bind_of hanswer ?_ (fun _ _ h'' => h'.trans h'')
      intro completion g'' h''
      exact h'.trans h''
  | dispatch events answer =>
    simp only [sendSummary]
    refine wp_bind_of (wp_dispatchEvents events h) ?_ (fun _ _ h' => h')
    intro attempted g' h'
    exact h'

/-- To commit the answer of a summary is a step of others. -/
theorem wp_commitAnswer (h : g.Sound options) {pending : PendingContextSummary}
    {answer : Except RoundFault SummaryCompletion} :
    Ends (commitAnswer options env run.batch.batchId pending answer) (Goes options g) g := by
  cases answer with
  | error e => exact .refl h
  | ok completion =>
    unfold commitAnswer
    refine wp_bind_of (wp_throwIfAborted h) ?_ (fun _ _ h' => h')
    intro _ g₁ h₁
    refine wp_bind_of (wp_compute h₁.sound) ?_ (fun _ _ h' => h₁.trans h')
    intro restored g₂ h₂
    have hgoes := h₁.trans h₂
    exact wp_mono (wp_onContext hgoes.sound (commitSummaryPhase_grows hgoes.sound.durable _ _ _))
      (fun _ _ h' => hgoes.trans h') fun _ _ h' => hgoes.trans h'

/-- To note a failure is a step of others. -/
theorem wp_noteFailure (h : g.Sound options) {attempted : Option PendingContextSummary} {id : String}
    {e : RoundFault} : Ends (noteFailure options env attempted id e) (Goes options g) g := by
  unfold noteFailure
  split_ifs
  · exact wp_onContext h (failSummary_grows h.durable _ _)
  · exact .refl h

/-- To settle a summary keeps the rounds sound. -/
theorem wp_settleSummary {inputsReceived : Bool} (h : g.Sound options) (taken : run ∈ g.taken)
    (htakes : inputsReceived = true → Takes options g.session run.batch) :
    Ends (settleSummary options env run inputsReceived) (Rounds.Sound options) g := by
  unfold settleSummary
  split_ifs with hreceived
  · refine wp_bind_of (wp_settle h taken (htakes hreceived) (acknowledgeRound_settles h.durable _)) ?_
      (fun _ _ hs => hs)
    rintro _ g' ⟨h', hround, -⟩
    exact wp_finishRound h' hround
  · exact wp_mono (wp_schedule_other h rfl) (fun _ _ h' => h'.sound) fun _ _ h' => h'.sound

/-- To summarize keeps the rounds sound. -/
theorem wp_summarize {pending : PendingContextSummary} (h : g.Sound options) (taken : run ∈ g.taken)
    (htakes : pass.inputsReceived = true → Takes options g.session run.batch) :
    Ends (summarize options env run pass pending) (Rounds.Sound options) g := by
  unfold summarize
  refine wp_goes_bind (wp_compute h) fun input g₁ h₁ => ?_
  refine wp_goes_bind (wp_throwIfAborted h₁.sound) fun _ g₂ h₂ => ?_
  refine wp_goes_bind (wp_compute h₂.sound) fun bounded g₃ h₃ => ?_
  refine wp_goes_bind (wp_sendSummary h₃.sound _) fun sent g₄ h₄ => ?_
  obtain ⟨attempted, answer⟩ := sent
  have hcommit : Ends (tryCatch (commitAnswer options env run.batch.batchId (attempted.getD pending) answer)
      fun e => do
        noteFailure options env attempted (attempted.getD pending).id e
        throw e) (Goes options g₄) g₄ := by
    unfold Ends
    rw [wp_tryCatch]
    refine wp_mono (wp_commitAnswer h₄.sound) (fun _ _ h' => h') ?_
    intro e g' h'
    refine wp_bind_of (wp_noteFailure h'.sound) ?_ (fun _ _ h'' => h'.trans h'')
    intro _ g'' h''
    exact h'.trans h''
  refine wp_goes_bind hcommit fun _ g₅ h₅ => ?_
  have hgoes : Goes options g g₅ := h₁.trans (h₂.trans (h₃.trans (h₄.trans h₅)))
  refine wp_bind_of (wp_settleSummary hgoes.sound (hgoes.taken taken)
    fun hreceived => hgoes.takes (htakes hreceived)) ?_ (fun _ _ hs => hs)
  exact fun _ _ hs => hs

/-- To replay a summary keeps the rounds sound. -/
theorem wp_replaySummary {inputsReceived : Bool} (h : g.Sound options) (taken : run ∈ g.taken)
    (htakes : inputsReceived = true → Takes options g.session run.batch) :
    wp (replaySummary options env run inputsReceived)
      (fun replayed g' => if replayed then g'.Sound options else Goes options g g')
      (fun _ => Rounds.Sound options) g := by
  unfold replaySummary
  split_ifs with hreceived
  · refine wp_goes_bind (wp_await h) fun _ g₁ h₁ => ?_
    have hreceipt : Ends (summaryReceipt (env.context .summaryReceipt) run.batch.batchId)
        (Grows g₁.session) g₁.session := by
      refine wp_mono (receipt_unchanged _ _ _) ?_ ?_
      · rintro _ s ⟨rfl, -⟩
        exact .refl h₁.sound.durable
      · rintro _ s rfl
        exact .refl h₁.sound.durable
    refine wp_goes_bind (wp_onContext h₁.sound hreceipt) fun receipt g₂ h₂ => ?_
    have hgoes := h₁.trans h₂
    split_ifs
    · refine wp_bind_of (wp_settle hgoes.sound (hgoes.taken taken) (hgoes.takes (htakes hreceived))
        (acknowledgeRound_settles hgoes.sound.durable _)) ?_ (fun _ _ hs => hs)
      rintro _ g₃ ⟨h₃, hround, -⟩
      refine wp_bind_of (wp_finishRound h₃ hround) ?_ (fun _ _ hs => hs)
      exact fun _ _ hs => hs
    · exact hgoes
  · exact .refl h

/-- What follows a drain keeps the rounds sound. -/
theorem wp_afterDrain (h : g.Sound options) (taken : run ∈ g.taken)
    (htakes : pass.inputsReceived = true → Takes options g.session run.batch)
    (hnone : ¬HasRound g.session run.batch.batchId) :
    Ends (afterDrain options env run pass) (Rounds.Sound options) g := by
  unfold afterDrain
  refine wp_bind_of (wp_replaySummary h taken htakes) ?_ (fun _ _ hs => hs)
  intro replayed g₁ h₁
  cases replayed with
  | true => exact h₁
  | false =>
    have hgoes : Goes options g g₁ := h₁
    rw [if_neg Bool.false_ne_true]
    split
    · exact wp_summarize hgoes.sound (hgoes.taken taken) fun hr => hgoes.takes (htakes hr)
    · unfold compute onContext
      rw [wp_bind, wp_within, wp_lift]
      constructor
      · intro _ hreceived
        rw [requireContext_eq_ok] at hreceived
        exact wp_doWork hgoes.sound (hgoes.taken taken) (hgoes.takes (htakes hreceived))
          fun hround => hnone (hgoes.grows.rounds _ hround)
      · exact fun _ _ => hgoes.sound

/-- The deliveries of a batch that are accepted are all of it. -/
theorem takes_of_accepted {deliveries : List ContextDelivery} {s : Session} {batch : AgentDispatchBatch}
    (hkeys : deliveries.map ContextDelivery.key = deliveryKeys batch)
    (h : ∀ d ∈ deliveries, s.HasAccepted options.sha256 d) : Takes options s batch := by
  intro key hkey
  rw [← hkeys] at hkey
  obtain ⟨delivery, hd, rfl⟩ := List.mem_map.mp hkey
  exact ⟨delivery, rfl, h delivery hd⟩

/-- To execute a batch keeps the rounds sound. -/
theorem wp_executeBatch (h : g.Sound options) (taken : run ∈ g.taken) :
    Ends (executeBatch options env run) (Rounds.Sound options) g := by
  unfold executeBatch
  -- Others go on before the runner looks for a receipt of the batch.
  refine wp_goes_bind (wp_throwIfAborted h) fun _ g₁ h₁ => ?_
  unfold onContext
  rw [wp_bind, wp_within]
  refine wp_mono (receipt_unchanged _ (roundKeyOf run.batch.batchId) g₁.session) ?_ ?_
  · rintro receipt s ⟨rfl, hreceipt⟩
    split
    · rename_i found
      -- There is one, so the batch was settled by an earlier round and is consumed.
      have hround : HasRound g₁.session run.batch.batchId := by
        unfold HasRound OrderedMap.has
        rw [← hreceipt]
        rfl
      refine wp_bind_of (wp_finishRound h₁.sound hround) ?_ (fun _ _ hs => hs)
      exact fun _ _ hs => hs
    · -- There is none, so the inputs are resolved, drained and worked on.
      have hnone : ¬HasRound g₁.session run.batch.batchId := by
        unfold HasRound OrderedMap.has
        rw [← hreceipt]
        exact Bool.false_ne_true
      refine wp_bind_of (wp_resolveBatch run.batch h₁.sound) ?_ (fun _ _ hgoes => hgoes.sound)
      rintro deliveries g₂ ⟨h₂, hkeys⟩
      have hvalid := h₂.sound.durable.valid
      rw [wp_bind, wp_within]
      refine wp_mono (wp_and (drain_grows h₂.sound.durable)
        (drain_stops (Nat.lt_succ_self _) hvalid)) ?_ ?_
      · rintro drained s ⟨hgrows, pass, rfl, -, hends⟩
        -- The drain settles no round, so there is still no receipt.
        have h₃ := h₂.sound.onSession hgrows
        have hgoes := h₂.trans h₃
        refine wp_afterDrain h₃.sound ((h₁.trans hgoes).taken taken) ?_
          fun hround => hnone (hgoes.grows.rounds _ hround)
        exact fun hreceived => takes_of_accepted hkeys (hends.received hreceived)
      · rintro _ s ⟨hgrows, -⟩
        exact (h₂.sound.onSession hgrows).sound
  · rintro _ s rfl
    exact h₁.sound

/-- A round keeps what the rounds keep, however it ends. -/
theorem wp_execute (h : g.Sound options) (taken : run ∈ g.taken) :
    Ends (execute options env run) (Rounds.Sound options) g := by
  unfold execute
  refine wp_goes_bind (wp_compute h) fun _ g₁ h₁ => ?_
  refine wp_goes_bind (wp_inspect h₁.sound) fun snapshot g₂ h₂ => ?_
  refine wp_goes_bind (wp_compute h₂.sound) fun _ g₃ h₃ => ?_
  have hgoes := h₁.trans (h₂.trans h₃)
  rw [wp_tryCatch]
  refine wp_mono (wp_executeBatch hgoes.sound (hgoes.taken taken)) (fun _ _ hs => hs) ?_
  intro e g₄ h₄
  have hback : Ends (giveBack options env run e) (Rounds.Sound options) g₄ := by
    unfold giveBack
    refine wp_goes_bind (wp_inspect h₄) fun snapshot g₅ h₅ => ?_
    split_ifs
    · refine wp_goes_bind (wp_schedule_other h₅.sound rfl) fun _ g₆ h₆ => ?_
      exact wp_mono (wp_await h₆.sound) (fun _ _ h' => h'.sound) fun _ _ h' => h'.sound
    · exact h₅.sound
  refine wp_bind_of hback ?_ (fun _ _ hs => hs)
  exact fun _ _ hs => hs

end Execute

/-! ## Whole runs -/

/-- A new scheduler has what the store has. -/
theorem filed_restarted {env : AgentScheduler.Environment} {archive : Archive}
    {s : AgentScheduler.Scheduler} (h : Filed env archive s) : Filed env archive (restarted s) where
  ids := h.ids
  records id r hr := by
    rw [show (restarted s).agents = .empty from rfl, OrderedMap.get?_empty] at hr
    cases hr
  saves := h.saves

/-- A restart keeps the rounds sound. -/
theorem Rounds.Sound.restart (h : g.Sound options) :
    ({ g with scheduler := restarted g.scheduler } : Rounds).Sound options := by
  obtain ⟨archive, hkept⟩ := h
  exact ⟨archive, hkept.durable, filed_restarted hkept.filed, hkept.taken, hkept.settled, hkept.consumed,
    hkept.decided, hkept.once⟩

/-- A step keeps what the rounds keep. -/
theorem Rounds.Step.sound (step : Rounds.Step options g g') (h : g.Sound options) : g'.Sound options := by
  cases step with
  | act act => exact (act.goes h).sound
  | execute env taken => exact wp_finalState (wp_execute h taken)
  | restart env restored =>
    rw [h.durable.restored restored]
    exact h.restart

/-- At the start nothing was sealed, and no round has a receipt. -/
theorem sound_created {env : Context.Surroundings} {manager : ContextManagerOptions} {session : Session}
    (h : createAgentContextManager env manager .empty = .ok session) :
    ({ scheduler := .initial [], session, taken := [], consumed := [], decided := [] } : Rounds).Sound
      options := by
  have hnone : ∀ key, ¬HasRound session key := not_hasRound_created h
  refine ⟨fun k => ⟨0, options.scheduler.uuid k, 0, [], [], [], false⟩, durable_created h, ⟨fun _ => rfl, ?_, ?_⟩, ?_, ?_, ?_, ?_, List.nodup_nil⟩
  · intro id r hr
    rw [show (AgentScheduler.Scheduler.initial []).agents = .empty from rfl, OrderedMap.get?_empty] at hr
    cases hr
  · exact fun _ hc => absurd hc List.not_mem_nil
  · exact fun _ hrun => absurd hrun List.not_mem_nil
  · exact fun key hround => absurd hround (hnone key)
  · exact fun _ hbatch => absurd hbatch List.not_mem_nil
  · exact fun _ hd => absurd hd List.not_mem_nil

/-- The rounds of every run are sound. -/
theorem sound_of_reachable (h : (Rounds.system options).Reachable g) : g.Sound options := by
  refine h.invariant ?_ ?_
  · rintro _ ⟨env, manager, session, hcreated, rfl⟩
    exact sound_created hcreated
  · intro g₀ g₁ _ hsound step
    exact Rounds.Step.sound step hsound

/-- Whatever batch the scheduler or its store has was sealed. -/
theorem Kept.has {archive : Archive} (h : Kept options archive g) (hbatch : HasBatch g.scheduler batch) :
    archive.Has g.scheduler.draws batch := by
  rcases hbatch with ⟨id, r, hget, hr⟩ | ⟨c, hc, hr⟩
  · exact (h.filed.records id r hget).batch batch hr
  · exact h.filed.saves c hc batch hr

/-- After any run: a batch that was consumed was accepted in full, by a round with a receipt. A decision was
applied once for its batch, after all of that was accepted. What comes again of a batch that was handed out is
what it was. -/
theorem rounds_of_reachable (hinj : Function.Injective options.scheduler.uuid)
    (h : (Rounds.system options).Reachable g) :
    (∀ batch ∈ g.consumed, HasRound g.session batch.batchId ∧ Takes options g.session batch) ∧
      (∀ d ∈ g.decided, HasRound g.session d.1 ∧
        ∃ run ∈ g.taken, run.batch.batchId = d.1 ∧ Takes options g.session run.batch) ∧
      (g.decided.map Prod.fst).Nodup ∧
      ∀ run ∈ g.taken, ∀ batch, HasBatch g.scheduler batch → batch.batchId = run.batch.batchId →
        batch = run.batch := by
  obtain ⟨archive, hkept⟩ := sound_of_reachable h
  have heq : ∀ run ∈ g.taken, ∀ batch, archive.Has g.scheduler.draws batch →
      batch.batchId = run.batch.batchId → batch = run.batch :=
    fun run hrun batch hbatch hid =>
      Archive.eq_of_batchId hinj hkept.filed.ids hbatch (hkept.taken run hrun) hid
  refine ⟨?_, ?_, hkept.once, fun run hrun batch hbatch => heq run hrun batch (hkept.has hbatch)⟩
  · intro batch hbatch
    obtain ⟨hhas, hround⟩ := hkept.consumed batch hbatch
    obtain ⟨run, hrun, hid, htakes⟩ := hkept.settled _ hround
    refine ⟨hround, ?_⟩
    rw [heq run hrun batch hhas hid.symm]
    exact htakes
  · intro d hd
    have hround := hkept.decided d hd
    exact ⟨hround, hkept.settled _ hround⟩

section Witness

/-- The options of an agent that works. -/
def workOptions : AgentRoundOptions where
  agentId := 1
  maxRequestTokens := 2000
  maxOutputTokens := 500
  formatError _ := ""
  scheduler := AgentScheduler.quietEnvironment
  sha256 := id
  parameters := .null
  issues _ := ""

/-- A round in which the host answers a message and has nothing more to do. -/
def workRound : RoundSurroundings workOptions.agentId where
  context _ := calm 1
  aborted _ := false
  resolveEvent event := ⟨[], .ok ⟨[⟨event.eventRef, 0, .message .user "hello" none⟩], none⟩⟩
  resolveResult _ := ⟨[], .ok ⟨[], none⟩⟩
  inputsReceived := ⟨[], .ok ()⟩
  summary _ := .dispatch [] (.error "")
  work _ := ⟨[], .ok (.idle, [])⟩
  waitSatisfied := .ok false
  failureReturned _ := ⟨[], .ok ()⟩

/-- The rounds of a context after the scheduler handed out the batch of an event. -/
def handedOut (session : Session) : Rounds :=
  (.scheduler .takeNextRun rfl : Act 1).perform workOptions <|
    (.scheduler (.timer 1) rfl : Act 1).perform workOptions <|
      (.scheduler (.notify 1 ⟨"event-1", "message-1"⟩) rfl : Act 1).perform workOptions <|
        (.scheduler (.register ⟨1, .sleeping⟩) rfl : Act 1).perform workOptions
          { scheduler := .initial [], session, taken := [], consumed := [], decided := [] }

/-- The rounds in which a run was handed out are reachable. -/
theorem reachable_handedOut {env : Context.Surroundings} {manager : ContextManagerOptions} {session : Session}
    (h : createAgentContextManager env manager .empty = .ok session) :
    (Rounds.system workOptions).Reachable (handedOut session) :=
  .step (.step (.step (.step (.of_init ⟨env, manager, session, h, rfl⟩) (.act _)) (.act _)) (.act _)) (.act _)

/-- Whether the round of the first run consumes the batch of the event. -/
def consumesEvent : Bool :=
  match createAgentContextManager (calm 0) narrowOptions .empty with
  | .error _ => false
  | .ok session =>
    match (handedOut session).taken with
    | [] => false
    | run :: _ =>
      let g := finalState (execute workOptions workRound run (handedOut session))
      g.decided = [("u", .idle)] ∧ g.consumed.map AgentDispatchBatch.events = [[⟨"event-1", "message-1"⟩]]

/-- A round answers an event. -/
theorem rounds_consumesEvent : ∃ g, (Rounds.system workOptions).Reachable g ∧
    g.decided = [("u", .idle)] ∧ ∃ batch ∈ g.consumed, batch.events = [⟨"event-1", "message-1"⟩] ∧
      HasRound g.session batch.batchId ∧ Takes workOptions g.session batch := by
  have hconsumes : consumesEvent = true := by decide +kernel
  unfold consumesEvent at hconsumes
  cases hcreated : createAgentContextManager (calm 0) narrowOptions .empty with
  | error e => simp [hcreated] at hconsumes
  | ok session =>
    cases htaken : (handedOut session).taken with
    | nil => simp [hcreated, htaken] at hconsumes
    | cons run runs =>
      simp only [hcreated, htaken, decide_eq_true_eq] at hconsumes
      obtain ⟨hdecided, hevents⟩ := hconsumes
      have hreach : (Rounds.system workOptions).Reachable
          (finalState (execute workOptions workRound run (handedOut session))) := by
        refine .step (reachable_handedOut hcreated) (.execute workRound ?_)
        rw [htaken]
        exact List.mem_cons_self
      have hrounds := rounds_of_reachable AgentScheduler.uuid_injective hreach
      have hmem : [⟨"event-1", "message-1"⟩] ∈ (finalState (execute workOptions workRound run
          (handedOut session))).consumed.map AgentDispatchBatch.events := by
        rw [hevents]
        exact List.mem_cons_self
      obtain ⟨batch, hbatch, hevent⟩ := List.mem_map.mp hmem
      exact ⟨_, hreach, hdecided, batch, hbatch, hevent, hrounds.1 batch hbatch⟩

end Witness

end OsAgent.AgentRound
