import OsAgent.AgentRuntime.Soundness

/-!
# Every stretch of code is a sequence of moves

One lemma for each function of the executor: whatever it does before it ends, and however it ends, is
a sequence of moves. What a move demands is found in the checks that the function has made and in what
held before.
-/

namespace OsAgent.AgentRuntime

open OsAgent.Library
open ControlBlock (AgentId)
open AgentScheduler (AsyncOperation AsyncOperationResult)
open Context (ContextCursor)

/-- A sequence of moves. -/
abbrev Moves : Executor → Executor → Prop := Relation.ReflTransGen Move

/-- A process that moves from a sound one is sound. -/
theorem Moves.sound {s s' : Executor} (h : Sound s) (moves : Moves s s') : Sound s' := by
  induction moves with
  | refl => exact h
  | tail _ move ih => exact move.sound ih

/-- A move keeps the isolation. -/
theorem Move.isolated {s s' : Executor} (move : Move s s') (h : s.isolated = true) :
    s'.isolated = true := by
  cases move with
  | launch operation hl =>
    rw [launch_eq hl]
    exact h
  | isolate => rfl
  | invoke l =>
    show (s.record l.operation).isolated = true
    unfold Executor.record
    split_ifs
    · exact h
    · exact h
  | _ => exact h

/-- Moves keep the isolation. -/
theorem Moves.isolated {s s' : Executor} (moves : Moves s s') (h : s.isolated = true) :
    s'.isolated = true := by
  induction moves with
  | refl => exact h
  | tail _ move ih => exact move.isolated ih

variable {env : Surroundings} {s s' : Executor} {operation : ExecutionOperation} {l : Launch}

/-! ## Writes that concern no launch -/

/-- Only what is noted beside the operations has changed. -/
def Quiet (s s' : Executor) : Prop :=
  ∃ results waits reconciliations writes,
    s' = { s with results, waits, reconciliations, writes }

/-- Nothing has changed. -/
theorem Quiet.refl (s : Executor) : Quiet s s := ⟨_, _, _, _, rfl⟩

/-- One quiet part after another. -/
theorem Quiet.trans {s'' : Executor} (h : Quiet s s') (h' : Quiet s' s'') : Quiet s s'' := by
  obtain ⟨results, waits, reconciliations, writes, rfl⟩ := h
  obtain ⟨results', waits', reconciliations', writes', rfl⟩ := h'
  exact ⟨_, _, _, _, rfl⟩

/-- What is quiet moves the process. -/
theorem Quiet.moves (h : Quiet s s') : Moves s s' := by
  obtain ⟨results, waits, reconciliations, writes, rfl⟩ := h
  exact .single (.note ..)

/-- The operations have not changed. -/
theorem Quiet.operations (h : Quiet s s') : s'.operations = s.operations := by
  obtain ⟨results, waits, reconciliations, writes, rfl⟩ := h
  rfl

/-- A write changes the store, unless the process ends before it. -/
@[simp]
theorem wp_write {change : Executor → Executor} {Q : Unit → Executor → Prop}
    {E : Stop → Executor → Prop} : wp (write env change) Q E s ↔
      if env.crashes s.writes then E .crash s
      else Q () { change s with writes := s.writes + 1 } := by
  simp [write]

/-- To save what is known of an operation is quiet. -/
theorem quiet_snapshot : wp (snapshot env operation) (fun _ => Quiet s) (fun _ => Quiet s) s := by
  simp only [snapshot, wp_bind, wp_write, wp_pure]
  split_ifs
  · exact .refl s
  · exact ⟨_, _, _, _, rfl⟩

/-- To tell the scheduler is quiet. -/
theorem quiet_deliver : wp (deliver env operation) (fun _ => Quiet s) (fun _ => Quiet s) s := by
  unfold deliver
  split
  · exact .refl s
  · simp only [wp_bind, wp_lift]
    exact wp_mono quiet_snapshot (fun _ _ h => ⟨fun _ _ => h, fun _ _ => h⟩) fun _ _ h => h

/-- To tell the host is quiet. -/
theorem quiet_deliverReconciliation :
    wp (deliverReconciliation env operation) (fun _ => Quiet s) (fun _ => Quiet s) s := by
  simp only [deliverReconciliation, wp_bind, wp_get, wp_ite, wp_lift, wp_pure]
  split_ifs
  · refine wp_mono quiet_snapshot (fun _ s' h => ⟨fun _ _ => ?_, fun _ _ => h⟩) fun _ _ h => h
    simp only [acknowledgeReconciliation, wp_write]
    split_ifs
    · exact h
    · exact h.trans ⟨_, _, _, _, rfl⟩
    · exact h
  · exact .refl s

/-! ## Writes of operations -/

/-- The operation is as it is stored, up to its state and result. -/
def Executor.Stored (s : Executor) (operation : ExecutionOperation) : Prop :=
  ∀ old, s.operations.get? operation.id = some old →
    old.agentId = operation.agentId ∧ old.effect = operation.effect

/-- An operation that differs in its state from the stored one. -/
theorem stored_of_get? {old : ExecutionOperation} (h : s.operations.get? operation.id = some old)
    (agentId : old.agentId = operation.agentId) (effect : old.effect = operation.effect) :
    s.Stored operation := by
  intro old' hold
  rw [h] at hold
  obtain rfl := Option.some.inj hold
  exact ⟨agentId, effect⟩

/-- No launch waits for the tool of an operation that is not stored as running or unknown. -/
theorem free_of_stored {old : ExecutionOperation} (h : Sound s)
    (stored : s.operations.get? operation.id = some old) (mutating : old.effect.mutating)
    (running : old.state ≠ .running) (unknown : old.state ≠ .unknown) : s.Free operation.id := by
  intro l hl hid hbusy
  rw [← hid] at stored
  rw [h.placed.effect_eq hl stored] at mutating
  rcases h.locked.recorded l hl mutating hbusy old stored with hstate | hstate
  · exact running hstate
  · exact unknown hstate

/-- No launch of a mutation that waits is about to call its tool. -/
theorem free_of_waiting (h : Sound s) (stored : s.operations.get? operation.id = some operation)
    (mutating : operation.effect.mutating) (waiting : operation.waiting) :
    s.Free operation.id := by
  simp only [ExecutionOperation.waiting, Bool.or_eq_true, decide_eq_true_eq] at waiting
  refine free_of_stored h stored mutating ?_ ?_
  · rcases waiting with hstate | hstate <;> rw [hstate] <;> exact fun h => (by cases h)
  · rcases waiting with hstate | hstate <;> rw [hstate] <;> exact fun h => (by cases h)

/-- A write after which there is nothing to execute. -/
theorem writable_of_done (h : s.Stored operation)
    (free : operation.effect.mutating → s.Free operation.id)
    (state : operation.state = .failed ∨ operation.state = .succeeded) : s.Writable operation where
  same := h
  finished hmutating _ _ := free hmutating
  waiting _ hwaiting := by
    rcases state with hstate | hstate <;> simp [ExecutionOperation.waiting, hstate] at hwaiting
  running _ hrunning := by
    rcases state with hstate | hstate <;> rw [hstate] at hrunning <;> cases hrunning
  unknown _ hunknown := by
    rcases state with hstate | hstate <;> rw [hstate] at hunknown <;> cases hunknown

/-- A write and what comes after it. -/
theorem ends_put {E : Stop → Executor → Prop} {Q : Unit → Executor → Prop}
    (hE : E .crash s)
    (hQ : ∀ s', Quiet (s.put operation) s' → s'.writes = s.writes + 1 → Q () s') :
    wp (putOperation env operation) Q E s := by
  simp only [putOperation, wp_write]
  split_ifs
  · exact hE
  · exact hQ _ ⟨_, _, _, _, rfl⟩ rfl

/-- To write an operation leaves the others alone. -/
theorem get?_put (id : String) : (s.put operation).operations.get? id =
    if id = operation.id then some operation else s.operations.get? id :=
  OrderedMap.get?_insert ..

/-- Moves that leave the launches alone. -/
def Aside (s s' : Executor) : Prop := Moves s s' ∧ s'.launches = s.launches

/-- The launches have not changed. -/
theorem Quiet.launches (h : Quiet s s') : s'.launches = s.launches := by
  obtain ⟨results, waits, reconciliations, writes, rfl⟩ := h
  rfl

/-- An operation is written and its result delivered. -/
theorem moves_putDeliver (h : s.Writable operation) :
    wp (do putOperation env operation; deliver env operation)
      (fun _ s' => Moves s s' ∧ Quiet (s.put operation) s') (fun _ => Aside s) s := by
  have hput : Moves s (s.put operation) := .single (.put operation h)
  rw [wp_bind]
  refine ends_put ⟨.refl, rfl⟩ fun s₁ h₁ _ => ?_
  refine wp_mono quiet_deliver (fun _ s₂ h₂ => ?_) fun _ s₂ h₂ => ?_
  · exact ⟨hput.trans (h₁.trans h₂).moves, h₁.trans h₂⟩
  · exact ⟨hput.trans (h₁.trans h₂).moves, (h₁.trans h₂).launches⟩

/-- An operation expires, or is left alone because it does not wait. -/
theorem moves_expire (h : s.Stored operation)
    (free : operation.waiting → operation.effect.mutating → s.Free operation.id) :
    wp (expire env operation)
    (fun _ s' => Moves s s' ∧
      if operation.waiting then Quiet (s.put operation.expired) s' else s' = s)
    (fun _ => Aside s) s := by
  rw [expire, wp_ite]
  split_ifs with hwaiting
  · exact moves_putDeliver (writable_of_done h (free hwaiting) (.inl rfl))
  · exact ⟨.refl, rfl⟩

/-- A stored operation expires, or is left alone. -/
theorem moves_expireStored (h : Sound s)
    (stored : s.operations.get? operation.id = some operation) : wp (expire env operation)
    (fun _ s' => Moves s s' ∧
      if operation.waiting then Quiet (s.put operation.expired) s' else s' = s)
    (fun _ => Aside s) s :=
  moves_expire (stored_of_get? stored rfl rfl) fun hwaiting hmutating =>
    free_of_waiting h stored hmutating hwaiting

/-! ## Launches -/

/-- An operation is launched, unless it is active or the executor stops. -/
theorem moves_launch (h : Sound s) (isolated : s.isolated = true)
    (stored : ∃ old, s.operations.get? operation.id = some old ∧
      old.agentId = operation.agentId ∧ old.effect = operation.effect ∧
      (operation.effect.mutating → old.state = .registered ∨ old.state = .running)) :
    Moves s (s.launch operation) := by
  by_cases hidle : s.stopping || (s.active operation.id).isSome
  · rw [Executor.launch, if_pos hidle]
  · simp only [Bool.or_eq_true, not_or, Bool.not_eq_true, Option.isSome_eq_false_iff,
      Option.isNone_iff_eq_none] at hidle
    obtain ⟨running, inactive⟩ := hidle
    obtain ⟨old, hget, hagent, heffect, hstate⟩ := stored
    refine .single (.launch operation ⟨isolated, running, inactive, old, hget, hagent, heffect, ?_⟩)
    intro hmutating
    rcases hstate hmutating with hregistered | hrunning
    · exact hregistered
    -- What is running is attended to, and so is active.
    · obtain ⟨l, hl, hid, hphase⟩ := h.locked.running isolated old (OrderedMap.mem_of_get? hget)
        (by rw [heffect]; exact hmutating) hrunning
      have hid' : l.operation.id = operation.id := hid.trans (OrderedMap.key_of_get? hget)
      have hactive := h.registered l hl ?_
      · rw [hid', inactive] at hactive
        cases hactive
      · rcases hphase with hexecuting | hfaulted
        · simp [hexecuting]
        · intro hsettled
          have hstopping := ((h.placed.phased l hl).faulted hfaulted).2 (by simp [hsettled])
          rw [running] at hstopping
          cases hstopping

/-- An operation is launched as it is stored. -/
theorem moves_launch_stored (h : Sound s) (isolated : s.isolated = true)
    (stored : s.operations.get? operation.id = some operation)
    (state : operation.state = .registered ∨ operation.state = .running) :
    Moves s (s.launch operation) :=
  moves_launch h isolated ⟨operation, stored, rfl, rfl, fun _ => state⟩

/-- To launch an operation does not write it. -/
theorem operations_launch : (s.launch operation).operations = s.operations := by
  unfold Executor.launch
  split_ifs <;> rfl

/-! ## Staging a round -/

/-- A record that is new, or is written as it is stored but for the scheduler's handle. -/
theorem writable_of_same (h : Sound s)
    (same : ∀ old, s.operations.get? operation.id = some old →
      old.agentId = operation.agentId ∧ old.effect = operation.effect ∧
        old.state = operation.state)
    (fresh : s.operations.get? operation.id = none →
      operation.state ≠ .running ∧ operation.state ≠ .unknown) : s.Writable operation := by
  -- Each condition reads the stored record, or there is none.
  constructor
  case same => exact fun old hold => ⟨(same old hold).1, (same old hold).2.1⟩
  case waiting =>
    intro _ hwaiting old hold
    have hstate := (same old hold).2.2
    simpa [ExecutionOperation.waiting, hstate] using hwaiting
  case running =>
    intro hmutating hrunning hisolated
    cases hget : s.operations.get? operation.id with
    | none => exact absurd hrunning (fresh hget).1
    | some old =>
      obtain ⟨-, heffect, hstate⟩ := same old hget
      have hattended := h.locked.running hisolated old (OrderedMap.mem_of_get? hget)
        (by rw [heffect]; exact hmutating) (by rw [hstate]; exact hrunning)
      rwa [OrderedMap.key_of_get? hget] at hattended
  case unknown =>
    intro _ hunknown
    cases hget : s.operations.get? operation.id with
    | none => exact absurd hunknown (fresh hget).2
    | some old => exact .inl ⟨old, rfl, by rw [(same old hget).2.2]; exact hunknown⟩
  case finished =>
    intro hmutating hrunning hunknown
    -- A launch of it is known, so its record is stored.
    cases hget : s.operations.get? operation.id with
    | none =>
      intro l hl hid
      obtain ⟨stored, hstored, -⟩ := h.placed.known l hl
      rw [hid, hget] at hstored
      cases hstored
    | some old =>
      obtain ⟨-, heffect, hstate⟩ := same old hget
      exact free_of_stored h hget (by rw [heffect]; exact hmutating) (by rw [hstate]; exact hrunning)
        (by rw [hstate]; exact hunknown)

/-- A write that leaves an operation as it is stored but for the scheduler's handle. -/
theorem writable_withHandle (h : Sound s) (stored : s.operations.get? operation.id = some operation)
    (handle : AsyncOperation) :
    s.Writable { operation with schedulerOperation := some handle } := by
  refine writable_of_same h (fun old hold => ?_) fun hnone => ?_
  · rw [stored] at hold
    obtain rfl := Option.some.inj hold
    exact ⟨rfl, rfl, rfl⟩
  · rw [stored] at hnone
    cases hnone

/-- An operation is registered with the scheduler, and the handle is written. -/
theorem moves_withHandle (h : Sound s) (stored : s.operations.get? operation.id = some operation)
    (handle : AsyncOperation) :
    wp (putOperation env { operation with schedulerOperation := some handle })
      (fun _ s' => Moves s s' ∧ s'.operations.get? operation.id =
        some { operation with schedulerOperation := some handle }) (fun _ => Moves s) s := by
  refine ends_put .refl fun s' h' _ => ⟨?_, ?_⟩
  · exact .head (.put _ (writable_withHandle h stored handle)) h'.moves
  · rw [h'.operations, get?_put]
    exact if_pos rfl

/-- To record a new operation moves the process. -/
theorem moves_recordNew {judgement : Judgement} (h : Sound s) (isolated : s.isolated = true)
    (new : s.operations.get? operation.id = none)
    (fresh : operation.state ≠ .running ∧ operation.state ≠ .unknown)
    (state : judgement = .allowed → operation.state = .registered) :
    Ends (recordNew env operation judgement) (Moves s) s := by
  have hwritable : s.Writable operation := by
    refine writable_of_same h (fun old hold => ?_) fun _ => fresh
    rw [new] at hold
    cases hold
  have hput : Moves s (s.put operation) := .single (.put operation hwritable)
  simp only [recordNew, Ends, wp_bind, wp_lift]
  refine ends_put .refl fun s₁ h₁ _ => ⟨fun handle _ => ?_, fun _ _ => hput.trans h₁.moves⟩
  have hs₁ : Moves s s₁ := hput.trans h₁.moves
  have hstored : s₁.operations.get? operation.id = some operation := by
    rw [h₁.operations, get?_put, if_pos rfl]
  refine wp_mono (moves_withHandle (hs₁.sound h) hstored handle) ?_ fun _ _ h₂ => hs₁.trans h₂
  rintro - s₂ ⟨h₂, hstored₂⟩
  have hs₂ : Moves s s₂ := hs₁.trans h₂
  cases judgement with
  | rejected message =>
    exact wp_mono quiet_deliver (fun _ _ h₃ => hs₂.trans h₃.moves) fun _ _ h₃ => hs₂.trans h₃.moves
  | approval => exact hs₂
  | allowed =>
    exact hs₂.trans (moves_launch_stored (hs₂.sound h) (hs₂.isolated isolated) hstored₂
      (.inl (state rfl)))

/-- To stage a new operation moves the process. -/
theorem moves_stageNew (h : Sound s) (isolated : s.isolated = true)
    (new : s.operations.get? operation.id = none) (state : operation.state = .registered) :
    Ends (stageNew env operation) (Moves s) s := by
  unfold stageNew
  cases judge env operation with
  | rejected message =>
    simp only [Ends, wp_bind, wp_lift]
    refine ⟨fun _ _ => ?_, fun _ _ => .refl⟩
    exact moves_recordNew h isolated new (by simp [judged, ExecutionOperation.become])
      (fun h => (by cases h))
  | approval => exact moves_recordNew h isolated new (by simp [judged]) (fun h => (by cases h))
  | allowed => exact moves_recordNew h isolated new (by simp [judged, state]) fun _ => state

/-- To stage an operation again moves the process. -/
theorem moves_restage {call : ToolCall} (h : Sound s) (isolated : s.isolated = true)
    (stored : s.operations.get? operation.id = some operation) :
    Ends (restage env operation call) (Moves s) s := by
  have hregistered : wp (restage.registered env operation)
      (fun previous s' => Moves s s' ∧ s'.operations.get? previous.id = some previous ∧
        previous.state = operation.state) (fun _ => Moves s) s := by
    simp only [restage.registered, wp_ite, wp_bind, wp_lift, wp_pure]
    split_ifs
    · exact ⟨.refl, stored, trivial⟩
    · refine ⟨fun handle _ => ?_, fun _ _ => .refl⟩
      exact wp_mono (moves_withHandle h stored handle) (fun _ _ h' => ⟨h'.1, h'.2, trivial⟩)
        fun _ _ h' => h'
  simp only [restage, Ends, wp_ite, wp_bind, wp_throw]
  split_ifs
  · exact .refl
  · refine wp_mono hregistered ?_ fun _ _ h' => h'
    rintro previous s' ⟨hs', hstored, hstate⟩
    have hdeliver : Ends (deliver env previous) (Moves s) s' :=
      wp_mono quiet_deliver (fun _ _ h' => hs'.trans h'.moves) fun _ _ h' => hs'.trans h'.moves
    have hlaunch := moves_launch_stored (hs'.sound h) (hs'.isolated isolated) hstored
    cases hprevious : previous.state with
    | registered => exact hs'.trans (hlaunch (.inl hprevious))
    | running => exact hs'.trans (hlaunch (.inr hprevious))
    | succeeded => exact hdeliver
    | failed => exact hdeliver
    | approval => exact hs'
    | unknown =>
      simp only [wp_bind, wp_lift]
      exact ⟨fun _ _ => hdeliver, fun _ _ => hs'⟩

/-- To stage the calls of a round moves the process. -/
theorem moves_stage {roundKey : String} {agentId : AgentId} {cursor : ContextCursor}
    {calls : List ToolCall} (h : Sound s) (isolated : s.isolated = true) :
    Ends (stage env roundKey agentId cursor calls) (Moves s) s := by
  refine wp_forM (I := fun _ s' => Moves s s') ?_ .refl
  rintro ⟨call, index⟩ rest s' hs'
  have hsound := hs'.sound h
  have hisolated := hs'.isolated isolated
  simp only [wp_bind, wp_get]
  cases hget : s'.operations.get? (operationId roundKey index) with
  | none =>
    exact wp_mono (moves_stageNew hsound hisolated hget rfl) (fun _ _ h' => hs'.trans h')
      fun _ _ h' => hs'.trans h'
  | some previous =>
    rw [← OrderedMap.key_of_get? hget] at hget
    exact wp_mono (moves_restage hsound hisolated hget) (fun _ _ h' => hs'.trans h')
      fun _ _ h' => hs'.trans h'

/-! ## The host's decisions -/

/-- The host's approval moves the process. -/
theorem moves_approve {id : String} {allowed : Bool} (h : Sound s) (isolated : s.isolated = true) :
    Ends (approve env id allowed) (Moves s) s := by
  simp only [approve, Ends, wp_bind, wp_get]
  cases hget : s.operations.get? id with
  | none => exact .refl
  | some operation =>
    rw [← OrderedMap.key_of_get? hget] at hget
    -- Only an operation that waits for approval is decided.
    have hwaiting : ¬ operation.state ≠ .approval → operation.waiting := fun hstate => by
      simp [ExecutionOperation.waiting, not_not.mp hstate]
    have hfree : ¬ operation.state ≠ .approval → operation.effect.mutating →
        s.Free operation.id := fun hstate hmutating =>
      free_of_waiting h hget hmutating (hwaiting hstate)
    simp only [wp_ite, wp_bind, wp_throw, wp_lift]
    -- Refused, expired, or already decided elsewhere: nothing is written, or the end is.
    split_ifs with hstate
    · exact .refl
    · exact wp_mono (moves_expireStored h hget) (fun _ _ h' => h'.1) fun _ _ h' => h'.1
    · exact .refl
    · refine (wp_bind _ _).mp (wp_mono (moves_putDeliver (writable_of_done ?_ ?_ (.inl rfl)))
        (fun _ _ h' => h'.1) fun _ _ h' => h'.1)
      · exact stored_of_get? hget rfl rfl
      · exact hfree hstate
    · -- Approved: the operation is registered, and then delivered to the scheduler.
      refine ⟨fun _ _ => ?_, fun _ _ => .refl⟩
      have hwritable : s.Writable { operation with state := .registered } :=
        { same := stored_of_get? hget rfl rfl
          waiting := by
            intro _ _ old hold
            rw [show s.operations.get? operation.id = some old from hold] at hget
            rw [Option.some.inj hget]
            exact hwaiting hstate
          running := fun _ h => (by cases h)
          unknown := fun _ h => (by cases h)
          finished := fun hmutating _ _ => hfree hstate hmutating }
      refine ends_put .refl fun s₁ h₁ _ => ?_
      have hs₁ : Moves s s₁ := .head (.put _ hwritable) h₁.moves
      have hstored : s₁.operations.get? operation.id =
          some { operation with state := .registered } := by
        rw [h₁.operations, get?_put]
        exact if_pos rfl
      exact hs₁.trans (moves_launch_stored (hs₁.sound h) (hs₁.isolated isolated) hstored (.inl rfl))

/-- The host's reconciliation moves the process. -/
theorem moves_reconcile {id : String} {outcome : Reconciliation} {result : JsonValue}
    (h : Sound s) : Ends (reconcile env id outcome result) (Moves s) s := by
  simp only [reconcile, Ends, wp_bind, wp_get]
  cases hget : s.operations.get? id with
  | none => exact .refl
  | some operation =>
    have hid : operation.id = id := OrderedMap.key_of_get? hget
    rw [← hid] at hget
    simp only [wp_ite, wp_bind, wp_get, wp_throw, putReconciliation, wp_write]
    split_ifs with hstate hwork
    · exact .refl
    · exact .refl
    · exact .refl
    -- A launch that waits for its tool would be in the table of running tools.
    · have hfree : operation.effect.mutating → s.Free operation.id := by
        intro hmutating l hl hlid hbusy
        rw [h.placed.effect_eq hl (by rw [hlid]; exact hget)] at hmutating
        have hentry := h.locked.work l hl hmutating hbusy.2.1 (h.placed.unreleased hl hbusy.1)
        rw [hlid, hid] at hentry
        rw [hentry] at hwork
        exact hwork rfl
      have hdone : (operation.become outcome.state result).state = .failed ∨
          (operation.become outcome.state result).state = .succeeded := by
        cases outcome
        · exact .inr rfl
        · exact .inl rfl
      have hput := Move.put (operation.become outcome.state result)
        (writable_of_done (stored_of_get? hget rfl rfl) hfree hdone)
      refine wp_mono quiet_deliverReconciliation (fun _ s₁ h₁ => ?_) fun _ s₁ h₁ => ?_
      · have hs₁ : Moves s s₁ := .head hput (.head (.note ..) h₁.moves)
        exact wp_mono quiet_deliver (fun _ _ h₂ => hs₁.trans h₂.moves) fun _ _ h₂ =>
          hs₁.trans h₂.moves
      · exact .head hput (.head (.note ..) h₁.moves)

/-! ## All operations in turn -/

/-- The operations still to come in a loop are stored as the loop will meet them. -/
def Pending (rest : List ExecutionOperation) (s : Executor) : Prop :=
  (rest.map ExecutionOperation.id).Nodup ∧
    ∀ operation ∈ rest, s.operations.get? operation.id = some operation

/-- The operations of an agent are there, each once. -/
theorem pending_operationsOf (agentId : AgentId) : Pending (s.operationsOf agentId) s := by
  refine ⟨(List.filter_sublist.map _).nodup s.operations.nodup, fun _ h => ?_⟩
  exact OrderedMap.get?_of_mem (List.mem_of_mem_filter h)

/-- A loop over stored operations whose body may change the operation that it is at. -/
theorem moves_forM {f : ExecutionOperation → EStateM Stop Executor Unit}
    {l : List ExecutionOperation} (h : Sound s) (pending : Pending l s)
    (body : ∀ operation s', Moves s s' → Sound s' →
      s'.operations.get? operation.id = some operation →
      wp (f operation) (fun _ s'' => Moves s' s'' ∧
        ∀ id, id ≠ operation.id → s''.operations.get? id = s'.operations.get? id)
        (fun _ => Moves s') s') :
    wp (l.forM f) (fun _ => Moves s) (fun _ => Moves s) s := by
  have hloop := wp_forM (f := f) (l := l) (E := fun _ => Moves s)
    (I := fun rest s' => Moves s s' ∧ Pending rest s') ?_ ⟨.refl, pending⟩
  · exact wp_mono hloop (fun _ _ h' => h'.1) fun _ _ h' => h'
  rintro operation rest s' ⟨hs', hnodup, hstored⟩
  rw [List.map_cons, List.nodup_cons] at hnodup
  refine wp_mono (body operation s' hs' (hs'.sound h) (hstored operation List.mem_cons_self)) ?_
    fun _ _ h' => hs'.trans h'
  rintro - s'' ⟨hs'', hothers⟩
  refine ⟨hs'.trans hs'', hnodup.2, fun other hother => ?_⟩
  have hne : other.id ≠ operation.id := fun hid =>
    hnodup.1 (hid ▸ List.mem_map_of_mem hother)
  rw [hothers other.id hne]
  exact hstored other (List.mem_cons_of_mem _ hother)

/-- A write of the operation that a loop is at leaves the others alone. -/
theorem others_put (h : Quiet (s.put operation) s') (id : String) (hne : id ≠ operation.id) :
    s'.operations.get? id = s.operations.get? id := by
  rw [h.operations, get?_put, if_neg hne]

/-- To recover an agent moves the process. -/
theorem moves_recover {agentId : AgentId} (h : Sound s) (isolated : s.isolated = true) :
    Ends (recover env agentId) (Moves s) s := by
  simp only [recover, Ends, wp_bind, wp_get]
  refine moves_forM h (pending_operationsOf agentId) fun operation s₁ hs₁ hsound hstored => ?_
  -- What was open for reconciliation is told again, and no operation changes.
  have hreconciled : ∀ s₂, Moves s₁ s₂ → s₂.operations = s₁.operations →
      wp (deliverReconciliation env operation) (fun _ s'' => Moves s₁ s'' ∧
        ∀ id, id ≠ operation.id → s''.operations.get? id = s₁.operations.get? id)
        (fun _ => Moves s₁) s₂ := by
    intro s₂ hs₂ hoperations
    refine wp_mono quiet_deliverReconciliation (fun _ s₃ h₃ => ⟨hs₂.trans h₃.moves, ?_⟩)
      fun _ _ h₃ => hs₂.trans h₃.moves
    intro id _
    rw [h₃.operations, hoperations]
  have hdelivered : wp (deliver env operation) (fun _ s₂ => wp (deliverReconciliation env operation)
      (fun _ s'' => Moves s₁ s'' ∧
        ∀ id, id ≠ operation.id → s''.operations.get? id = s₁.operations.get? id)
      (fun _ => Moves s₁) s₂) (fun _ => Moves s₁) s₁ :=
    wp_mono quiet_deliver (fun _ s₂ h₂ => hreconciled s₂ h₂.moves h₂.operations)
      fun _ _ h₂ => h₂.moves
  -- One case per state of the stored operation.
  cases hstate : operation.state with
  | registered =>
    simp only [wp_ite, wp_bind, wp_modify]
    split_ifs
    · exact hreconciled _ (moves_launch_stored hsound (hs₁.isolated isolated) hstored
        (.inl hstate)) operations_launch
    · exact hreconciled s₁ .refl rfl
  | succeeded => exact (wp_bind _ _).mpr hdelivered
  | failed => exact (wp_bind _ _).mpr hdelivered
  | unknown =>
    simp only [wp_bind, wp_lift]
    exact ⟨fun _ _ => hdelivered, fun _ _ => .refl⟩
  | running => exact hreconciled s₁ .refl rfl
  | approval => exact hreconciled s₁ .refl rfl

/-- To notify of reconciliations moves the process. -/
theorem moves_notifyReconciliations {agentId : AgentId} (h : Sound s) :
    Ends (notifyReconciliations env agentId) (Moves s) s := by
  simp only [notifyReconciliations, Ends, wp_bind, wp_get]
  refine moves_forM h (pending_operationsOf agentId) fun operation s₁ _ _ _ => ?_
  exact wp_mono quiet_deliverReconciliation
    (fun _ _ h₂ => ⟨h₂.moves, fun _ _ => by rw [h₂.operations]⟩) fun _ _ h₂ => h₂.moves

/-- To resume an agent moves the process. -/
theorem moves_resume {agentId : AgentId} (h : Sound s) (isolated : s.isolated = true) :
    Ends (resume agentId) (Moves s) s := by
  simp only [resume, Ends, wp_bind, wp_get]
  refine moves_forM h (pending_operationsOf agentId) fun operation s₁ hs₁ hsound hstored => ?_
  simp only [wp_ite, wp_modify, wp_pure]
  split_ifs with hstate
  · exact ⟨moves_launch_stored hsound (hs₁.isolated isolated) hstored (.inl hstate),
      fun _ _ => by rw [operations_launch]⟩
  · exact ⟨.refl, fun _ _ => trivial⟩

/-- To dismiss an agent moves the process. -/
theorem moves_dismiss {agentId : AgentId} (h : Sound s) :
    Ends (dismiss env agentId) (Moves s) s := by
  simp only [dismiss, Ends, wp_bind, wp_get]
  refine moves_forM h (pending_operationsOf agentId) fun operation s₁ _ hsound hstored => ?_
  simp only [wp_ite, wp_pure]
  split_ifs with hwaiting
  · refine wp_mono (moves_expireStored hsound hstored) ?_ fun _ _ h₂ => h₂.1
    rintro - s₂ ⟨hs₂, hput⟩
    rw [if_pos hwaiting] at hput
    exact ⟨hs₂, fun id hne => others_put hput id hne⟩
  · exact ⟨.refl, fun _ _ => trivial⟩

/-! ## Isolation -/

/-- An interrupted mutation is unknown. -/
theorem effect_interrupted (operation : ExecutionOperation) :
    operation.interrupted.effect.mutating → operation.interrupted.state = .unknown := by
  intro hmutating
  exact if_pos hmutating

/-- What a former process left running is written as unknown, or may be executed again if it only
reads. -/
theorem writable_interrupted (isolated : s.isolated = false)
    (h : s.operations.get? operation.id = some operation) :
    s.Writable operation.interrupted where
  finished hmutating _ hunknown := absurd (effect_interrupted operation hmutating) hunknown
  same := stored_of_get? h rfl rfl
  waiting hmutating hwaiting := by
    simp [ExecutionOperation.waiting, effect_interrupted operation hmutating] at hwaiting
  running hmutating hrunning := by
    rw [effect_interrupted operation hmutating] at hrunning
    cases hrunning
  unknown _ _ := .inr fun hisolated => by
    rw [isolated] at hisolated
    cases hisolated

/-- An operation as a new process leaves it. -/
def ExecutionOperation.restored (operation : ExecutionOperation) : ExecutionOperation :=
  if operation.state = .running then operation.interrupted else operation

/-- How far the isolation is: the operations in front are isolated, the rest is as it was. -/
structure Isolating (s : Executor) (rest : List ExecutionOperation) (s' : Executor) : Prop where
  moves : Moves s s'
  isolated : s'.isolated = false
  restored : ∃ done, s.operations.entries = done ++ rest ∧
    ∀ operation ∈ done, s'.operations.get? operation.id = some operation.restored
  rest : ∀ operation ∈ rest, s'.operations.get? operation.id = some operation
  keys : ∀ id, (s'.operations.get? id).isSome = (s.operations.get? id).isSome

/-- Another operation is isolated. -/
theorem isolating_put {rest : List ExecutionOperation} {s₀ : Executor}
    (h : Isolating s₀ (operation :: rest) s) (hrunning : operation.state = .running)
    (hput : Quiet (s.put operation.interrupted) s') : Isolating s₀ rest s' := by
  have hstored := h.rest operation List.mem_cons_self
  obtain ⟨done, hentries, hdone⟩ := h.restored
  have hnodup := s₀.operations.nodup
  rw [hentries, List.map_append, List.map_cons, List.nodup_append, List.nodup_cons] at hnodup
  obtain ⟨-, ⟨hnotRest, -⟩, hdisjoint⟩ := hnodup
  -- The write changes this operation only.
  have hothers : ∀ id, id ≠ operation.id → s'.operations.get? id = s.operations.get? id :=
    fun id hne => others_put hput id hne
  have hself : s'.operations.get? operation.id = some operation.interrupted := by
    rw [hput.operations, get?_put]
    exact if_pos rfl
  constructor
  case moves =>
    exact h.moves.trans (.head (.put _ (writable_interrupted h.isolated hstored)) hput.moves)
  case isolated =>
    obtain ⟨results, waits, reconciliations, writes, rfl⟩ := hput
    exact h.isolated
  case restored =>
    -- The operations done are the old ones and this one.
    refine ⟨done ++ [operation], by simp [hentries], fun other hother => ?_⟩
    rcases List.mem_append.mp hother with hother | hother
    · have hne : other.id ≠ operation.id :=
        hdisjoint _ (List.mem_map_of_mem hother) _ List.mem_cons_self
      rw [hothers _ hne]
      exact hdone other hother
    · rw [List.mem_singleton.mp hother, hself, ExecutionOperation.restored, if_pos hrunning]
  case rest =>
    intro other hother
    have hne : other.id ≠ operation.id := fun hid => hnotRest (hid ▸ List.mem_map_of_mem hother)
    rw [hothers _ hne]
    exact h.rest other (List.mem_cons_of_mem _ hother)
  case keys =>
    intro id
    rw [← h.keys id]
    by_cases hid : id = operation.id
    · rw [hid, hself, hstored]
      rfl
    · rw [hothers id hid]

/-- Isolation leaves every operation as `restored` says. -/
theorem moves_isolate (isolated : s.isolated = false) :
    wp (isolateRestoredOperations env)
      (fun _ s' => Moves s s' ∧ ∀ operation ∈ s.operations.entries,
        s'.operations.get? operation.id = some operation.restored) (fun _ => Moves s) s := by
  -- The loop writes the running operations as interrupted and leaves the others.
  have hloop := wp_forM (E := fun _ => Moves s) (I := Isolating s) (l := s.operations.entries)
    (f := fun operation => do
      if operation.state = .running then putOperation env operation.interrupted) (s := s) ?_
    ⟨.refl, isolated, ⟨[], rfl, fun _ h => (by cases h)⟩, fun _ h => OrderedMap.get?_of_mem h,
      fun _ => rfl⟩
  · simp only [isolateRestoredOperations, wp_bind, wp_get]
    refine wp_mono hloop (fun _ s₁ h₁ => ?_) fun _ _ h => h
    obtain ⟨done, hentries, hdone⟩ := h₁.restored
    rw [List.append_nil] at hentries
    rw [wp_modify, hentries]
    -- At its end every operation is as `restored` says, so none is running.
    refine ⟨h₁.moves.tail (.isolate fun operation hoperation hmutating => ?_), hdone⟩
    have hget := OrderedMap.get?_of_mem hoperation
    have hsome := h₁.keys operation.id
    rw [hget] at hsome
    obtain ⟨old, hold⟩ := Option.isSome_iff_exists.mp hsome.symm
    have hrestored := hdone old (hentries ▸ OrderedMap.mem_of_get? hold)
    rw [OrderedMap.key_of_get? hold, hget] at hrestored
    rw [Option.some.inj hrestored] at hmutating ⊢
    unfold ExecutionOperation.restored at hmutating ⊢
    split_ifs at hmutating ⊢ with hrunning
    · rw [effect_interrupted old hmutating]
      intro h
      cases h
    · exact hrunning
  · intro operation rest s₁ h₁
    simp only [wp_ite, wp_pure]
    split_ifs with hrunning
    · exact ends_put h₁.moves fun s₂ hput _ => isolating_put h₁ hrunning hput
    · -- One that was not running stays as it is stored.
      obtain ⟨done, hentries, hdone⟩ := h₁.restored
      refine ⟨h₁.moves, h₁.isolated, ⟨done ++ [operation], by simp [hentries], ?_⟩,
        fun other hother => h₁.rest other (List.mem_cons_of_mem _ hother), h₁.keys⟩
      intro other hother
      rcases List.mem_append.mp hother with hother | hother
      · exact hdone other hother
      · rw [List.mem_singleton.mp hother, ExecutionOperation.restored, if_neg hrunning]
        exact h₁.rest operation List.mem_cons_self

/-! ## Results of the scheduler -/

/-- What is abandoned was running, and so is attended to. -/
theorem writable_abandoned {outcome : String} (h : Sound s) (isolated : s.isolated = true)
    (stored : s.operations.get? operation.id = some operation)
    (running : operation.state = .running) : s.Writable (operation.abandoned outcome) := by
  have hstate : operation.effect.mutating = true →
      (operation.abandoned outcome).state = .unknown := fun hmutating => if_pos hmutating
  constructor
  case same => exact stored_of_get? stored rfl rfl
  case waiting =>
    intro hmutating hwaiting
    simp [ExecutionOperation.waiting, hstate hmutating] at hwaiting
  case running =>
    intro hmutating hrunning
    rw [hstate hmutating] at hrunning
    cases hrunning
  case unknown =>
    intro hmutating _
    exact .inr fun _ =>
      h.locked.running isolated operation (OrderedMap.mem_of_get? stored) hmutating running
  case finished =>
    intro hmutating _ hunknown
    exact absurd (hstate hmutating) hunknown

/-- To settle a wait moves the process. -/
theorem moves_settleWait {outcome : Option String} (h : Sound s) (isolated : s.isolated = true)
    (stored : s.operations.get? operation.id = some operation) :
    Ends (resolveWait.settleWait env operation outcome) (Moves s) s := by
  cases outcome with
  | none => exact .refl
  | some outcome =>
    simp only [resolveWait.settleWait, Ends, wp_ite, wp_bind, wp_lift, wp_pure]
    split_ifs with hrunning hunknown
    · refine ends_put .refl fun s₁ h₁ _ => ?_
      have hs₁ : Moves s s₁ :=
        .head (.put _ (writable_abandoned h isolated stored hrunning)) h₁.moves
      exact ⟨fun _ _ => hs₁, fun _ _ => hs₁⟩
    · refine ends_put .refl fun s₁ h₁ _ => ?_
      exact .head (.put _ (writable_abandoned h isolated stored hrunning)) h₁.moves
    · exact wp_mono (moves_expireStored h stored) (fun _ _ h' => h'.1) fun _ _ h' => h'.1
    · exact .refl

/-- To resolve a wait moves the process. -/
theorem moves_resolveWait {result : AsyncOperationResult} (h : Sound s)
    (isolated : s.isolated = true) (stored : s.operations.get? operation.id = some operation) :
    Ends (resolveWait env operation result) (Moves s) s := by
  simp only [resolveWait, Ends, wp_bind, wp_get]
  split
  · exact .refl
  · -- The scheduler is told of the settled operation, or a note says that it was late.
    have hnoted : ∀ ref s₂, Moves s s₂ → wp (do
        write env fun s => { s with waits := Function.update s.waits ("wait-result:" ++
          result.operation.operationId ++ ":" ++ toString result.completedAt) (some ref) }
        return ref) (fun _ => Moves s) (fun _ => Moves s) s₂ := by
      intro ref s₂ hs₂
      simp only [wp_bind, wp_write, wp_pure]
      split_ifs
      · exact hs₂
      · exact hs₂.tail (.note ..)
    rw [wp_bind]
    refine wp_mono (moves_settleWait h isolated stored) (fun settled s₁ hs₁ => ?_) fun _ _ h' => h'
    have hsnapshot : wp (do
        let ref ← snapshot env settled
        write env fun s => { s with waits := Function.update s.waits ("wait-result:" ++
          result.operation.operationId ++ ":" ++ toString result.completedAt) (some ref) }
        return ref) (fun _ => Moves s) (fun _ => Moves s) s₁ := by
      rw [wp_bind]
      exact wp_mono quiet_snapshot (fun ref s₂ h₂ => hnoted ref s₂ (hs₁.trans h₂.moves))
        fun _ _ h₂ => hs₁.trans h₂.moves
    -- The result of the wait says whether a snapshot is to be written first.
    cases result.outcome with
    | succeeded resultRef => exact hnoted resultRef s₁ hs₁
    | failed error resultRef => exact hsnapshot
    | cancelled reason => exact hsnapshot
    | timedOut => exact hsnapshot

end OsAgent.AgentRuntime
