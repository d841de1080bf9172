import OsAgent.AgentRuntime.Sections

/-!
# `#execute` is a sequence of moves

The part of `#execute` before the call of the tool and the part after it. Either part leaves its launch
within `#execute`, and `guarded` takes it out: with nothing left running when the part has returned,
and as a fault when it has thrown.
-/

namespace OsAgent.AgentRuntime

open OsAgent.Library
open AgentScheduler (AsyncOperation)

variable {env : Surroundings} {s s' : Executor} {operation : ExecutionOperation} {l : Launch}

/-- To change a launch that is there is to set it. -/
theorem modifyLaunch_of_has (has : s.Has l) (change : Launch → Launch) :
    s.modifyLaunch l.ticket change = s.setLaunch (change l) := by
  unfold Executor.modifyLaunch
  rw [show s.launches.get? l.ticket = some l from has]

/-- The launches alone matter to which there are. -/
theorem has_of_launches (h : s'.launches = s.launches) : s'.Has l ↔ s.Has l := by
  unfold Executor.Has
  rw [h]

/-- A launch that was set is there. -/
theorem has_setLaunch_self : (s.setLaunch l).Has l := has_setLaunch.mpr (.inl rfl)

/-- A launch is within `#execute` and its tool is not about to be called. -/
structure Resting (s : Executor) (l : Launch) : Prop where
  has : s.Has l
  executing : l.phase = .executing
  idle : l.work ≠ some .scheduled

/-- The launch under a ticket is within `#execute`, and nothing of it is stored as running. -/
def Ended (s : Executor) (ticket : ℕ) (s' : Executor) : Prop :=
  Moves s s' ∧ ∃ l, Resting s' l ∧ l.ticket = ticket ∧ s'.NotRunning l

/-- Unless the process has ended, the launch under a ticket is within `#execute`. -/
def Faulted (s : Executor) (ticket : ℕ) (e : Stop) (s' : Executor) : Prop :=
  Moves s s' ∧ (e ≠ .crash → ∃ l, Resting s' l ∧ l.ticket = ticket)

/-- What is guarded moves the process, if its body does. -/
theorem moves_guarded {ticket : ℕ} {body : EStateM Stop Executor Bool}
    (h : wp body (fun waits s' => Moves s s' ∧ (waits = false → Ended s ticket s'))
      (Faulted s ticket) s) : Ends (guarded ticket body) (Moves s) s := by
  simp only [guarded, Ends, wp_tryCatch, wp_bind]
  refine wp_mono h (fun waits s₁ h₁ => ?_) fun e s₁ h₁ => ?_
  · obtain ⟨hs₁, hended⟩ := h₁
    cases waits with
    | true => exact hs₁
    | false =>
      obtain ⟨-, l, hl, rfl, hnotRunning⟩ := hended rfl
      show Moves s (s₁.modifyLaunch l.ticket _)
      rw [modifyLaunch_of_has hl.has]
      exact hs₁.tail (.finish l hl.has hl.idle (.inl ⟨hl.executing, hnotRunning⟩))
  · obtain ⟨hs₁, hl⟩ := h₁
    cases e with
    | crash => exact hs₁
    | fault message =>
      obtain ⟨l, hresting, rfl⟩ := hl (fun h => (by cases h))
      show Moves s (s₁.modifyLaunch l.ticket _)
      rw [modifyLaunch_of_has hresting.has]
      exact hs₁.tail (.fault l hresting.has hresting.idle hresting.executing)

/-- The operation object of a launch is a version of its operation. -/
structure Version (operation : ExecutionOperation) (l : Launch) : Prop where
  id : operation.id = l.operation.id
  agentId : operation.agentId = l.operation.agentId
  effect : operation.effect = l.operation.effect

/-- A version of a stored operation is stored. -/
theorem Version.stored (h : Version operation l) (p : Placed s) (has : s.Has l) :
    s.Stored operation := by
  obtain ⟨old, hget, hagent, heffect⟩ := p.known l has
  rw [← h.id] at hget
  exact stored_of_get? hget (hagent.trans h.agentId.symm) (heffect.trans h.effect.symm)

/-- The launch holds another version of its operation. -/
theorem moves_hold (has : s.Has l) (h : Version operation l)
    (state : l.work.isSome → operation.state ≠ .running) :
    Moves s (s.setLaunch { l with operation }) :=
  .single (.hold l operation has state h.id h.agentId h.effect)

/-- No launch waits for the tool of an operation whose launch within `#execute` does not. -/
theorem Resting.free (h : Sound s) (hl : Resting s l) (state : ¬ l.Busy)
    (id : operation.id = l.operation.id) (effect : operation.effect = l.operation.effect)
    (mutating : operation.effect.mutating) : s.Free operation.id := by
  intro x hx hxid hbusy
  rw [effect] at mutating
  have hcontend := h.placed.contend hl.has hx (id.symm.trans hxid.symm) mutating
  have heq := h.locked.alone hl.has hx hcontend (.inr (.inr (.inl hl.executing)))
    (.inr (.inr (.inl hbusy.1))) (h.placed.unreleased hl.has hl.executing)
    (h.placed.unreleased hx hbusy.1)
  exact state (heq ▸ hbusy)

/-- A launch rests with another version of its operation. -/
theorem Resting.hold (h : Resting s l) :
    Resting (s.setLaunch { l with operation }) { l with operation } where
  has := has_setLaunch_self
  executing := h.executing
  idle := h.idle

/-- A launch rests while the launches stay as they are. -/
theorem Resting.of_launches (h : Resting s l) (hlaunches : s'.launches = s.launches) :
    Resting s' l where
  has := (has_of_launches hlaunches).mpr h.has
  executing := h.executing
  idle := h.idle

/-- Nothing is stored as running after another state was written. -/
theorem notRunning_put (hput : Quiet (s.put operation) s') (hid : l.operation.id = operation.id)
    (state : operation.state ≠ .running) : s'.NotRunning l := by
  intro _ stored hget
  rw [hput.operations, get?_put, if_pos hid] at hget
  rw [← Option.some.inj hget]
  exact state

/-- To refuse a launch moves the process and ends the launch. -/
theorem moves_refuse {result : JsonValue} (h : Sound s) (hl : Resting s l)
    (version : Version operation l) :
    wp (refuse env l.ticket operation result) (fun _ => Ended s l.ticket) (Faulted s l.ticket)
      s := by
  set refused := operation.become .failed result with hrefused
  have hversion : Version refused l := ⟨version.id, version.agentId, version.effect⟩
  have hheld := moves_hold hl.has hversion fun _ h => (by cases h)
  have hresting : Resting (s.setLaunch { l with operation := refused })
      { l with operation := refused } := hl.hold
  have hwritable : (s.setLaunch { l with operation := refused }).Writable refused :=
    writable_of_done (fun old hold => hversion.stored h.placed hl.has old hold)
      (hresting.free (hheld.sound h) (fun hbusy => nomatch hbusy.2.2) rfl rfl) (.inl rfl)
  show wp (do hold l.ticket refused; putOperation env refused; deliver env refused) _ _ s
  rw [wp_bind]
  show wp (do putOperation env refused; deliver env refused) _ _ (s.modifyLaunch l.ticket _)
  rw [modifyLaunch_of_has hl.has]
  refine wp_mono (moves_putDeliver hwritable) ?_ ?_
  · rintro - s₁ ⟨hs₁, hput⟩
    refine ⟨hheld.trans hs₁, _, hresting.of_launches hput.launches, rfl, ?_⟩
    exact notRunning_put hput rfl (by simp [hrefused, ExecutionOperation.become])
  · rintro e s₁ ⟨hs₁, hlaunches⟩
    exact ⟨hheld.trans hs₁, fun _ => ⟨_, hresting.of_launches hlaunches, rfl⟩⟩

/-- The operation of a launch is its own version. -/
theorem Version.refl (l : Launch) : Version l.operation l := ⟨rfl, rfl, rfl⟩

/-- The operation of a launch that can no longer be executed. -/
theorem moves_expireHeld (h : Sound s) (hl : Resting s l) (notRunning : s.NotRunning l) :
    wp (expireHeld env l.ticket l.operation) (fun _ => Ended s l.ticket) (Faulted s l.ticket)
      s := by
  have hversion : Version l.operation.expired l := ⟨rfl, rfl, rfl⟩
  rw [expireHeld, wp_ite]
  split_ifs with hwaiting
  · have hheld := moves_hold hl.has hversion fun _ h => (by cases h)
    have hresting : Resting (s.setLaunch { l with operation := l.operation.expired })
        { l with operation := l.operation.expired } := hl.hold
    show wp (expire env l.operation) _ _ (s.modifyLaunch l.ticket _)
    rw [modifyLaunch_of_has hl.has]
    refine wp_mono (moves_expire (fun old hold =>
      (Version.refl l).stored h.placed hl.has old hold) fun _ =>
        hresting.free (hheld.sound h) (fun hbusy => nomatch hbusy.2.2) rfl rfl) ?_ ?_
    · rintro - s₁ ⟨hs₁, hput⟩
      rw [if_pos hwaiting] at hput
      refine ⟨hheld.trans hs₁, _, hresting.of_launches hput.launches, rfl, ?_⟩
      exact notRunning_put hput rfl (by simp [ExecutionOperation.expired, ExecutionOperation.become])
    · rintro e s₁ ⟨hs₁, hlaunches⟩
      exact ⟨hheld.trans hs₁, fun _ => ⟨_, hresting.of_launches hlaunches, rfl⟩⟩
  · exact ⟨.refl, l, hl, rfl, notRunning⟩

/-- An operation is written as running by its launch. -/
theorem writable_running (version : Version operation l) (h : Sound s) (hl : Resting s l)
    (state : operation.state = .running) : s.Writable operation where
  same := version.stored h.placed hl.has
  waiting _ hwaiting := by
    simp [ExecutionOperation.waiting, state] at hwaiting
  running _ _ _ := ⟨l, hl.has, version.id.symm, .inl hl.executing⟩
  unknown _ hunknown := by
    rw [state] at hunknown
    cases hunknown
  finished _ hrunning := absurd state hrunning

/-- The call of the tool is scheduled. -/
theorem moves_schedule (hl : Resting s l) (fresh : l.work = none) (running : s.stopping = false)
    (stored : ∀ stored, s.operations.get? l.operation.id = some stored →
      stored.state = .running)
    (clear : l.operation.effect.mutating →
      s.hasUnknownMutation (s.workspace l.operation.agentId) = false) :
    Moves s { s.modifyLaunch l.ticket (fun launch => { launch with work := some .scheduled }) with
      mutationWork := if l.operation.effect.mutating then
        Function.update s.mutationWork l.operation.id (some l.ticket) else s.mutationWork } := by
  rw [modifyLaunch_of_has hl.has]
  exact .single (.schedule l hl.has hl.executing fresh running stored clear)

/-- To start a tool moves the process, or ends the launch. -/
theorem moves_start (h : Sound s) (hl : Resting s l) (fresh : l.work = none)
    (running : s.stopping = false) :
    wp (start env l.ticket l.operation)
      (fun waits s' => Moves s s' ∧ (waits = false → Ended s l.ticket s'))
      (Faulted s l.ticket) s := by
  -- The launch is written as running before its tool is looked at, and the write can fail.
  set started : ExecutionOperation := { l.operation with state := .running } with hstarted
  set l₁ : Launch := { l with operation := started } with hl₁
  have hheld : Moves s (s.setLaunch l₁) := by
    refine moves_hold hl.has ⟨rfl, rfl, rfl⟩ fun hwork => ?_
    rw [fresh] at hwork
    cases hwork
  have hresting : Resting (s.setLaunch l₁) l₁ := hl.hold
  have hversion : Version started l₁ := .refl l₁
  have hwritable := writable_running hversion (hheld.sound h) hresting rfl
  simp only [start, hold, wp_bind, wp_modify, wp_get, ← hstarted]
  rw [modifyLaunch_of_has hl.has]
  refine ends_put ⟨hheld, fun _ => ⟨l₁, hresting, rfl⟩⟩ fun s₁ hput _ => ?_
  have hs₁ : Moves s s₁ := hheld.trans (.head (.put started hwritable) hput.moves)
  have hresting₁ : Resting s₁ l₁ := hresting.of_launches hput.launches
  rw [wp_ite]
  -- Unless an operation of unknown outcome is in the way, the call of the tool is scheduled.
  split
  · rw [wp_bind]
    refine wp_mono (moves_refuse (l := l₁) (hs₁.sound h) hresting₁ hversion) ?_ ?_
    · rintro - s₂ ⟨hs₂, hended⟩
      exact ⟨hs₁.trans hs₂, fun _ => ⟨hs₁.trans hs₂, hended⟩⟩
    · rintro e s₂ ⟨hs₂, hresting₂⟩
      exact ⟨hs₁.trans hs₂, hresting₂⟩
  · rename_i hunknown
    have hstored : ∀ stored, s₁.operations.get? l₁.operation.id = some stored →
        stored.state = .running := by
      intro stored hget
      rw [hput.operations, get?_put, if_pos (show l₁.operation.id = started.id from rfl)] at hget
      rw [← Option.some.inj hget]
    -- Nothing unknown can be stored for the workspace: it was looked at under the same lock.
    have hclear : l₁.operation.effect.mutating →
        s₁.hasUnknownMutation (s₁.workspace l₁.operation.agentId) = false := by
      intro hmutating
      have himp : l.operation.effect.mutating = true →
          s₁.hasUnknownMutation (s₁.workspace l.operation.agentId) = false := by
        simpa using hunknown
      exact himp hmutating
    -- The write went through, so the process was not stopping.
    have hrunning : s₁.stopping = false := by
      obtain ⟨results, waits, reconciliations, writes, rfl⟩ := hput
      exact running
    have hs₂ := moves_schedule hresting₁ fresh hrunning hstored hclear
    have hmutationWork : ∀ change : Launch → Launch,
        (s₁.modifyLaunch l.ticket change).mutationWork = s₁.mutationWork := by
      intro change
      have hmodify := modifyLaunch_of_has hresting₁.has change
      rw [show s₁.modifyLaunch l.ticket change = _ from hmodify]
      rfl
    simp only [wp_bind, wp_modify, wp_pure, hmutationWork]
    exact ⟨hs₁.trans hs₂, fun h => (by cases h)⟩

/-- To execute a launch moves the process, or ends the launch. -/
theorem moves_execute (h : Sound s) (hl : Resting s l) (fresh : l.work = none)
    (running : s.stopping = false) (notRunning : s.NotRunning l) :
    wp (execute env l.ticket l.operation)
      (fun waits s' => Moves s s' ∧ (waits = false → Ended s l.ticket s'))
      (Faulted s l.ticket) s := by
  have hended : Moves s s ∧ (false = false → Ended s l.ticket s) :=
    ⟨.refl, fun _ => ⟨.refl, l, hl, rfl, notRunning⟩⟩
  have hfaulted : ∀ e, Faulted s l.ticket e s := fun e => ⟨.refl, fun _ => ⟨l, hl, rfl⟩⟩
  simp only [execute, wp_ite, wp_bind]
  split_ifs
  · exact wp_mono (moves_expireHeld h hl notRunning) (fun _ _ h' => ⟨h'.1, fun _ => h'⟩)
      fun _ _ h' => h'
  · exact hended
  cases env.tool l.operation.toolName with
  | none => exact hfaulted _
  | some effect =>
    simp only [wp_bind, wp_lift, wp_ite]
    refine ⟨fun allowed _ => ?_, fun e _ => hfaulted e⟩
    split_ifs
    · exact wp_mono (moves_refuse h hl (.refl l)) (fun _ _ h' => ⟨h'.1, fun _ => h'⟩)
        fun _ _ h' => h'
    · exact moves_start h hl fresh running

/-- An operation is written by its launch with the outcome of its tool. -/
theorem writable_concluded (h : Sound s) (hl : Resting s l)
    (version : Version operation l) (object : l.operation.state = operation.state)
    (state : operation.state = .failed ∨ operation.state = .succeeded ∨
      operation.state = .unknown) : s.Writable operation where
  same := version.stored h.placed hl.has
  waiting _ hwaiting := by
    rcases state with hstate | hstate | hstate <;>
      simp [ExecutionOperation.waiting, hstate] at hwaiting
  running _ hrunning := by
    rcases state with hstate | hstate | hstate <;> rw [hstate] at hrunning <;> cases hrunning
  unknown _ _ := .inr fun _ => ⟨l, hl.has, version.id.symm, .inl hl.executing⟩
  finished hmutating hrunning _ :=
    hl.free h (fun hbusy => hrunning (object.symm.trans hbusy.2.2)) version.id version.effect
      hmutating

/-- What a tool's answer makes of an operation. -/
structure Outcome (operation operation' : ExecutionOperation) : Prop where
  id : operation'.id = operation.id
  agentId : operation'.agentId = operation.agentId
  effect : operation'.effect = operation.effect
  state : operation'.state = .failed ∨ operation'.state = .succeeded ∨ operation'.state = .unknown

/-- A failure with a result is an outcome. -/
theorem outcome_failed (operation : ExecutionOperation) (result : JsonValue) :
    Outcome operation (failure.failed operation result).1 := by
  refine ⟨rfl, rfl, rfl, ?_⟩
  cases hmutating : operation.effect.mutating with
  | true => exact .inr (.inr (if_pos hmutating))
  | false => exact .inl (if_neg (by simp [hmutating]))

/-- A failure is an outcome. -/
theorem outcome_failure (operation : ExecutionOperation) (aborted : Bool) (error : ToolFailure) :
    Outcome operation (failure operation aborted error).1 := by
  cases error with
  | precondition code message =>
    cases aborted with
    | true => exact outcome_failed operation _
    | false => exact ⟨rfl, rfl, rfl, .inl rfl⟩
  | execution code message detail => exact outcome_failed operation _
  | other => exact outcome_failed operation _

/-- What a tool answers is an outcome. -/
theorem outcome_concluded (operation : ExecutionOperation) (aborted : Bool)
    (answer : Except ToolFailure JsonValue) :
    Outcome operation (concluded operation aborted answer).1 := by
  cases answer with
  | error error => exact outcome_failure operation aborted error
  | ok result =>
    refine ⟨rfl, rfl, rfl, ?_⟩
    by_cases hunknown : (aborted && operation.effect.mutating) = true
    · exact .inr (.inr (if_pos hunknown))
    · exact .inr (.inl (if_neg hunknown))

/-- The outcome that a launch holds is written and delivered. -/
theorem moves_writeOutcome (h : Sound s) (hl : Resting s l)
    (outcome : Outcome l.operation operation) :
    wp (writeOutcome env operation) (fun _ => Ended s l.ticket) (Faulted s l.ticket)
      (s.setLaunch { l with operation }) := by
  set l₁ : Launch := { l with operation } with hl₁
  have hstate : operation.state ≠ .running := by
    rcases outcome.state with hstate | hstate | hstate <;> rw [hstate] <;> exact fun h => (by cases h)
  have hheld : Moves s (s.setLaunch l₁) :=
    moves_hold hl.has ⟨outcome.id, outcome.agentId, outcome.effect⟩ fun _ => hstate
  have hresting : Resting (s.setLaunch l₁) l₁ := hl.hold
  have hwritable := writable_concluded (hheld.sound h) hresting (.refl l₁) rfl outcome.state
  rw [writeOutcome, wp_bind]
  refine ends_put ⟨hheld, fun _ => ⟨l₁, hresting, rfl⟩⟩ fun s₁ hput _ => ?_
  have hs₁ : Moves s s₁ := hheld.trans (.head (.put operation hwritable) hput.moves)
  have hresting₁ : Resting s₁ l₁ := hresting.of_launches hput.launches
  have hdelivered : wp (deliver env operation) (fun _ => Ended s l.ticket) (Faulted s l.ticket)
      s₁ := by
    refine wp_mono quiet_deliver (fun _ s₂ h₂ => ?_) fun _ s₂ h₂ => ?_
    · exact ⟨hs₁.trans h₂.moves, l₁, hresting₁.of_launches h₂.launches, rfl,
        notRunning_put (hput.trans h₂) rfl hstate⟩
    · exact ⟨hs₁.trans h₂.moves, fun _ => ⟨l₁, hresting₁.of_launches h₂.launches, rfl⟩⟩
  simp only [wp_ite, wp_bind, wp_lift]
  split_ifs
  · exact ⟨fun _ _ => hdelivered, fun _ _ => ⟨hs₁, fun _ => ⟨l₁, hresting₁, rfl⟩⟩⟩
  · exact hdelivered

/-- To conclude a launch moves the process and ends the launch. -/
theorem moves_conclude {aborted : Bool} {answer : Except ToolFailure JsonValue} (h : Sound s)
    (hl : Resting s l) : wp (conclude env l.ticket l.operation aborted answer)
      (fun _ => Ended s l.ticket) (Faulted s l.ticket) s := by
  have houtcome := outcome_concluded l.operation aborted answer
  have hwritten : wp (writeOutcome env (concluded l.operation aborted answer).1)
      (fun _ => Ended s l.ticket) (Faulted s l.ticket)
      (s.setLaunch { l with operation := (concluded l.operation aborted answer).1 }) :=
    moves_writeOutcome h hl houtcome
  simp only [conclude, hold, wp_bind, wp_modify]
  rw [modifyLaunch_of_has hl.has]
  cases (concluded l.operation aborted answer).2 with
  | none => exact hwritten
  | some message =>
    simp only [wp_bind, wp_lift]
    refine ⟨fun _ _ => hwritten, fun _ _ => ⟨?_, fun _ => ⟨_, hl.hold, rfl⟩⟩⟩
    refine moves_hold hl.has ⟨houtcome.id, houtcome.agentId, houtcome.effect⟩ fun _ => ?_
    rcases houtcome.state with hstate | hstate | hstate <;> rw [hstate] <;> exact fun h => (by cases h)

/-! ## Every act -/

/-- Nothing of a launch is running before its turn. -/
theorem Sound.notRunning (h : Sound s) (has : s.Has l) (queued : l.phase = .queued)
    (running : s.stopping = false)
    (turn : ∀ previous, l.previous = some previous →
      s.LaunchIs previous (·.released = true)) : s.NotRunning l := by
  intro hmutating stored hget hstate
  -- While nothing may run, no launch is there at all.
  have p := h.placed
  have hisolated : s.isolated = true := by
    by_contra hidle
    exact p.idle (by simpa using hidle) l has
  have hid : stored.id = l.operation.id := OrderedMap.key_of_get? hget
  have hattended := h.locked.running hisolated stored (OrderedMap.mem_of_get? hget)
    (by rw [p.effect_eq has hget]; exact hmutating) hstate
  -- A running record belongs to a launch under way; it is shown to be another one's, and to be over.
  obtain ⟨x, hx, hxid, hphase⟩ := hattended
  have hcontend := p.contend has hx (hid.symm.trans hxid.symm) hmutating
  have hunfaulted := (p.phased l has).queued queued
  have hxreleased : x.released = false := by
    by_contra hr
    have hsettled := ((p.phased x hx).released (by simpa using hr)).1
    rcases hphase with hexecuting | hfaulted
    · rw [hexecuting] at hsettled
      cases hsettled
    · have hstopping := ((p.phased x hx).faulted hfaulted).2 (by simp [hsettled])
      rw [running] at hstopping
      cases hstopping
  have hxstarted : x.Started s.stopping := by
    rcases hphase with hexecuting | hfaulted
    · exact .inr (.inr (.inl hexecuting))
    · exact .inr (.inl hfaulted)
  -- Whichever of the two came first, one of them would have waited for the other.
  rcases Nat.lt_trichotomy x.ticket l.ticket with hlt | heq | hlt
  · have hreleased := h.locked.turn p has running turn x hx hcontend hlt
    rw [hxreleased] at hreleased
    cases hreleased
  · obtain rfl := hx.eq has heq
    rcases hphase with hexecuting | hfaulted
    · rw [queued] at hexecuting
      cases hexecuting
    · rw [hunfaulted.2] at hfaulted
      cases hfaulted
  · have hreleased := h.locked.order x l hx has hcontend.symm hlt hxstarted
    have hsettled := ((p.phased l has).released hreleased).1
    rw [queued] at hsettled
    cases hsettled

/-- A step of a launch that is known under its ticket is a step of that launch. -/
theorem wp_withLaunch {step : Launch → EStateM Stop Executor Unit} {Q : Unit → Executor → Prop}
    {E : Stop → Executor → Prop} (has : s.Has l) :
    wp (withLaunch l.ticket step) Q E s ↔ wp (step l) Q E s := by
  simp only [withLaunch, wp_bind, wp_get]
  rw [show s.launches.get? l.ticket = some l from has]

/-- A waiting launch ends when the executor stops. -/
theorem moves_cancel (h : Sound s) (has : s.Has l) (queued : l.phase = .queued)
    (stopping : s.stopping = true) : Moves s (s.modifyLaunch l.ticket fun launch =>
      { launch with phase := .ended }) := by
  rw [modifyLaunch_of_has has]
  have hidle : l.work ≠ some .scheduled := by
    rw [((h.placed.phased l has).queued queued).1]
    intro h
    cases h
  exact .single (.finish l has hidle (.inr ⟨queued, stopping⟩))

/-- A launch whose turn has come moves the process. -/
theorem moves_proceed (h : Sound s) (has : s.Has l) (queued : l.phase = .queued)
    (turn : ∀ previous, l.previous = some previous →
      s.LaunchIs previous (·.released = true)) :
    Ends (Act.perform env (.proceed l.ticket)) (Moves s) s := by
  simp only [Act.perform, Ends]
  rw [wp_withLaunch has]
  simp only [wp_bind, wp_get, wp_ite]
  -- A process that stops cancels the launch instead.
  split
  · rename_i stopping
    exact moves_cancel h has queued stopping
  · rename_i running
    have hrunning : s.stopping = false := by simpa using running
    set l₁ : Launch := { l with phase := .executing } with hl₁
    have hproceed : Move s (s.setLaunch l₁) := .proceed l has queued hrunning turn
    have hresting : Resting (s.setLaunch l₁) l₁ :=
      { has := has_setLaunch_self
        executing := rfl
        idle := by
          show l.work ≠ _
          rw [((h.placed.phased l has).queued queued).1]
          exact fun h => (by cases h) }
    -- Nothing else of the workspace is running, since its turn has come.
    have hnotRunning := h.notRunning has queued hrunning turn
    show wp (guarded l.ticket (execute env l.ticket l.operation)) _ _ (s.modifyLaunch l.ticket _)
    rw [modifyLaunch_of_has has]
    have hfresh : l₁.work = none := ((h.placed.phased l has).queued queued).1
    have hnotRunning₁ : (s.setLaunch l₁).NotRunning l₁ :=
      fun hmutating stored hget => hnotRunning hmutating stored hget
    refine wp_mono (moves_guarded ?_) (fun _ _ h' => .head hproceed h') fun _ _ h' =>
      .head hproceed h'
    exact moves_execute (l := l₁) (hproceed.sound h) hresting hfresh hrunning hnotRunning₁

/-- To record an outcome does not matter to setting a launch. -/
theorem setLaunch_record {operation : ExecutionOperation} :
    (s.setLaunch l).record operation = (s.record operation).setLaunch l := by
  unfold Executor.record
  split_ifs <;> rfl

/-- To handle a launch that has ended moves the process. -/
theorem moves_handle (has : s.Has l) (ended : l.phase = .ended) :
    Ends (Act.perform env (.handle l.ticket)) (Moves s) s := by
  simp only [Act.perform, Ends]
  rw [wp_withLaunch has]
  simp only [wp_bind, wp_ite, stop, moveTo, wp_modify]
  split_ifs with hfaulted
  · have has' : Executor.Has { s with stopping := true } l := has
    rw [modifyLaunch_of_has has']
    exact .head .stop (.single (.handle l has' ended fun _ => rfl))
  · rw [modifyLaunch_of_has has]
    exact .single (.handle l has ended fun hf => absurd hf hfaulted)

/-- Every act is a sequence of moves, however it ends. -/
theorem moves_perform {act : Act} (h : Sound s) (enabled : act.enabled s) :
    Ends (act.perform env) (Moves s) s := by
  -- One case per act: each is a section of the source that runs without an interruption.
  cases act with
  | stage roundKey agentId cursor calls => exact moves_stage h enabled
  | approve id allowed => exact moves_approve h enabled
  | reconcile id outcome result => exact moves_reconcile h
  | isolateRestoredOperations =>
    exact wp_mono (moves_isolate enabled) (fun _ _ h' => h'.1) fun _ _ h' => h'
  | recover agentId => exact moves_recover h enabled
  | notifyReconciliations agentId => exact moves_notifyReconciliations h
  | resume agentId => exact moves_resume h enabled
  | dismiss agentId => exact moves_dismiss h
  | stop => exact .single .stop
  | resolveWait operation result =>
    simp only [Act.perform, Ends, wp_bind, wp_pure]
    exact moves_resolveWait h enabled.1 enabled.2
  | proceed ticket =>
    obtain ⟨l, rfl, has, queued, turn⟩ := enabled.has
    exact moves_proceed h has queued turn
  | cancel ticket =>
    obtain ⟨l, rfl, has, queued⟩ := enabled.2.has
    exact moves_cancel h has queued enabled.1
  | invoke ticket =>
    obtain ⟨l, rfl, has, scheduled⟩ := Executor.LaunchIs.has enabled
    simp only [Act.perform, Ends]
    rw [wp_withLaunch has, wp_modify, modifyLaunch_of_has has, setLaunch_record]
    exact .single (.invoke l has scheduled)
  | answer ticket reply =>
    obtain ⟨l, rfl, has, running⟩ := Executor.LaunchIs.has enabled
    simp only [Act.perform, Ends, wp_modify]
    rw [modifyLaunch_of_has has]
    exact .single (.answer l reply has running)
  | conclude ticket aborted reply =>
    obtain ⟨l, rfl, has, executing, hwork⟩ := Executor.LaunchIs.has enabled
    -- A tool that was scheduled has answered, so the launch is not waiting for it.
    have hidle : l.work ≠ some .scheduled := by
      rcases hwork with hwork | ⟨-, -, work, hwork, hne⟩
      · rw [hwork]
        intro h
        cases h
      · rw [hwork]
        exact fun heq => hne (Option.some.inj heq)
    simp only [Act.perform, Ends]
    rw [wp_withLaunch has]
    refine moves_guarded ?_
    rw [wp_bind]
    refine wp_mono (moves_conclude h ⟨has, executing, hidle⟩) (fun _ _ h' => ?_) fun _ _ h' => h'
    exact ⟨h'.1, fun _ => h'⟩
  | handle ticket =>
    obtain ⟨l, rfl, has, ended⟩ := Executor.LaunchIs.has enabled
    exact moves_handle has ended
  | settle ticket =>
    obtain ⟨l, rfl, has, caught⟩ := Executor.LaunchIs.has enabled
    simp only [Act.perform, Ends]
    rw [wp_withLaunch has]
    simp only [wp_bind, moveTo, wp_modify]
    have has' : Executor.Has
        { s with active := Function.update s.active l.operation.id none } l := has
    rw [modifyLaunch_of_has has']
    exact .single (.settle l has caught)
  | release ticket =>
    obtain ⟨l, rfl, has, settled, unreleased, mutating, done⟩ := Executor.LaunchIs.has enabled
    simp only [Act.perform, Ends]
    rw [wp_withLaunch has]
    simp only [wp_bind, wp_modify]
    have has' : Executor.Has
        { s with mutationWork := Function.update s.mutationWork l.operation.id none } l := has
    rw [modifyLaunch_of_has has']
    exact .single (.release l has settled unreleased mutating done)

end OsAgent.AgentRuntime
