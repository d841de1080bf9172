import OsAgent.AgentRuntime.Execution
import OsAgent.AgentRuntime.Spent

/-!
# At most once, and one at a time

What holds of the executor in any order of its acts, over any number of processes on one store.
`atMostOnce_of_reachable`: the tool of an operation is called at most once, unless it only reads, and
what a process leaves running is unknown in the next and is not executed again.
`exclusive_of_reachable`: when a tool is called in a workspace, no other mutation of the workspace has
a promise that is not settled or an outcome that is unknown.
-/

namespace OsAgent.AgentRuntime

open OsAgent.Library
open ControlBlock (AgentId)

variable {s s' : Executor} {id : String} {l : Launch}

/-- Tools stay called once for each operation. -/
theorem Moves.once (h : Sound s) (moves : Moves s s') (o : Once s) : Once s' := by
  induction moves with
  | refl => exact o
  | tail moves move ih => exact move.once (Moves.sound h moves) ih

/-- An operation whose tool is not going to be called stays so, and no call is added. -/
theorem Moves.spent (h : Sound s) (moves : Moves s s') (hs : Spent s id) :
    Spent s' id ∧ s'.executed.count id = s.executed.count id := by
  induction moves with
  | refl => exact ⟨hs, rfl⟩
  | tail moves move ih =>
    obtain ⟨hspent, hcount⟩ := move.spent (Moves.sound h moves) ih.1
    exact ⟨hspent, hcount.trans ih.2⟩

/-- A step is a sequence of moves, or leads to a new process after one. -/
theorem Step.moves (h : Sound s) (step : Step s s') :
    Moves s s' ∨ ∃ t workspace, Moves s t ∧ s' = t.restart workspace := by
  cases step with
  | act env act enabled run =>
    exact .inl (wp_ok (Q := fun _ => Moves s) (moves_perform h enabled) run)
  | fault env act enabled run =>
    exact .inl (wp_error (E := fun _ => Moves s) (moves_perform h enabled) run)
  | crash env act workspace enabled run =>
    exact .inr ⟨_, workspace, wp_error (E := fun _ => Moves s) (moves_perform h enabled) run, rfl⟩
  | kill workspace => exact .inr ⟨s, workspace, .refl, rfl⟩

/-- A process that starts is sound. -/
theorem sound_initial (workspace : AgentId → String) : Sound (.initial workspace) :=
  Sound.restart (s := .initial workspace) workspace

/-- Every process is sound. -/
theorem sound_of_reachable (h : system.Reachable s) : Sound s := by
  refine h.invariant ?_ fun s s' _ hs step => ?_
  · rintro s ⟨workspace, rfl⟩
    exact sound_initial workspace
  · rcases step.moves hs with moves | ⟨t, workspace, -, rfl⟩
    · exact moves.sound hs
    · exact .restart workspace

/-- In every process tools are called once for each operation. -/
theorem once_of_reachable (h : system.Reachable s) : Once s := by
  refine h.invariant ?_ fun s s' hr o step => ?_
  · rintro s ⟨workspace, rfl⟩
    exact ⟨List.nodup_nil, fun _ h => (by cases h)⟩
  · have hs := sound_of_reachable hr
    rcases step.moves hs with moves | ⟨t, workspace, moves, rfl⟩
    · exact moves.once hs o
    · exact (moves.once hs o).restart workspace

/-- A spent operation stays spent, over all processes, and its tool is not called any more. -/
theorem spent_later (h : system.Reachable s) (hs : Spent s id) (later : system.Later s s') :
    Spent s' id ∧ s'.executed.count id = s.executed.count id := by
  refine TransitionSystem.Later.invariant
    (P := fun t => Spent t id ∧ t.executed.count id = s.executed.count id) h ⟨hs, rfl⟩ ?_ later
  rintro t t' hr ⟨ht, hcount⟩ step
  have hsound := sound_of_reachable hr
  rcases step.moves hsound with moves | ⟨u, workspace, moves, rfl⟩
  · obtain ⟨hspent, hcount'⟩ := moves.spent hsound ht
    exact ⟨hspent, hcount'.trans hcount⟩
  · obtain ⟨hspent, hcount'⟩ := moves.spent hsound ht
    exact ⟨hspent.restart workspace, hcount'.trans hcount⟩

/-! ## At most once -/

/-- A mutation whose launch waits for its tool is stored as running, or as unknown when its wait has
ended. -/
def Executor.Recorded (s : Executor) : Prop :=
  ∀ l, s.Has l → l.operation.effect.mutating → l.Busy →
    ∃ stored, s.operations.get? l.operation.id = some stored ∧
      (stored.state = .running ∨ stored.state = .unknown)

/-- What was called is recorded. -/
theorem Sound.recorded (h : Sound s) : s.Recorded := by
  intro l hl hmutating hbusy
  obtain ⟨stored, hget, -⟩ := h.placed.known l hl
  exact ⟨stored, hget, h.locked.recorded l hl hmutating hbusy stored hget⟩

/-- A process that has just started finds a mutation that was running, or whose outcome is unknown. -/
structure Left (s : Executor) (operation : ExecutionOperation) : Prop where
  fresh : s.isolated = false
  stored : operation ∈ s.operations.entries
  mutating : operation.effect.mutating
  state : operation.state = .running ∨ operation.state = .unknown

/-- The tool of an operation that is left is not going to be called. -/
theorem Left.spent (h : Sound s) {operation : ExecutionOperation} (left : Left s operation) :
    Spent s operation.id where
  stored := by
    refine ⟨operation, OrderedMap.get?_of_mem left.stored, left.mutating, ?_⟩
    rcases left.state with hstate | hstate <;> simp [ExecutionOperation.waiting, hstate]
  launched l hl := absurd hl (h.placed.idle left.fresh l)

/-- What the executor promises about calls of tools. -/
structure AtMostOnce (s : Executor) : Prop where
  once : s.executed.Nodup
  recorded : s.Recorded
  crashed : ∀ env act t, Act.enabled s act → Act.perform env act s = .error .crash t → t.Recorded
  unknown : ∀ operation, Left s operation → ∀ env s',
    isolateRestoredOperations env s = .ok () s' →
      ∃ stored, s'.operations.get? operation.id = some stored ∧ stored.state = .unknown
  never : ∀ operation, Left s operation → ∀ t, system.Later s t →
    t.executed.count operation.id = s.executed.count operation.id

/-- A left operation is unknown once the new process has isolated what it found. -/
theorem Left.unknown {operation : ExecutionOperation} (left : Left s operation)
    {env : Surroundings} (run : isolateRestoredOperations env s = .ok () s') :
    ∃ stored, s'.operations.get? operation.id = some stored ∧ stored.state = .unknown := by
  obtain ⟨-, hrestored⟩ := wp_ok (Q := fun _ s' => Moves s s' ∧ _) (moves_isolate left.fresh) run
  refine ⟨operation.restored, hrestored operation left.stored, ?_⟩
  unfold ExecutionOperation.restored
  split_ifs with hrunning
  · exact if_pos left.mutating
  · exact left.state.resolve_left hrunning

/-- In every run a tool is called once at most for an operation. -/
theorem atMostOnce_of_reachable (h : system.Reachable s) : AtMostOnce s where
  once := (once_of_reachable h).nodup
  recorded := (sound_of_reachable h).recorded
  crashed env act t enabled run := by
    have hs := sound_of_reachable h
    have moves : Moves s t := wp_error (E := fun _ => Moves s) (moves_perform hs enabled) run
    exact (moves.sound hs).recorded
  unknown operation left env s' run := left.unknown run
  never operation left t later := (spent_later h (left.spent (sound_of_reachable h)) later).2

/-! ## One at a time -/

/-- No mutation of the workspace but that of the launch is under way or unknown. -/
structure Exclusive (s : Executor) (l : Launch) : Prop where
  settled : ∀ x, s.Has x → x.ticket ≠ l.ticket → s.Contend l x →
    ∀ work, x.work = some work → work.Settled
  known : ∀ stored ∈ s.operations.entries, stored.id ≠ l.operation.id → stored.effect.mutating →
    s.workspace stored.agentId = s.workspace l.operation.agentId → stored.state ≠ .unknown

/-- A mutation that is scheduled excludes the others. -/
theorem Sound.exclusive (h : Sound s) (has : s.Has l) (mutating : l.operation.effect.mutating)
    (scheduled : l.work = some .scheduled) : Exclusive s l where
  settled x hx hne hcontend work hwork := by
    have executing := (h.placed.phased l has).scheduled scheduled
    rcases Nat.lt_or_gt_of_ne hne with hlt | hlt
    · have hreleased := h.locked.order l x has hx hcontend hlt (.inr (.inr (.inl executing)))
      exact ((h.placed.phased x hx).released hreleased).2 work hwork
    · have hreleased := h.locked.order x l hx has hcontend.symm hlt (.inl (by rw [hwork]; rfl))
      rw [h.placed.unreleased has executing] at hreleased
      cases hreleased
  known stored hstored hne hmutating hworkspace hunknown :=
    hne (h.locked.clear l has mutating scheduled stored hstored hmutating hunknown hworkspace)

/-- The tool of a mutation is called only while no other mutation of its workspace is under way or
unknown. -/
theorem exclusive_of_reachable (h : system.Reachable s) :
    ∀ l, (Act.invoke l.ticket).enabled s → s.launches.get? l.ticket = some l →
      l.operation.effect.mutating → Exclusive s l := by
  intro l enabled has mutating
  obtain ⟨l', hticket, has', scheduled⟩ := Executor.LaunchIs.has enabled
  obtain rfl := has'.eq has hticket
  exact (sound_of_reachable h).exclusive has' mutating scheduled

/-! ## A run -/

section Run

/-- Everybody agrees, and every tool has side effects. -/
def agreeable : Surroundings where
  crashes _ := false
  registerOperations id := .ok ⟨1, id, "run", 0, 10⟩
  completeOperation _ _ := .ok ()
  handlePending _ := true
  agentActive _ := true
  tool _ := some .sideEffect
  visible _ _ := true
  validateInput _ _ := .ok true
  withinCeiling _ := .ok true
  check _ := .ok true
  grantByHuman _ := .ok ()
  onFault _ _ _ := .ok ()
  onUnknown _ := .ok ()
  onReconciled _ _ := .ok true
  sha256 text := text

/-- The state after an act. -/
def after (s : Executor) (act : Act) : Executor := finalState (act.perform agreeable s)

/-- An act has returned. -/
def returned : EStateM.Result Stop Executor Unit → Bool
  | .ok _ _ => true
  | .error _ _ => false

/-- An act that returns is a step. -/
theorem step_after (act : Act) (enabled : act.enabled s)
    (run : returned (act.perform agreeable s) = true) : system.step s (after s act) := by
  have hok : act.perform agreeable s = .ok () (after s act) := by
    unfold after
    cases hperform : act.perform agreeable s with
    | ok => rfl
    | error => rw [hperform] at run; cases run
  exact .act agreeable act enabled hok

/-- A launch is found by what can be computed of it. -/
theorem launchIs_of_any {ticket : ℕ} {P : Launch → Prop} {p : Launch → Bool}
    (h : (s.launches.get? ticket).any p = true) (hp : ∀ l, p l = true → P l) :
    s.LaunchIs ticket P := by
  cases hl : s.launches.get? ticket with
  | none =>
    rw [hl] at h
    cases h
  | some l =>
    rw [hl] at h
    exact ⟨l, hl, hp l h⟩

/-- A process on an empty store with one workspace. -/
def started : Executor := after (.initial fun _ => "/work") .isolateRestoredOperations

/-- A round with two calls is staged. -/
def staged : Executor :=
  after started (.stage "round" 1 ⟨"frame", 1⟩ [⟨"write", []⟩, ⟨"write", []⟩])

/-- The tool of the first call is about to be called. -/
def proceeded : Executor := after staged (.proceed 0)

/-- The tool of the first call was called. -/
def invoked : Executor := after proceeded (.invoke 0)

/-- The process with the staged operation is reachable. -/
theorem reachable_staged : system.Reachable staged := by
  have hinitial : system.Reachable (.initial fun _ => "/work") :=
    .of_init ⟨fun _ => "/work", rfl⟩
  have hstarted : system.Reachable started :=
    hinitial.step (step_after .isolateRestoredOperations rfl (by decide))
  have hisolated : started.isolated = true := by decide
  exact hstarted.step (step_after (.stage ..) hisolated (by decide))

/-- The process whose operation has its turn is reachable. -/
theorem reachable_proceeded : system.Reachable proceeded := by
  refine reachable_staged.step (step_after (.proceed 0) ?_ (by decide))
  refine launchIs_of_any (p := fun l => l.phase = .queued && l.previous = none)
    (by decide) fun l hl => ?_
  simp only [Bool.and_eq_true, decide_eq_true_eq] at hl
  refine ⟨hl.1, fun previous hprevious => ?_⟩
  rw [hl.2] at hprevious
  cases hprevious

/-- Whether the tool of a launch is about to be called. -/
def isScheduled : Option Work → Bool
  | some .scheduled => true
  | _ => false

/-- What is scheduled is scheduled. -/
theorem eq_of_isScheduled {work : Option Work} (h : isScheduled work = true) :
    work = some .scheduled := by
  rcases work with _ | _ | _ | answer
  · cases h
  · rfl
  · cases h
  · cases h

/-- The tool may be called. -/
theorem enabled_invoke : (Act.invoke 0).enabled proceeded :=
  launchIs_of_any (p := fun l => isScheduled l.work) (by decide) fun _ hl => eq_of_isScheduled hl

/-- The process whose tool was called is reachable. -/
theorem reachable_invoked : system.Reachable invoked :=
  reachable_proceeded.step (step_after (.invoke 0) enabled_invoke (by decide))

/-- The process ends while the tool runs, and the next one finds the operation running. -/
theorem atMostOnce_invoked :
    (invoked.restart fun _ => "/work").executed = ["round:tool:0"] ∧
      ((invoked.restart fun _ => "/work").operations.get? "round:tool:0").map (·.state) =
        some .running ∧
      AtMostOnce (invoked.restart fun _ => "/work") :=
  ⟨by decide, by decide +kernel,
    atMostOnce_of_reachable (reachable_invoked.step (.kill _))⟩

/-- The first tool is called while the second call waits behind it. -/
theorem exclusive_proceeded : proceeded.launches.keys = [0, 1] ∧
    ∃ l, proceeded.launches.get? 0 = some l ∧ l.operation.effect.mutating = true ∧
      Exclusive proceeded l := by
  have hlaunch : proceeded.LaunchIs 0 (·.operation.effect.mutating = true) :=
    launchIs_of_any (p := fun l => l.operation.effect.mutating) (by decide) fun _ h => h
  obtain ⟨l, hl, hmutating⟩ := hlaunch
  have hticket : l.ticket = 0 := OrderedMap.key_of_get? hl
  have henabled : (Act.invoke l.ticket).enabled proceeded := by
    rw [hticket]
    exact enabled_invoke
  refine ⟨by decide, l, hl, hmutating, ?_⟩
  exact exclusive_of_reachable reachable_proceeded l henabled (by rw [hticket]; exact hl) hmutating

end Run

end OsAgent.AgentRuntime
