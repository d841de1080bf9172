import OsAgent.AgentRuntime.System

/-!
# The moves of the executor

Every stretch of the executor's code is a sequence of moves: one write, one launch, or one step of a
launch. `Move` gives each with what the code has made sure of before it, and `Sound` is what every
move keeps.

A launch is a place in the queue of its workspace. `Contend` relates the mutations that share a queue,
`Started` says that a launch has had its turn, and `Sound.order` that then all before it in the queue
have released the workspace.
-/

namespace OsAgent.AgentRuntime

open OsAgent.Library
open ControlBlock (AgentId)

/-- The launch waits for its tool. -/
def Launch.Busy (l : Launch) : Prop :=
  l.phase = .executing ∧ l.work.isSome ∧ l.operation.state = .running

namespace Executor

variable (s : Executor)

/-- A launch of this process. -/
def Has (launch : Launch) : Prop := s.launches.get? launch.ticket = some launch

/-- Two mutations in one workspace. -/
def Contend (l l' : Launch) : Prop :=
  l.operation.effect.mutating ∧ l'.operation.effect.mutating ∧
    s.workspace l.operation.agentId = s.workspace l'.operation.agentId

/-- Some launch of the operation is within `#execute` or has left it by an error. -/
def Attended (id : String) : Prop :=
  ∃ l, s.Has l ∧ l.operation.id = id ∧ (l.phase = .executing ∨ l.faulted = true)

/-- No launch of the operation waits for its tool. -/
def Free (id : String) : Prop := ∀ l, s.Has l → l.operation.id = id → ¬ l.Busy

/-- What is made sure of before an operation is written. -/
structure Writable (operation : ExecutionOperation) : Prop where
  same : ∀ old, s.operations.get? operation.id = some old →
    old.agentId = operation.agentId ∧ old.effect = operation.effect
  waiting : operation.effect.mutating → operation.waiting →
    ∀ old, s.operations.get? operation.id = some old → old.waiting
  running : operation.effect.mutating → operation.state = .running → s.isolated →
    s.Attended operation.id
  unknown : operation.effect.mutating → operation.state = .unknown →
    (∃ old, s.operations.get? operation.id = some old ∧ old.state = .unknown) ∨
      (s.isolated → s.Attended operation.id)
  finished : operation.effect.mutating → operation.state ≠ .running → operation.state ≠ .unknown →
    s.Free operation.id

/-- What is made sure of before an operation is launched. -/
structure Launchable (operation : ExecutionOperation) : Prop where
  isolated : s.isolated = true
  running : s.stopping = false
  inactive : s.active operation.id = none
  stored : ∃ old, s.operations.get? operation.id = some old ∧
    old.agentId = operation.agentId ∧ old.effect = operation.effect ∧
    (operation.effect.mutating → old.state = .registered)

/-- The operation is no longer to be executed in its workspace. -/
def NotRunning (l : Launch) : Prop :=
  l.operation.effect.mutating →
    ∀ stored, s.operations.get? l.operation.id = some stored → stored.state ≠ .running

end Executor

/-- One move. -/
inductive Move (s : Executor) : Executor → Prop
  | note (results : String → Option ExecutionOperation) (waits : String → Option String)
    (reconciliations : String → Bool) (writes : ℕ) :
    Move s { s with results, waits, reconciliations, writes }
  | put (operation : ExecutionOperation) (h : s.Writable operation) : Move s (s.put operation)
  | launch (operation : ExecutionOperation) (h : s.Launchable operation) :
    Move s (s.launch operation)
  | isolate (h : ∀ operation ∈ s.operations.entries, operation.effect.mutating →
      operation.state ≠ .running) : Move s { s with isolated := true }
  | stop : Move s { s with stopping := true }
  | hold (l : Launch) (operation : ExecutionOperation) (has : s.Has l)
    (state : l.work.isSome → operation.state ≠ .running)
    (id : operation.id = l.operation.id) (agentId : operation.agentId = l.operation.agentId)
    (effect : operation.effect = l.operation.effect) : Move s (s.setLaunch { l with operation })
  | proceed (l : Launch) (has : s.Has l) (queued : l.phase = .queued) (running : s.stopping = false)
    (turn : ∀ previous, l.previous = some previous → s.LaunchIs previous (·.released = true)) :
    Move s (s.setLaunch { l with phase := .executing })
  | schedule (l : Launch) (has : s.Has l) (executing : l.phase = .executing) (fresh : l.work = none)
    (running : s.stopping = false)
    (stored : ∀ stored, s.operations.get? l.operation.id = some stored →
      stored.state = .running)
    (clear : l.operation.effect.mutating →
      s.hasUnknownMutation (s.workspace l.operation.agentId) = false) :
    Move s ({ s with
      mutationWork := if l.operation.effect.mutating then
        Function.update s.mutationWork l.operation.id (some l.ticket) else s.mutationWork
      }.setLaunch { l with work := some .scheduled })
  | invoke (l : Launch) (has : s.Has l) (scheduled : l.work = some .scheduled) :
    Move s ((s.record l.operation).setLaunch { l with work := some .running })
  | answer (l : Launch) (reply : Except ToolFailure JsonValue) (has : s.Has l)
    (running : l.work = some .running) :
    Move s (s.setLaunch { l with work := some (.settled reply) })
  | finish (l : Launch) (has : s.Has l) (idle : l.work ≠ some .scheduled)
    (phase : l.phase = .executing ∧ s.NotRunning l ∨ l.phase = .queued ∧ s.stopping = true) :
    Move s (s.setLaunch { l with phase := .ended })
  | fault (l : Launch) (has : s.Has l) (idle : l.work ≠ some .scheduled)
    (executing : l.phase = .executing) :
    Move s (s.setLaunch { l with phase := .ended, faulted := true })
  | handle (l : Launch) (has : s.Has l) (ended : l.phase = .ended)
    (stopping : l.faulted = true → s.stopping = true) :
    Move s (s.setLaunch { l with phase := .caught })
  | settle (l : Launch) (has : s.Has l) (caught : l.phase = .caught) :
    Move s ({ s with active := Function.update s.active l.operation.id none }.setLaunch
      { l with phase := .settled })
  | release (l : Launch) (has : s.Has l) (settled : l.phase = .settled)
    (unreleased : l.released = false) (mutating : l.operation.effect.mutating)
    (done : ∀ executing, s.mutationWork l.operation.id = some executing →
      s.LaunchIs executing fun other => ∃ work, other.work = some work ∧ work.Settled) :
    Move s ({ s with mutationWork := Function.update s.mutationWork l.operation.id none }.setLaunch
      { l with released := true })

/-! ## What every move keeps -/

/-- How far a launch is fits together. -/
structure Launch.Phased (l : Launch) (stopping : Bool) : Prop where
  queued : l.phase = .queued → l.work = none ∧ l.faulted = false
  scheduled : l.work = some .scheduled → l.phase = .executing
  released : l.released = true → l.phase = .settled ∧ ∀ work, l.work = some work → work.Settled
  faulted : l.faulted = true → l.phase ≠ .executing ∧ (l.phase ≠ .ended → stopping = true)

/-- A launch has had its turn. Those that a shutdown has cancelled have not. -/
def Launch.Started (l : Launch) (stopping : Bool) : Prop :=
  l.work.isSome ∨ l.faulted = true ∨ l.phase = .executing ∨ l.phase ≠ .queued ∧ stopping = false

/-- The launches and their places. -/
structure Placed (s : Executor) : Prop where
  bounded : ∀ l, s.Has l → l.ticket < s.nextTicket
  idle : s.isolated = false → ∀ l, ¬ s.Has l
  known : ∀ l, s.Has l → ∃ stored, s.operations.get? l.operation.id = some stored ∧
    stored.agentId = l.operation.agentId ∧ stored.effect = l.operation.effect
  behind : ∀ l l', s.Has l → s.Has l' → s.Contend l l' → l'.ticket < l.ticket →
    ∃ p, s.Has p ∧ l.previous = some p.ticket ∧ s.Contend l p ∧ p.ticket < l.ticket ∧
      l'.ticket ≤ p.ticket
  tail : ∀ l, s.Has l → l.operation.effect.mutating → ∃ last, s.Has last ∧
    s.mutationTails (s.workspace l.operation.agentId) = some last.ticket ∧ s.Contend l last ∧
      l.ticket ≤ last.ticket
  phased : ∀ l, s.Has l → l.Phased s.stopping

/-- A launch is active until its promise settles. -/
def Registered (s : Executor) : Prop :=
  ∀ l, s.Has l → l.phase ≠ .settled → s.active l.operation.id = some l.ticket

/-- What the places mean. -/
structure Locked (s : Executor) : Prop where
  work : ∀ l, s.Has l → l.operation.effect.mutating → l.work.isSome → l.released = false →
    s.mutationWork l.operation.id = some l.ticket
  order : ∀ l l', s.Has l → s.Has l' → s.Contend l l' → l'.ticket < l.ticket →
    l.Started s.stopping → l'.released = true
  again : ∀ l l', s.Has l → s.Has l' → l.operation.effect.mutating →
    l.operation.id = l'.operation.id → l.ticket < l'.ticket → l.phase = .settled ∧ l.work = none
  begun : ∀ l, s.Has l → l.operation.effect.mutating → l.work.isSome →
    ∀ stored, s.operations.get? l.operation.id = some stored → ¬ stored.waiting
  recorded : ∀ l, s.Has l → l.operation.effect.mutating → l.Busy →
    ∀ stored, s.operations.get? l.operation.id = some stored →
      stored.state = .running ∨ stored.state = .unknown
  running : s.isolated → ∀ stored ∈ s.operations.entries, stored.effect.mutating →
    stored.state = .running → s.Attended stored.id
  clear : ∀ l, s.Has l → l.operation.effect.mutating → l.work = some .scheduled →
    ∀ stored ∈ s.operations.entries, stored.effect.mutating → stored.state = .unknown →
      s.workspace stored.agentId = s.workspace l.operation.agentId → stored.id = l.operation.id
  faultless : ∀ l l', s.Has l → s.Has l' → s.Contend l l' → l.work = some .scheduled →
    l'.faulted = false

/-- A launch that is not going to call its tool. -/
def Launch.Over (l : Launch) : Prop :=
  l.phase ≠ .queued ∧ l.work ≠ some .scheduled ∧ (l.phase = .executing → l.work ≠ none)

/-- An operation whose tool is not going to be called. -/
structure Spent (s : Executor) (id : String) : Prop where
  stored : ∃ stored, s.operations.get? id = some stored ∧ stored.effect.mutating ∧ ¬ stored.waiting
  launched : ∀ l, s.Has l → l.operation.id = id → l.Over

/-- Tools were called once for each operation. -/
structure Once (s : Executor) : Prop where
  nodup : s.executed.Nodup
  spent : ∀ id ∈ s.executed, Spent s id

end OsAgent.AgentRuntime
