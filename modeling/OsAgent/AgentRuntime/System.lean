import OsAgent.AgentRuntime.Executor
import OsAgent.Library.Transition

/-!
# The executor over time

`Act` is what can happen next in a process: a call of the executor by the runtime, or the next step of
a promise. `Act.enabled` says when, and `Act.perform` is the code that runs then. At any time, and
before any write, the process may end, and a new one starts on the same store. The new process does
nothing before `isolateRestoredOperations` has run.
-/

namespace OsAgent.AgentRuntime

open OsAgent.Library
open ControlBlock (AgentId)
open AgentScheduler (AsyncOperationResult)
open Context (ContextCursor)

/-- What can happen next in a process. -/
inductive Act where
  | stage (roundKey : String) (agentId : AgentId) (cursor : ContextCursor) (calls : List ToolCall)
  | approve (id : String) (allowed : Bool)
  | reconcile (id : String) (outcome : Reconciliation) (result : JsonValue)
  | isolateRestoredOperations
  | recover (agentId : AgentId)
  | notifyReconciliations (agentId : AgentId)
  | resume (agentId : AgentId)
  | dismiss (agentId : AgentId)
  | stop
  | resolveWait (operation : ExecutionOperation) (result : AsyncOperationResult)
  /-- The tail before a launch is resolved. -/
  | proceed (ticket : ℕ)
  /-- The shutdown ends the wait for the tail before a launch. -/
  | cancel (ticket : ℕ)
  /-- `tool.execute` is called. -/
  | invoke (ticket : ℕ)
  /-- The promise of `tool.execute` settles. -/
  | answer (ticket : ℕ) (reply : Except ToolFailure JsonValue)
  /-- `#execute` goes on with the answer, or with the reason of its aborted signal. -/
  | conclude (ticket : ℕ) (aborted : Bool) (reply : Except ToolFailure JsonValue)
  /-- The handler of a rejected `#execute`. -/
  | handle (ticket : ℕ)
  /-- The promise of a launch settles. -/
  | settle (ticket : ℕ)
  /-- The tail of a launch is resolved. -/
  | release (ticket : ℕ)

/-- A launch is known under its ticket and satisfies `P`. -/
def Executor.LaunchIs (s : Executor) (ticket : ℕ) (P : Launch → Prop) : Prop :=
  ∃ launch, s.launches.get? ticket = some launch ∧ P launch

/-- A promise `executing` has settled. -/
def Work.Settled (work : Work) : Prop := ∃ answer, work = .settled answer

/-- When an act can happen. -/
def Act.enabled (s : Executor) : Act → Prop
  | .isolateRestoredOperations => s.isolated = false
  | .resolveWait operation _ => s.isolated ∧ s.operations.get? operation.id = some operation
  | .proceed ticket => s.LaunchIs ticket fun launch => launch.phase = .queued ∧
      ∀ previous, launch.previous = some previous → s.LaunchIs previous (·.released)
  | .cancel ticket => s.stopping ∧ s.LaunchIs ticket (·.phase = .queued)
  | .invoke ticket => s.LaunchIs ticket (·.work = some .scheduled)
  | .answer ticket _ => s.LaunchIs ticket (·.work = some .running)
  | .conclude ticket aborted reply => s.LaunchIs ticket fun launch => launch.phase = .executing ∧
      (launch.work = some (.settled reply) ∨
        aborted ∧ reply = .error .other ∧ ∃ work, launch.work = some work ∧ work ≠ .scheduled)
  | .handle ticket => s.LaunchIs ticket (·.phase = .ended)
  | .settle ticket => s.LaunchIs ticket (·.phase = .caught)
  | .release ticket => s.LaunchIs ticket fun launch => launch.phase = .settled ∧
      launch.released = false ∧ launch.operation.effect.mutating ∧
      ∀ executing, s.mutationWork launch.operation.id = some executing →
        s.LaunchIs executing fun other => ∃ work, other.work = some work ∧ work.Settled
  | _ => s.isolated

/-- Calls of the tool are recorded, except for a tool that only reads. -/
def Executor.record (s : Executor) (operation : ExecutionOperation) : Executor :=
  if operation.effect.mutating then { s with executed := s.executed ++ [operation.id] } else s

/-- A step of a launch that is known under its ticket. -/
def withLaunch (ticket : ℕ) (step : Launch → EStateM Stop Executor Unit) :
    EStateM Stop Executor Unit := do
  match (← get).launches.get? ticket with
  | some launch => step launch
  | none => return

/-- The code that runs. -/
def Act.perform (env : Surroundings) : Act → EStateM Stop Executor Unit
  | .stage roundKey agentId cursor calls => AgentRuntime.stage env roundKey agentId cursor calls
  | .approve id allowed => AgentRuntime.approve env id allowed
  | .reconcile id outcome result => AgentRuntime.reconcile env id outcome result
  | .isolateRestoredOperations => AgentRuntime.isolateRestoredOperations env
  | .recover agentId => AgentRuntime.recover env agentId
  | .notifyReconciliations agentId => AgentRuntime.notifyReconciliations env agentId
  | .resume agentId => AgentRuntime.resume agentId
  | .dismiss agentId => AgentRuntime.dismiss env agentId
  | .stop => AgentRuntime.stop
  | .resolveWait operation result => do
    let _ ← AgentRuntime.resolveWait env operation result
  | .proceed ticket => withLaunch ticket fun launch => do
    if (← get).stopping then moveTo ticket .ended
    else
      moveTo ticket .executing
      guarded ticket (execute env ticket launch.operation)
  | .cancel ticket => moveTo ticket .ended
  | .invoke ticket => withLaunch ticket fun launch =>
    modify fun s => (s.modifyLaunch ticket fun l => { l with work := some .running }).record
      launch.operation
  | .answer ticket reply =>
    modify (·.modifyLaunch ticket fun l => { l with work := some (.settled reply) })
  | .conclude ticket aborted reply => withLaunch ticket fun launch =>
    guarded ticket do
      AgentRuntime.conclude env ticket launch.operation aborted reply
      return false
  | .handle ticket => withLaunch ticket fun launch => do
    if launch.faulted then AgentRuntime.stop
    moveTo ticket .caught
  | .settle ticket => withLaunch ticket fun launch => do
    modify fun s => { s with active := Function.update s.active launch.operation.id none }
    moveTo ticket .settled
  | .release ticket => withLaunch ticket fun launch => do
    modify fun s => { s with
      mutationWork := Function.update s.mutationWork launch.operation.id none }
    modify (·.modifyLaunch ticket fun l => { l with released := true })

/-- A new process on the store that the former one left. -/
def Executor.restart (s : Executor) (workspace : AgentId → String) : Executor :=
  { s with
    workspace
    launches := .empty
    active := fun _ => none
    mutationTails := fun _ => none
    mutationWork := fun _ => none
    stopping := false
    isolated := false }

/-- One step of the processes that follow each other on one store. -/
inductive Step (s : Executor) : Executor → Prop
  | act (env : Surroundings) (act : Act) {s' : Executor} (enabled : act.enabled s)
    (run : act.perform env s = .ok () s') : Step s s'
  | fault (env : Surroundings) (act : Act) {s' : Executor} {message : String}
    (enabled : act.enabled s) (run : act.perform env s = .error (.fault message) s') : Step s s'
  | crash (env : Surroundings) (act : Act) {s' : Executor} (workspace : AgentId → String)
    (enabled : act.enabled s) (run : act.perform env s = .error .crash s') :
    Step s (s'.restart workspace)
  | kill (workspace : AgentId → String) : Step s (s.restart workspace)

/-- An empty store and a process that has just started. -/
def Executor.initial (workspace : AgentId → String) : Executor where
  operations := .empty
  results _ := none
  waits _ := none
  reconciliations _ := false
  writes := 0
  workspace := workspace
  launches := .empty
  nextTicket := 0
  active _ := none
  mutationTails _ := none
  mutationWork _ := none
  stopping := false
  isolated := false
  executed := []

/-- The processes, over the acts that may happen. -/
def system : TransitionSystem Executor where
  init s := ∃ workspace, s = .initial workspace
  step := Step

end OsAgent.AgentRuntime
