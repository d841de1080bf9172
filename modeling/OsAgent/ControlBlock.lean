import Mathlib.Data.List.Defs

/-!
# The agent control block

The scheduling state of a long-lived agent and the table of its state edges
(`agent-control-block/internal/control-block.ts`). A request for an edge that the table does not
have is an error. Which edge to ask for, and when, is the scheduler's business.
-/

namespace OsAgent.ControlBlock

/-- An agent's identity: a positive safe integer that the host assigns. -/
abbrev AgentId := Nat

/-- The scheduling state of an agent. -/
inductive AgentState where
  /-- Sealed input is waiting for a model processor. -/
  | ready
  /-- The current batch is with the model, or its answer is being processed. -/
  | running
  /-- No batch to send, and operations are still in flight; or the agent is suspended. -/
  | blocked
  /-- Nothing to run and nothing in flight. -/
  | sleeping
deriving DecidableEq, Repr

/-- The edges that leave a state. -/
def transitions : AgentState → List AgentState
  | .sleeping => [.ready]
  | .ready => [.running, .blocked]
  | .running => [.ready, .blocked, .sleeping]
  | .blocked => [.ready]

/-- Whether an edge is in the table. -/
def canAgentTransition (source target : AgentState) : Bool := (transitions source).contains target

/-- The port through which the scheduler reads and changes an agent's state. -/
structure SchedulingHandle where
  agentId : AgentId
  state : AgentState
deriving DecidableEq, Repr

/-- `InvalidAgentTransitionError`: the edge that was asked for. -/
structure InvalidAgentTransition where
  source : AgentState
  target : AgentState
deriving DecidableEq, Repr

/-- Moves along an edge of the table, or says which edge is missing. -/
def SchedulingHandle.transition (handle : SchedulingHandle) (next : AgentState) :
    Except InvalidAgentTransition SchedulingHandle :=
  if canAgentTransition handle.state next then
    .ok { handle with state := next }
  else
    .error { source := handle.state, target := next }

end OsAgent.ControlBlock
