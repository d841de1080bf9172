import OsAgent.AgentRuntime.RestoredAgents

/-!
# Dismissed agents

`dismiss` saves the agent as dismissed and without grants before it stops what the agent has running
(`internal/runtime.ts`), so that neither recovery nor another control can start it again. The process may
end at any time after that, and launches of the agent may still be waiting. `dismissed_for_good` says that
from then on, in this process and in every later one, no tool is decided on for the agent.
-/

namespace OsAgent.AgentRuntime

open OsAgent.Library OsAgent.Capability
open ControlBlock (AgentId)

variable {config : Configuration} {host host' : Host} {id : AgentId}

/-- The agent is dismissed and holds no grants. -/
def Host.Dismissed (host : Host) (id : AgentId) : Prop :=
  ∃ agent, host.agents.get? id = some agent ∧ agent.status = .dismissed ∧ agent.grants = []

/-- An agent that is active is not dismissed. -/
theorem ne_of_active {clock : String → ℕ} {oracle : Surroundings} {operation : ExecutionOperation}
    (h : host.Dismissed id)
    (active : (config.surroundings host clock oracle).agentActive operation.agentId = true) :
    operation.agentId ≠ id := by
  rintro rfl
  obtain ⟨agent, hagent, hdismissed, -⟩ := h
  obtain ⟨other, hother, hactive⟩ := (Option.any_eq_true _ _).mp active
  rw [hagent] at hother
  obtain rfl := Option.some.inj hother
  rw [hdismissed] at hactive
  cases hactive

/-- A record of another agent is saved, or the same agent dismissed once more. -/
theorem Host.Dismissed.save {agent : RuntimeAgent} (h : host.Dismissed id)
    (same : agent.agentId = id → agent.status = .dismissed ∧ agent.grants = []) :
    (host.save agent).Dismissed id := by
  obtain ⟨old, hold, hdismissed, hgrants⟩ := h
  unfold Host.Dismissed Host.save
  simp only [OrderedMap.get?_insert]
  split_ifs with hid
  · exact ⟨agent, rfl, same hid.symm⟩
  · exact ⟨old, hold, hdismissed, hgrants⟩

/-- A grant does not bring an agent back. -/
theorem Host.Dismissed.granting {clock : String → ℕ} {oracle : Surroundings} {owner : String}
    {act : Act} (h : host.Dismissed id) :
    (host.granting config clock oracle owner act).Dismissed id := by
  unfold Host.granting
  split
  · next operation happroval =>
    have hactive : (config.surroundings host clock oracle).agentActive operation.agentId = true := by
      unfold Host.approval? at happroval
      split at happroval
      · rw [Option.filter_eq_some_iff, Bool.and_eq_true] at happroval
        exact happroval.2.2
      · cases happroval
    unfold Host.afterApproval
    split
    · next agents issued horacle happroved =>
      obtain ⟨agent, hagent, grants, -, rfl⟩ := approved_eq_ok happroved
      have hkey : agent.agentId = operation.agentId := OrderedMap.key_of_get? hagent
      have hsaved : (host.save
          { agent with grants := agent.grants ++ grants.map (.ofHuman operation.id) }).Dismissed id :=
        h.save fun hid => absurd (hkey.symm.trans hid) (ne_of_active h hactive)
      exact hsaved
    · exact h
  · exact h

/-- A dismissed agent stays so. -/
theorem Host.Dismissed.step (hsound : host.Sound config) (h : host.Dismissed id)
    (step : Host.Step config host host') : host'.Dismissed id := by
  have hstored : ∀ agent, host.agents.get? agent.agentId = some agent → agent.agentId = id →
      agent.status = .dismissed ∧ agent.grants = [] := by
    rintro agent hagent rfl
    obtain ⟨old, hold, hdismissed, hgrants⟩ := h
    rw [hagent] at hold
    obtain rfl := Option.some.inj hold
    exact ⟨hdismissed, hgrants⟩
  cases step with
  | create workspaces input now run =>
    obtain ⟨character, ceiling, grants, -, -, rfl⟩ := createAgent_run run
    refine h.save fun hid => ?_
    obtain ⟨old, hold, -⟩ := h
    have hlt := hsound.fresh old (OrderedMap.mem_of_get? hold)
    rw [OrderedMap.key_of_get? hold, ← hid] at hlt
    exact absurd hlt (lt_irrefl _)
  | reserve ids grants => exact h
  | setStatus stored employed other =>
    have hold := hstored _ stored
    exact h.save fun hid => absurd (hold hid).1 employed
  | dismiss stored => exact h.save fun _ => ⟨rfl, rfl⟩
  | switchConversation stored id =>
    have hold := hstored _ stored
    exact h.save fun hid => ⟨(hold hid).1, (hold hid).2⟩
  | act clock oracle workspace enabled permitted => exact h.granting
  | kill workspace => exact h

/-- No step decides on a tool for a dismissed agent. -/
theorem decisions_step (h : host.Dismissed id) (step : Host.Step config host host') :
    ∀ decision ∈ host'.decisions, decision.operation.agentId = id → decision ∈ host.decisions := by
  cases step with
  | act clock oracle workspace enabled permitted =>
    rename_i owner act
    intro decision hdecision hid
    rcases List.mem_append.mp hdecision with hold | hnew
    · exact hold
    · rw [Option.mem_toList] at hnew
      unfold Host.decision? at hnew
      split at hnew
      · split at hnew
        · next l hl =>
          split_ifs at hnew with hadmits
          obtain ⟨agent, -, rfl⟩ := Option.map_eq_some_iff.mp hnew
          simp only [Host.admits, Bool.and_eq_true] at hadmits
          exact absurd hid (ne_of_active h hadmits.2.1.1.1.2)
        · cases hnew
      · cases hnew
  | create workspaces input now run => exact fun _ hdecision _ => hdecision
  | reserve ids grants => exact fun _ hdecision _ => hdecision
  | setStatus stored employed other => exact fun _ hdecision _ => hdecision
  | dismiss stored => exact fun _ hdecision _ => hdecision
  | switchConversation stored id => exact fun _ hdecision _ => hdecision
  | kill workspace => exact fun _ hdecision _ => hdecision

/-- Once an agent is dismissed, it stays dismissed and without grants, and no tool is decided on for it,
whatever happens and however often the process ends. -/
theorem dismissed_for_good (h : (Host.system config).Reachable host) (dismissed : host.Dismissed id)
    (later : (Host.system config).Later host host') :
    host'.Dismissed id ∧
      ∀ decision ∈ host'.decisions, decision.operation.agentId = id → decision ∈ host.decisions := by
  refine TransitionSystem.Later.invariant (P := fun host' => host'.Dismissed id ∧
    ∀ decision ∈ host'.decisions, decision.operation.agentId = id → decision ∈ host.decisions) h
    ⟨dismissed, fun _ hdecision _ => hdecision⟩ ?_ later
  rintro host' host'' hreachable ⟨hdismissed, hdecisions⟩ hstep
  refine ⟨hdismissed.step (host_sound_of_reachable hreachable) hstep, ?_⟩
  intro decision hdecision hid
  exact hdecisions decision (decisions_step hdismissed hstep decision hdecision hid) hid

/-- The agent that pushed is dismissed. Afterwards the process ends, and the decision that was made stays
the only one. -/
theorem dismissed_for_good_pushed : ∃ host host', (Host.system pushConfiguration).Reachable host ∧
    host.Dismissed 1 ∧ (Host.system pushConfiguration).Later host host' ∧ host'.Dismissed 1 ∧
    ∀ decision ∈ host'.decisions, decision.operation.agentId = 1 → decision ∈ host.decisions := by
  have hhas : (pushed.agents.get? 1).isSome = true := by decide +kernel
  obtain ⟨agent, hagent⟩ := Option.isSome_iff_exists.mp hhas
  have hkey : agent.agentId = 1 := OrderedMap.key_of_get? hagent
  -- The user dismisses the agent, and then the process ends.
  set dismissed := pushed.save { agent with status := .dismissed, grants := [] } with hsaved
  have hstep : Host.Step pushConfiguration pushed dismissed :=
    .dismiss (by rw [hkey]; exact hagent)
  have hend : Host.Step pushConfiguration dismissed
      { dismissed with executor := dismissed.executor.restart fun _ => "/work" } := .kill _
  have hdismissed : dismissed.Dismissed 1 := by
    refine ⟨{ agent with status := .dismissed, grants := [] }, ?_, rfl, rfl⟩
    rw [← hkey]
    exact OrderedMap.get?_insert_self ..
  have hlater := Relation.ReflTransGen.single hend
  exact ⟨_, _, reachable_pushed.step hstep, hdismissed, hlater,
    dismissed_for_good (reachable_pushed.step hstep) hdismissed hlater⟩

end OsAgent.AgentRuntime
