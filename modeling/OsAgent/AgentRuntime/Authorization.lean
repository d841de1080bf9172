import OsAgent.AgentRuntime.Exclusion
import OsAgent.AgentRuntime.Host
import OsAgent.AgentRuntime.Vetting
import OsAgent.Capability.Delegation
import OsAgent.Capability.Records

/-!
# Tools are called with authority

Between the check of a new operation and the call of its tool an operation waits, is approved, is stored
by one process and launched by another, while the agent's grants change. `calls_authorized` says that
nevertheless every call of a tool was decided on the agent's grants of that moment: the agent sees the
tool, the requirements are within its ceiling, and each is covered by a grant of the host or by one that
the agent's owner gave for this very operation.
-/

namespace OsAgent.AgentRuntime

open OsAgent.Library OsAgent.Capability
open ControlBlock (AgentId)

/-! ## What a decision rests on -/

/-- Where a grant comes from: the host, or the agent's owner, who approved one operation. The host gives
nothing to execute on that needs a human. -/
structure RuntimeCapabilityGrant.Sound (m : CapabilityManager) (approvals : List (String × String))
    (agent : RuntimeAgent) (grant : RuntimeCapabilityGrant) : Prop where
  root : grant.source = .root → grant.remainingUses = none ∧
    (grant.Executable → ¬ NeedsHuman m grant.capability)
  human : ∀ id, grant.source = .human id → grant.remainingUses = some 0 ∧
    grant.consumedBy = some id ∧ (id, agent.ownerId) ∈ approvals

/-- The grant serves a request of an operation now. -/
structure RuntimeCapabilityGrant.Serves (m : CapabilityManager) (approvals : List (String × String))
    (agent : RuntimeAgent) (id : String) (now : ℕ) (request : CapabilityRequest)
    (grant : RuntimeCapabilityGrant) : Prop where
  contains : Contains grant.target request.target
  unexpired : ∀ expiresAt, grant.expiresAt = some expiresAt → now < expiresAt
  executable : grant.Executable
  origin : grant.source = .root ∧ ¬ NeedsHuman m grant.capability ∨
    grant.source = .human id ∧ (id, agent.ownerId) ∈ approvals

/-- The decision that the tool may be called. The manager normalizes the requirements once more before it
looks for grants. -/
structure Decision.Authorized (config : Configuration) (approvals : List (String × String))
    (decision : Decision) : Prop where
  agent : decision.agent.agentId = decision.operation.agentId
  active : decision.agent.status = .active
  tool : ∃ tool, config.tools.get decision.operation.toolName = .ok tool ∧
    tool.effect = decision.operation.effect
  visible : decision.operation.toolName ∈ decision.agent.skills
  covered : ∃ requirements, config.requirements decision.operation = .ok requirements ∧
    Configuration.requirementsWithin decision.agent.ceiling requirements = true ∧
    ∃ checked, config.manager.normalizeRequests (requirements.map .request) = .ok checked ∧
      ∀ request ∈ checked, ∃ grant ∈ decision.agent.grants,
        grant.Serves config.manager approvals decision.agent decision.operation.id decision.now request

/-! ## The check -/

section Check

variable {m : CapabilityManager} {approvals approvals' : List (String × String)}
  {agent : RuntimeAgent} {grant : RuntimeCapabilityGrant}

/-- A grant is sound with further approvals. -/
theorem RuntimeCapabilityGrant.Sound.mono (h : grant.Sound m approvals agent)
    (hsub : approvals ⊆ approvals') : grant.Sound m approvals' agent where
  root := h.root
  human := fun id hsource =>
    ⟨(h.human id hsource).1, (h.human id hsource).2.1, hsub (h.human id hsource).2.2⟩

/-- A grant serves a request with further approvals. -/
theorem RuntimeCapabilityGrant.Serves.mono {id : String} {now : ℕ} {request : CapabilityRequest}
    (h : grant.Serves m approvals agent id now request) (hsub : approvals ⊆ approvals') :
    grant.Serves m approvals' agent id now request where
  contains := h.contains
  unexpired := h.unexpired
  executable := h.executable
  origin := h.origin.imp_right fun hhuman => ⟨hhuman.1, hsub hhuman.2⟩

/-- A decision is authorized with further approvals. -/
theorem Decision.Authorized.mono {config : Configuration} {decision : Decision}
    (h : decision.Authorized config approvals) (hsub : approvals ⊆ approvals') :
    decision.Authorized config approvals' where
  agent := h.agent
  active := h.active
  tool := h.tool
  visible := h.visible
  covered := by
    obtain ⟨requirements, hrequirements, hwithin, checked, hchecked, hserves⟩ := h.covered
    refine ⟨requirements, hrequirements, hwithin, checked, hchecked, ?_⟩
    intro request hrequest
    obtain ⟨grant, hgrant, hserve⟩ := hserves request hrequest
    exact ⟨grant, hgrant, hserve.mono hsub⟩

/-- A check that passes finds a grant for every request. -/
theorem check_allowed {grants : List CapabilityGrant} {inputs : List CapabilityInput} {now : ℕ}
    {operationId : Option String} {matched : List CapabilityGrant}
    (h : m.check grants inputs now operationId = .ok (.allowed matched)) :
    ∃ requests, m.normalizeRequests inputs = .ok requests ∧ ∀ request ∈ requests,
      ∃ grant ∈ grants, CapabilityManager.covers request now false operationId false grant = true := by
  unfold CapabilityManager.check at h
  obtain ⟨requests, hrequests, h⟩ := bind_eq_ok.mp h
  refine ⟨requests, hrequests, ?_⟩
  rw [pure_eq_ok] at h
  split_ifs at h with hnone
  · intro request hrequest
    have hnot := List.filter_eq_nil_iff.mp hnone request hrequest
    rw [Option.isNone_iff_eq_none, ← Ne, Option.ne_none_iff_exists'] at hnot
    obtain ⟨grant, hgrant⟩ := hnot
    exact ⟨grant, List.mem_of_find?_eq_some hgrant, List.find?_some hgrant⟩

/-- A grant that covers a request of an operation serves it. If it cannot be used any more, it was given
for this operation. -/
theorem RuntimeCapabilityGrant.Sound.serves {id : String} {now : ℕ} {request : CapabilityRequest}
    (h : grant.Sound m approvals agent)
    (hcovers : CapabilityManager.covers request now false (some id) false
      grant.toCapabilityGrant = true) :
    grant.Serves m approvals agent id now request := by
  simp only [CapabilityManager.covers, Bool.and_eq_true, Bool.or_eq_true, decide_eq_true_eq,
    Bool.false_eq_true, false_or, Option.isSome_some, true_and] at hcovers
  obtain ⟨⟨⟨⟨⟨hcapability, hexpires⟩, hexecution⟩, huses⟩, -⟩, hscope⟩ := hcovers
  refine ⟨⟨hcapability, hscope⟩, ?_, hexecution, ?_⟩
  · intro expiresAt hexpiresAt
    rw [hexpiresAt] at hexpires
    simpa using hexpires
  · rcases grant.origin with hroot | ⟨approvalId, hhuman⟩
    · exact .inl ⟨hroot, (h.root hroot).2 hexecution⟩
    · obtain ⟨hnone, hconsumed, happroved⟩ := h.human approvalId hhuman
      have hid : approvalId = id := by
        rcases huses with huses | huses
        · rw [hnone] at huses
          simp at huses
        · rw [hconsumed] at huses
          exact Option.some.inj huses
      subst hid
      exact .inr ⟨hhuman, happroved⟩

end Check

variable {config : Configuration} {host host' : Host} {operation : ExecutionOperation}

/-! ## What the surroundings say -/

section Surroundings

variable {clock : String → ℕ} {oracle : Surroundings}

/-- An error that is changed does not matter to what returns. -/
theorem mapError_eq_ok {ε ε' α : Type} {x : Except ε α} {f : ε → ε'} {a : α} :
    x.mapError f = .ok a ↔ x = .ok a := by
  cases x <;> simp [Except.mapError]

/-- An agent is found under its identifier. -/
theorem agent_eq_ok {agents : OrderedMap RuntimeAgent.agentId} {id : AgentId} {agent : RuntimeAgent} :
    Configuration.agent agents id = .ok agent ↔ agents.get? id = some agent := by
  unfold Configuration.agent
  cases agents.get? id <;> simp

/-- The operation was within the ceiling of its agent when it was staged, and still is. -/
structure Good (config : Configuration) (agents : OrderedMap RuntimeAgent.agentId)
    (operation : ExecutionOperation) : Prop where
  named : operation.id ≠ ""
  within : ∃ agent, agents.get? operation.agentId = some agent ∧
    ∃ requirements, config.requirements operation = .ok requirements ∧
      Configuration.requirementsWithin agent.ceiling requirements = true

/-- The first check of the host lets pass what is within the ceiling. -/
theorem judges_surroundings :
    Judges (Good config host.agents) (config.surroundings host clock oracle) := by
  intro roundKey index operation hid h
  have hwithin : config.withinAgentCeiling host.agents operation = .ok true := mapError_eq_ok.mp h
  simp only [Configuration.withinAgentCeiling, bind_eq_ok, agent_eq_ok, pure_eq_ok] at hwithin
  refine ⟨?_, hwithin⟩
  intro hempty
  -- The identifier of a call has a separator in it.
  rw [show operation.call.id = operation.id from rfl, hid] at hempty
  have hlength := congrArg String.length hempty
  simp [operationId] at hlength

/-- The second check is one on the grants that the agent has now. -/
theorem authorized_of_admits {ticket : ℕ} {agent : RuntimeAgent}
    (h : Host.admits (config.surroundings host clock oracle) operation = true)
    (hgood : Good config host.agents operation.call)
    (hsound : ∀ agent ∈ host.agents.entries, ∀ grant ∈ agent.grants,
      grant.Sound config.manager host.approvals agent)
    (hagent : host.agents.get? operation.agentId = some agent) :
    (⟨ticket, operation.call, agent, clock operation.id⟩ : Decision).Authorized config
      host.approvals := by
  simp only [Host.admits, Configuration.surroundings, Bool.and_eq_true, decide_eq_true_eq, hagent,
    Option.any_some, toOption_eq_some, mapError_eq_ok, Option.map_eq_some_iff,
    List.contains_iff_mem] at h
  obtain ⟨⟨⟨⟨-, hactive⟩, tool, htool, heffect⟩, hvisible⟩, hcheck⟩ := h
  obtain ⟨other, hother, requirements, hrequirements, hwithin⟩ := hgood.within
  -- The agent is the one that was found when the operation was staged.
  obtain rfl : other = agent := by
    rw [show operation.call.agentId = operation.agentId from rfl, hagent] at hother
    exact (Option.some.inj hother).symm
  refine ⟨OrderedMap.key_of_get? hagent, hactive, ⟨tool, Tools.ToolRegistry.get_eq_ok.mpr htool, heffect⟩,
    hvisible, requirements, hrequirements, hwithin, ?_⟩
  simp only [Configuration.check, bind_eq_ok, agent_eq_ok, pure_eq_ok] at hcheck
  obtain ⟨same, hsame, requirements', hrequirements', result, hresult, hallowed⟩ := hcheck
  rw [hagent] at hsame
  -- The requirements are those of that time: a tool declares them once.
  obtain rfl := Option.some.inj hsame
  rw [show config.requirements operation = config.requirements operation.call from rfl,
    hrequirements] at hrequirements'
  obtain rfl := Except.ok.inj hrequirements'
  cases result with
  | missing missing => cases hallowed
  | allowed matched =>
    -- Every request is covered by a grant that the agent has now.
    obtain ⟨checked, hchecked, hcovered⟩ := check_allowed hresult
    refine ⟨checked, hchecked, ?_⟩
    intro request hrequest
    obtain ⟨plain, hplain, hcovers⟩ := hcovered request hrequest
    obtain ⟨grant, hgrant, rfl⟩ := List.mem_map.mp hplain
    exact ⟨grant, hgrant, (hsound other (OrderedMap.mem_of_get? hagent) grant hgrant).serves hcovers⟩

end Surroundings

/-! ## What every step keeps -/

/-- The launch passed the check before its tool. -/
def Host.Decided (host : Host) (ticket : ℕ) (operation : ExecutionOperation) : Prop :=
  ∃ decision ∈ host.decisions, decision.ticket = ticket ∧ decision.operation = operation

/-- What holds of every host. -/
structure Host.Sound (config : Configuration) (host : Host) : Prop where
  vetted : host.executor.Vetted (Good config host.agents) host.Decided
  decided : ∀ decision ∈ host.decisions, decision.Authorized config host.approvals
  called : ∀ call ∈ host.calls, host.Decided call.1 call.2
  granted : ∀ agent ∈ host.agents.entries, ∀ grant ∈ agent.grants,
    grant.Sound config.manager host.approvals agent
  fresh : ∀ agent ∈ host.agents.entries, agent.agentId < host.nextAgentId

/-- Agents stay, with the ceiling that they were created with. -/
def Keeps (agents agents' : OrderedMap RuntimeAgent.agentId) : Prop :=
  ∀ id agent, agents.get? id = some agent →
    ∃ agent', agents'.get? id = some agent' ∧ agent'.ceiling = agent.ceiling

/-- The agents stay as they are. -/
theorem Keeps.refl (agents : OrderedMap RuntimeAgent.agentId) : Keeps agents agents :=
  fun _ agent h => ⟨agent, h, rfl⟩

/-- An agent may be written with the ceiling that it had. -/
theorem keeps_insert {agents : OrderedMap RuntimeAgent.agentId} {agent : RuntimeAgent}
    (h : ∀ old, agents.get? agent.agentId = some old → agent.ceiling = old.ceiling) :
    Keeps agents (agents.insert agent) := by
  intro id old hold
  rw [OrderedMap.get?_insert]
  split_ifs with hid
  · subst hid
    exact ⟨agent, rfl, h old hold⟩
  · exact ⟨old, hold, rfl⟩

/-- An operation within a ceiling is within the ceiling that was kept. -/
theorem Keeps.good (h : Keeps host.agents host'.agents) (hgood : Good config host.agents operation) :
    Good config host'.agents operation := by
  obtain ⟨agent, hagent, requirements, hrequirements, hwithin⟩ := hgood.within
  obtain ⟨agent', hagent', hceiling⟩ := h _ agent hagent
  refine ⟨hgood.named, agent', hagent', requirements, hrequirements, ?_⟩
  rw [hceiling]
  exact hwithin

namespace Host.Sound

/-- A step of the host that leaves the executor. -/
theorem of_agents (h : host.Sound config) (keeps : Keeps host.agents host'.agents)
    (executor : host'.executor = host.executor) (approvals : host'.approvals = host.approvals)
    (decisions : host'.decisions = host.decisions) (calls : host'.calls = host.calls)
    (granted : ∀ agent ∈ host'.agents.entries, ∀ grant ∈ agent.grants,
      grant.Sound config.manager host.approvals agent)
    (fresh : ∀ agent ∈ host'.agents.entries, agent.agentId < host'.nextAgentId) :
    host'.Sound config := by
  have hdecided : host'.Decided = host.Decided := by
    unfold Host.Decided
    rw [decisions]
  constructor
  · rw [executor]
    exact h.vetted.mono (fun _ hgood => keeps.good hgood) fun _ _ hd => by rwa [hdecided]
  · rw [decisions, approvals]
    exact h.decided
  · rw [calls, hdecided]
    exact h.called
  · rw [approvals]
    exact granted
  · exact fresh

/-- A record of an agent is saved that was there before, with grants that come from where they should. -/
theorem save (h : host.Sound config) {agent old : RuntimeAgent}
    (stored : host.agents.get? agent.agentId = some old) (ceiling : agent.ceiling = old.ceiling)
    (granted : ∀ grant ∈ agent.grants, grant.Sound config.manager host.approvals agent) :
    (host.save agent).Sound config := by
  refine h.of_agents (keeps_insert fun other hother => ?_) rfl rfl rfl rfl ?_ ?_
  · rw [stored] at hother
    rw [ceiling, Option.some.inj hother]
  · intro other hother
    rcases OrderedMap.mem_entries_insert hother with rfl | hold
    · exact granted
    · exact h.granted other hold
  · intro other hother
    rcases OrderedMap.mem_entries_insert hother with rfl | hold
    · have hid := h.fresh old (OrderedMap.mem_of_get? stored)
      rw [OrderedMap.key_of_get? stored] at hid
      exact hid
    · exact h.fresh other hold

end Host.Sound

/-- Grants of the host come from it. -/
theorem sound_ofRoot {m : CapabilityManager} {approvals : List (String × String)}
    {agent : RuntimeAgent} {subjectTaskId : String} {issuedAt : ℕ} {request : CapabilityRequest}
    {grantId : String} :
    (RuntimeCapabilityGrant.ofRoot (rootGrant m subjectTaskId issuedAt request grantId)).Sound m
      approvals agent where
  root := fun _ => ⟨rfl, not_needsHuman_of_rootExecution⟩
  human := fun _ hsource => by cases hsource

/-- Grants of a human come from the approval. -/
theorem sound_ofHuman {m : CapabilityManager} {approvals : List (String × String)}
    {agent : RuntimeAgent} {id : String} {grant : CapabilityGrant}
    (h : (id, agent.ownerId) ∈ approvals) :
    (RuntimeCapabilityGrant.ofHuman id grant).Sound m approvals agent where
  root := fun hsource => by cases hsource
  human := by
    rintro other hsource
    cases hsource
    exact ⟨rfl, rfl, h⟩

/-- What `createAgent` comes to. -/
theorem createAgent_run {workspaces : String → Bool} {agents : List RuntimeAgent} {id : AgentId}
    {input : Configuration.CreateRuntimeAgent} {now n n' : ℕ} {agent : RuntimeAgent}
    (h : (config.createAgent workspaces agents id input now).run n = .ok (agent, n')) :
    ∃ character ceiling grants, config.admitAgent workspaces agents input = .ok (character, ceiling) ∧
      (config.manager.issueRootGrants (agentSubject id) (ceiling.map .request) now).run n =
        .ok (grants, n') ∧
      agent = config.newAgent id input character ceiling grants := by
  unfold Configuration.createAgent at h
  cases hadmit : config.admitAgent workspaces agents input with
  | error e =>
    rw [run_lift_bind_error hadmit] at h
    cases h
  | ok admitted =>
    obtain ⟨character, ceiling⟩ := admitted
    rw [run_lift_bind hadmit, run_bind_eq_ok] at h
    obtain ⟨grants, n'', hgrants, h⟩ := h
    rw [StateT.run_pure, pure_eq_ok, Prod.mk.injEq] at h
    obtain ⟨rfl, rfl⟩ := h
    exact ⟨character, ceiling, grants, rfl, hgrants, rfl⟩

/-- To create an agent keeps the host sound. -/
theorem Host.Sound.create (h : host.Sound config) {workspaces : String → Bool}
    {input : Configuration.CreateRuntimeAgent} {now issued : ℕ} {agent : RuntimeAgent}
    (run : (config.createAgent workspaces host.agents.entries host.nextAgentId input now).run
      host.issued = .ok (agent, issued)) :
    Host.Sound config { host.save agent with nextAgentId := host.nextAgentId + 1, issued } := by
  obtain ⟨character, ceiling, grants, -, hgrants, rfl⟩ := createAgent_run run
  obtain ⟨requests, -, hrecords⟩ := mem_issueRootGrants hgrants
  have hfresh : ∀ old, host.agents.get? host.nextAgentId ≠ some old := by
    intro old hold
    have hlt := h.fresh old (OrderedMap.mem_of_get? hold)
    rw [OrderedMap.key_of_get? hold] at hlt
    exact absurd hlt (lt_irrefl _)
  refine h.of_agents (keeps_insert fun old hold => absurd hold (hfresh old)) rfl rfl rfl rfl ?_ ?_
  · intro other hother
    rcases OrderedMap.mem_entries_insert hother with rfl | hold
    · intro grant hgrant
      obtain ⟨plain, hplain, rfl⟩ := List.mem_map.mp hgrant
      obtain ⟨request, -, grantId, rfl⟩ := hrecords plain hplain
      exact sound_ofRoot
    · exact h.granted other hold
  · intro other hother
    rcases OrderedMap.mem_entries_insert hother with rfl | hold
    · exact Nat.lt_succ_self _
    · exact (h.fresh other hold).trans (Nat.lt_succ_self _)

/-! ## Acts of the executor -/

section Acts

variable {clock : String → ℕ} {oracle : Surroundings} {owner : String} {act : Act}

/-- What an approval adds to the agents. -/
theorem approved_eq_ok {agents agents' : OrderedMap RuntimeAgent.agentId} {issued issued' now : ℕ}
    (h : config.approved agents issued now operation = .ok (agents', issued')) :
    ∃ agent, agents.get? operation.agentId = some agent ∧ ∃ grants : List CapabilityGrant,
      (∃ requirements, config.requirements operation = .ok requirements ∧
        (config.manager.grantByHuman (agentSubject operation.agentId) operation.id requirements
          now).run issued = .ok (grants, issued')) ∧
      agents' = agents.insert
        { agent with grants := agent.grants ++ grants.map (.ofHuman operation.id) } := by
  simp only [Configuration.approved, bind_eq_ok, agent_eq_ok] at h
  obtain ⟨agent, hagent, ⟨granted, n⟩, hgranted, h⟩ := h
  rw [pure_eq_ok, Prod.mk.injEq] at h
  obtain ⟨rfl, rfl⟩ := h
  refine ⟨agent, hagent, ?_⟩
  unfold Configuration.grantByHuman at hgranted
  cases hrequirements : config.requirements operation with
  | error e =>
    rw [run_lift_bind_error hrequirements] at hgranted
    cases hgranted
  | ok requirements =>
    rw [run_lift_bind hrequirements, run_bind_eq_ok] at hgranted
    obtain ⟨grants, n', hgrants, hgranted⟩ := hgranted
    rw [StateT.run_pure, pure_eq_ok, Prod.mk.injEq] at hgranted
    obtain ⟨rfl, rfl⟩ := hgranted
    exact ⟨grants, ⟨requirements, rfl, hgrants⟩, rfl⟩

/-- An approval is one of the owner of the operation's agent. -/
theorem owner_of_approval {env : Surroundings} (permitted : host.Permits owner act)
    (h : host.approval? env act = some operation) : ∃ id allowed, act = .approve id allowed ∧
      host.executor.operations.get? id = some operation ∧ operation.state = .approval ∧
      ∃ agent, host.agents.get? operation.agentId = some agent ∧ agent.ownerId = owner := by
  unfold Host.approval? at h
  split at h
  · next id =>
    rw [Option.filter_eq_some_iff] at h
    simp only [Bool.and_eq_true, decide_eq_true_eq] at h
    obtain ⟨other, hother, hagent⟩ := permitted
    rw [h.1] at hother
    obtain rfl := Option.some.inj hother
    exact ⟨id, true, rfl, h.1, h.2.1.1, hagent⟩
  · cases h

/-- An approval keeps the host sound. -/
theorem Host.Sound.afterApproval (h : host.Sound config) {env : Surroundings}
    (permitted : host.Permits owner act) (happroval : host.approval? env act = some operation) :
    (host.afterApproval config clock oracle owner operation).Sound config := by
  unfold Host.afterApproval
  split
  · next agents issued horacle happroved =>
    obtain ⟨agent, hagent, grants, -, rfl⟩ := approved_eq_ok happroved
    obtain ⟨id, allowed, -, -, -, other, hother, howner⟩ := owner_of_approval permitted happroval
    rw [hagent] at hother
    obtain rfl := Option.some.inj hother
    -- What was approved before stays approved.
    have hsub : host.approvals ⊆ host.approvals ++ [(operation.id, owner)] :=
      List.subset_append_left _ _
    have hkeys : host.agents.get? agent.agentId = some agent := by
      rw [OrderedMap.key_of_get? hagent]
      exact hagent
    have hgranted : ∀ grant ∈ agent.grants ++ grants.map (RuntimeCapabilityGrant.ofHuman operation.id),
        grant.Sound config.manager (host.approvals ++ [(operation.id, owner)])
          { agent with grants := agent.grants ++ grants.map (.ofHuman operation.id) } := by
      intro grant hgrant
      rcases List.mem_append.mp hgrant with hold | hnew
      · have hsound := (h.granted agent (OrderedMap.mem_of_get? hagent) grant hold).mono hsub
        exact ⟨hsound.root, hsound.human⟩
      · obtain ⟨plain, -, rfl⟩ := List.mem_map.mp hnew
        exact sound_ofHuman (by rw [← howner]; simp)
    -- The approval is noted first, and then the agent is saved.
    have hnoted : Host.Sound config { host with
        issued, approvals := host.approvals ++ [(operation.id, owner)] } :=
      ⟨h.vetted, fun decision hdecision => (h.decided decision hdecision).mono hsub, h.called,
        fun other hother grant hgrant => (h.granted other hother grant hgrant).mono hsub, h.fresh⟩
    exact hnoted.save hkeys rfl hgranted
  · exact h

/-- The host after the grants that an act gives: the agents stay, and so do the approvals. -/
theorem Host.Sound.granting (h : host.Sound config) (clock : String → ℕ) (oracle : Surroundings)
    (permitted : host.Permits owner act) :
    (host.granting config clock oracle owner act).Sound config ∧
      Keeps host.agents (host.granting config clock oracle owner act).agents ∧
      host.approvals ⊆ (host.granting config clock oracle owner act).approvals := by
  unfold Host.granting
  split
  · next operation happroval =>
    refine ⟨h.afterApproval permitted happroval, ?_⟩
    unfold Host.afterApproval
    split
    · next agents issued horacle happroved =>
      obtain ⟨agent, hagent, grants, -, rfl⟩ := approved_eq_ok happroved
      refine ⟨keeps_insert fun old hold => ?_, List.subset_append_left _ _⟩
      rw [show agent.agentId = operation.agentId from OrderedMap.key_of_get? hagent, hagent] at hold
      rw [← Option.some.inj hold]
    · exact ⟨.refl _, List.Subset.refl _⟩
  · exact ⟨h, .refl _, List.Subset.refl _⟩

/-- Whatever an act leaves was vetted, also when a new process starts after it. -/
theorem vetted_settled {G : ExecutionOperation → Prop} {W : ℕ → ExecutionOperation → Prop}
    {x : EStateM Stop Executor Unit} {s : Executor} (workspace : AgentId → String)
    (h : Vets G W x s) : (Host.settled (x s) workspace).Vetted G W := by
  unfold Vets Ends wp at h
  unfold Host.settled
  cases hx : x s with
  | ok _ s' =>
    rw [hx] at h
    exact h
  | error e s' =>
    rw [hx] at h
    cases e with
    | crash => exact h.restart workspace
    | fault message => exact h

/-- A launch that passes the check is one that the host notes as decided. -/
theorem decision_of_admits {ticket : ℕ} {l : Launch}
    (hl : host.executor.launches.get? ticket = some l) (running : host.executor.stopping = false)
    (h : Admits (config.surroundings host clock oracle) l.operation) :
    ∃ agent, host.agents.get? l.operation.agentId = some agent ∧
      host.decision? (config.surroundings host clock oracle) clock (.proceed ticket) =
        some ⟨ticket, l.operation.call, agent, clock l.operation.id⟩ := by
  have hadmits : Host.admits (config.surroundings host clock oracle) l.operation = true := by
    simp only [Host.admits, h.pending, h.active, h.tool, h.visible, h.check, Except.toOption,
      decide_true, Bool.and_self]
  obtain ⟨agent, hagent, -⟩ := (Option.any_eq_true _ _).mp h.visible
  refine ⟨agent, hagent, ?_⟩
  unfold Host.decision?
  simp only [hl, running, hadmits, hagent, Bool.not_false, Bool.and_self, if_true, Option.map_some]

/-- What the host notes as decided was authorized. -/
theorem authorized_of_decision (h : host.Sound config) {decision : Decision}
    (hdecision : host.decision? (config.surroundings host clock oracle) clock act = some decision) :
    decision.Authorized config host.approvals := by
  unfold Host.decision? at hdecision
  split at hdecision
  · next ticket =>
    split at hdecision
    · next l hl =>
      split_ifs at hdecision with hadmits
      rw [Option.map_eq_some_iff] at hdecision
      obtain ⟨agent, hagent, rfl⟩ := hdecision
      rw [Bool.and_eq_true] at hadmits
      exact authorized_of_admits hadmits.2 (h.vetted.launched l (OrderedMap.mem_of_get? hl)) h.granted
        hagent
    · cases hdecision
  · cases hdecision

/-- A launch was decided before, or passes the check in an act. -/
def Host.DecidedBy (host : Host) (env : Surroundings) (clock : String → ℕ) (act : Act) (ticket : ℕ)
    (operation : ExecutionOperation) : Prop :=
  host.Decided ticket operation ∨ ∃ decision, host.decision? env clock act = some decision ∧
    decision.ticket = ticket ∧ decision.operation = operation

/-- An act brings only launches to their tools that passed the check. -/
theorem vets_act (clock : String → ℕ) (oracle : Surroundings) (h : host.Sound config)
    (enabled : act.enabled host.executor) :
    Vets (Good config host.agents) (host.DecidedBy (config.surroundings host clock oracle) clock act)
      (act.perform (config.surroundings host clock oracle)) host.executor := by
  refine vets_perform (h.vetted.mono (fun _ hgood => hgood) fun _ _ hd => .inl hd) enabled
    judges_surroundings ?_
  rintro ticket l rfl hl running hadmits
  obtain ⟨agent, -, hdecision⟩ := decision_of_admits hl running hadmits
  exact .inr ⟨_, hdecision, rfl, rfl⟩

/-- The operation of a decided launch is the one that was decided. -/
theorem decided_perform {workspace : AgentId → String} {ticket : ℕ}
    (h : host.DecidedBy (config.surroundings host clock oracle) clock act ticket operation) :
    (host.perform config clock oracle workspace owner act).Decided ticket operation := by
  rcases h with ⟨decision, hmem, hsame⟩ | ⟨decision, hdecision, hsame⟩
  · exact ⟨decision, List.mem_append_left _ hmem, hsame⟩
  · exact ⟨decision, List.mem_append_right _ (Option.mem_toList.mpr hdecision), hsame⟩

/-- The call of a tool is one of a launch that was decided. -/
theorem decided_of_call (h : host.Sound config) (enabled : act.enabled host.executor)
    {call : ℕ × ExecutionOperation} (hcall : host.call? act = some call) :
    host.Decided call.1 call.2 := by
  unfold Host.call? at hcall
  split at hcall
  · next ticket =>
    rw [Option.map_eq_some_iff] at hcall
    obtain ⟨l, hl, rfl⟩ := hcall
    obtain ⟨other, hother, hwork⟩ := enabled
    rw [hl] at hother
    obtain rfl := Option.some.inj hother
    have hdecided := h.vetted.called l (OrderedMap.mem_of_get? hl) (by rw [hwork]; rfl)
    rwa [OrderedMap.key_of_get? hl] at hdecided
  · cases hcall

/-- An act of the executor leaves what holds of every host. -/
theorem Host.Sound.perform (h : host.Sound config) (workspace : AgentId → String)
    (enabled : act.enabled host.executor) (permitted : host.Permits owner act) :
    (host.perform config clock oracle workspace owner act).Sound config := by
  obtain ⟨hsound, hkeeps, happrovals⟩ := h.granting clock oracle permitted
  constructor
  case vetted =>
    have hvets := vetted_settled workspace (vets_act clock oracle h enabled)
    exact hvets.mono (fun _ hgood => hkeeps.good hgood) fun _ _ => decided_perform
  case decided =>
    intro decision hdecision
    rcases List.mem_append.mp hdecision with hold | hnew
    · exact (h.decided decision hold).mono happrovals
    · exact (authorized_of_decision h (Option.mem_toList.mp hnew)).mono happrovals
  case called =>
    intro call hcall
    rcases List.mem_append.mp hcall with hold | hnew
    · exact decided_perform (.inl (h.called call hold))
    · exact decided_perform (.inl (decided_of_call h enabled (Option.mem_toList.mp hnew)))
  case granted => exact hsound.granted
  case fresh => exact hsound.fresh

end Acts

/-! ## Every run -/

/-- A step keeps the host sound. -/
theorem Host.Sound.step (h : host.Sound config) (step : Host.Step config host host') :
    host'.Sound config := by
  cases step with
  | create workspaces input now run => exact h.create run
  | reserve ids grants =>
    exact h.of_agents (.refl _) rfl rfl rfl rfl h.granted fun agent hagent =>
      (h.fresh agent hagent).trans_le ids
  | setStatus stored employed other =>
    refine h.save stored rfl fun grant hgrant => ?_
    have hsound := h.granted _ (OrderedMap.mem_of_get? stored) grant hgrant
    exact ⟨hsound.root, hsound.human⟩
  | dismiss stored => exact h.save stored rfl fun grant hgrant => absurd hgrant List.not_mem_nil
  | switchConversation stored id =>
    refine h.save stored rfl fun grant hgrant => ?_
    have hsound := h.granted _ (OrderedMap.mem_of_get? stored) grant hgrant
    exact ⟨hsound.root, hsound.human⟩
  | act clock oracle workspace enabled permitted => exact h.perform workspace enabled permitted
  | kill workspace => exact ⟨h.vetted.restart workspace, h.decided, h.called, h.granted, h.fresh⟩

/-- The host is sound in every run. -/
theorem host_sound_of_reachable (h : (Host.system config).Reachable host) : host.Sound config := by
  refine TransitionSystem.Reachable.invariant (P := Host.Sound config) ?_ ?_ h
  · rintro _ ⟨workspace, rfl⟩
    exact ⟨⟨fun _ h => absurd h List.not_mem_nil, fun _ h => absurd h List.not_mem_nil,
      fun _ h => absurd h List.not_mem_nil⟩, fun _ h => absurd h List.not_mem_nil,
      fun _ h => absurd h List.not_mem_nil, fun _ h => absurd h List.not_mem_nil,
      fun _ h => absurd h List.not_mem_nil⟩
  · intro host host' _ hsound hstep
    exact hsound.step hstep

/-- Every call of a tool, in any process, was decided on the grants that its agent had then: the agent
sees the tool, the requirements are within its ceiling, and each of them is covered by a grant of the host
or by one that the agent's owner gave for this operation. -/
theorem calls_authorized (h : (Host.system config).Reachable host) :
    ∀ call ∈ host.calls, ∃ decision ∈ host.decisions, decision.ticket = call.1 ∧
      decision.operation = call.2 ∧ decision.Authorized config host.approvals := by
  intro call hcall
  have hsound := host_sound_of_reachable h
  obtain ⟨decision, hdecision, hticket, hoperation⟩ := hsound.called call hcall
  exact ⟨decision, hdecision, hticket, hoperation, hsound.decided decision hdecision⟩

/-! ## An agent that pushes -/

section Push

/-- A tool whose calls a human has to approve. -/
def pushTool : Tools.Tool where
  name := "git_push"
  effect := .privileged
  validateInput _ := .ok true
  requiredCapability := some "git.push"
  requiredCapabilities := none

/-- A host with this tool and one character, who may push. -/
def pushConfiguration : Configuration where
  manager :=
    { policies := defaultCapabilityPolicies
      valid := validatePolicy_default
      grantIdGenerator := fun n => "grant-" ++ toString n
      requestIdGenerator := fun n => "request-" ++ toString n
      urlParser := workspaceParser }
  tools := ⟨OrderedMap.empty.insert pushTool, by decide⟩
  characters := ⟨OrderedMap.empty.insert ⟨"release_manager", ["git.push"], [], []⟩, by decide⟩
  visibleToolIds _ := ["git_push"]
  maxAgents := 1

/-- The host after an act of the executor, when everybody agrees. -/
def pushAfter (host : Host) (act : Act) : Host :=
  host.perform pushConfiguration (fun _ => 0) agreeable (fun _ => "/work") "user" act

/-- A new process. -/
def pushStarted : Host := pushAfter (.initial fun _ => "/work") .isolateRestoredOperations

/-- The record of the agent whom the user creates, with the count of the identifiers taken. -/
def pushAgent : Except CapabilityError (RuntimeAgent × ℕ) :=
  (pushConfiguration.createAgent (fun _ => true) pushStarted.agents.entries pushStarted.nextAgentId
    ⟨"user", "work", "release_manager", "Release", [⟨"git.push", .all, none⟩]⟩ 0).run
      pushStarted.issued

/-- The user creates an agent who may push. -/
def pushCreated : Host :=
  match pushAgent with
  | .ok (agent, issued) =>
    { pushStarted.save agent with nextAgentId := pushStarted.nextAgentId + 1, issued }
  | .error _ => pushStarted

/-- The agent asks to push. -/
def pushStaged : Host := pushAfter pushCreated (.stage "round" 1 ⟨"frame", 1⟩ [⟨"git_push", []⟩])

/-- The user approves. -/
def pushApproved : Host := pushAfter pushStaged (.approve "round:tool:0" true)

/-- The launch passes the check before its tool. -/
def pushProceeded : Host := pushAfter pushApproved (.proceed 0)

/-- The tool is called. -/
def pushed : Host := pushAfter pushProceeded (.invoke 0)

/-- A run goes on with a further act. -/
theorem reachable_pushAfter {act : Act} (h : (Host.system pushConfiguration).Reachable host)
    (enabled : act.enabled host.executor) (permitted : host.Permits "user" act) :
    (Host.system pushConfiguration).Reachable (pushAfter host act) :=
  h.step (.act (fun _ => 0) agreeable (fun _ => "/work") enabled permitted)

/-- The host with its agent is reachable. -/
theorem reachable_pushCreated : (Host.system pushConfiguration).Reachable pushCreated := by
  have hinitial : (Host.system pushConfiguration).Reachable (.initial fun _ => "/work") :=
    .of_init ⟨fun _ => "/work", rfl⟩
  have hstarted : (Host.system pushConfiguration).Reachable pushStarted :=
    reachable_pushAfter hinitial rfl trivial
  unfold pushCreated
  cases hagent : pushAgent with
  | error e => exact hstarted
  | ok created => exact hstarted.step (.create _ _ _ hagent)

/-- An operation is the user's if what can be computed of it says so. -/
theorem permits_of_any {id owner : String} {allowed : Bool}
    (h : ((host.executor.operations.get? id).any fun operation =>
      (host.agents.get? operation.agentId).any fun agent => agent.ownerId = owner) = true) :
    host.Permits owner (.approve id allowed) := by
  obtain ⟨operation, hoperation, hany⟩ := (Option.any_eq_true _ _).mp h
  obtain ⟨agent, hagent, howner⟩ := (Option.any_eq_true _ _).mp hany
  exact ⟨operation, hoperation, agent, hagent, of_decide_eq_true howner⟩

/-- The host whose tool was called is reachable. -/
theorem reachable_pushed : (Host.system pushConfiguration).Reachable pushed := by
  have hstaged : (Host.system pushConfiguration).Reachable pushStaged :=
    reachable_pushAfter reachable_pushCreated (show pushCreated.executor.isolated = true by decide +kernel)
      (show pushCreated.agents.has 1 = true by decide +kernel)
  have happroved : (Host.system pushConfiguration).Reachable pushApproved :=
    reachable_pushAfter hstaged (show pushStaged.executor.isolated = true by decide +kernel)
      (permits_of_any (by decide +kernel))
  have hproceeded : (Host.system pushConfiguration).Reachable pushProceeded := by
    refine reachable_pushAfter happroved ?_ trivial
    refine launchIs_of_any (p := fun l => l.phase = .queued && l.previous = none)
      (by decide +kernel) fun l hl => ?_
    simp only [Bool.and_eq_true, decide_eq_true_eq] at hl
    refine ⟨hl.1, fun previous hprevious => ?_⟩
    rw [hl.2] at hprevious
    cases hprevious
  refine reachable_pushAfter hproceeded ?_ trivial
  exact launchIs_of_any (p := fun l => isScheduled l.work) (by decide +kernel)
    fun _ hl => eq_of_isScheduled hl

/-- In this run a tool is called, on a grant that the user gave for the call. -/
theorem calls_authorized_pushed : pushed.calls.map (·.2.toolName) = ["git_push"] ∧
    pushed.approvals = [("round:tool:0", "user")] ∧
    ∀ call ∈ pushed.calls, ∃ decision ∈ pushed.decisions, decision.ticket = call.1 ∧
      decision.operation = call.2 ∧ decision.Authorized pushConfiguration pushed.approvals :=
  ⟨by decide +kernel, by decide +kernel, calls_authorized reachable_pushed⟩

end Push

end OsAgent.AgentRuntime
