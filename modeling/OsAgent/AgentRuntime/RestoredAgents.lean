import OsAgent.AgentRuntime.Authorization
import OsAgent.Capability.Delegation

/-!
# Saved agents are accepted again

A new process checks all saved agents before it registers any, and registers none when one of them fails
(`internal/restore.ts`). What the check demands is spread over the code that creates an agent, adds a
human's grants to it, dismisses it, and moves it between conversations. `validateRestoredAgents_ok` says
that together they keep it: whatever a host saves can be restored. The check normalizes what a grant is for
once more, so it needs ceilings and requirements that are their own normal form.
-/

namespace OsAgent.AgentRuntime

open OsAgent.Library OsAgent.Capability
open ControlBlock (AgentId)

/-! ## What is saved of an agent -/

/-- The request that a grant of an agent was issued for. -/
inductive RuntimeCapabilityGrant.Issued (config : Configuration) (agent : RuntimeAgent)
    (grant : RuntimeCapabilityGrant) : Prop
  /-- One of its ceiling. -/
  | root {requests : List CapabilityRequest} {request : CapabilityRequest} {issuedAt : ℕ}
    {grantId : String}
    (normal : config.manager.normalizeRequests (agent.ceiling.map .request) = .ok requests)
    (mem : request ∈ requests)
    (eq : grant = .ofRoot (rootGrant config.manager (agentSubject agent.agentId) issuedAt request grantId))
  /-- One that an approved operation needs. -/
  | human {operation : ExecutionOperation} {requirements checked : List CapabilityRequest}
    {request : CapabilityRequest} {issuedAt : ℕ} {grantId : String}
    (named : operation.id ≠ "") (needs : config.requirements operation = .ok requirements)
    (within : Configuration.requirementsWithin agent.ceiling requirements = true)
    (normal : config.manager.normalizeRequests (requirements.map .request) = .ok checked)
    (mem : request ∈ checked)
    (eq : grant = .ofHuman operation.id
      (humanGrant config.manager (agentSubject agent.agentId) operation.id issuedAt request grantId))

/-- What holds of every saved agent. -/
structure RuntimeAgent.Valid (config : Configuration) (agent : RuntimeAgent) : Prop where
  contextKey : Configuration.ownContextKey agent = true
  agentName : agent.agentName = "agent-" ++ toString agent.agentId
  character : ∃ character outside, config.characters.get agent.character = .ok character ∧
    config.characters.capabilityOutsideCeiling (some character.id) agent.ceiling = .ok outside ∧
    outside.getD "" = "" ∧ ∀ tool ∈ agent.skills, tool ∈ config.tools.descriptors ∧
      tool ∈ config.visibleToolIds character.id
  capacity : agent.capacity = agent.ceiling.map CapabilityRequest.target
  bounded : agent.ceiling.all workspaceScoped = true
  granted : ∀ grant ∈ agent.grants, grant.Issued config agent

/-- The agent has not been dismissed. -/
def RuntimeAgent.employed (agent : RuntimeAgent) : Bool := agent.status ≠ .dismissed

/-- What holds of all saved agents. -/
structure Restorable (config : Configuration) (agents : OrderedMap RuntimeAgent.agentId) : Prop where
  valid : ∀ agent ∈ agents.entries, agent.Valid config
  room : agents.entries.countP RuntimeAgent.employed ≤ config.maxAgents

variable {config : Configuration} {host host' : Host} {agent agent' : RuntimeAgent}

/-- A grant that was issued to an agent is so while its number and ceiling stay. -/
theorem RuntimeCapabilityGrant.Issued.congr {grant : RuntimeCapabilityGrant}
    (h : grant.Issued config agent) (agentId : agent'.agentId = agent.agentId)
    (ceiling : agent'.ceiling = agent.ceiling) : grant.Issued config agent' := by
  cases h with
  | root normal mem eq =>
    rw [← ceiling] at normal
    rw [← agentId] at eq
    exact .root normal mem eq
  | human named needs within normal mem eq =>
    rw [← ceiling] at within
    rw [← agentId] at eq
    exact .human named needs within normal mem eq

/-- The context of an agent in a conversation is its own. -/
theorem ownContextKey_conversation {conversationId : String}
    (h : isConversationId conversationId.toList = true)
    (key : agent.contextKey = conversationContextKey agent.agentId conversationId) :
    Configuration.ownContextKey agent = true := by
  have hsplit : agent.contextKey.toList =
      (conversationContextKey agent.agentId "").toList ++ conversationId.toList := by
    rw [key]
    simp [conversationContextKey]
  simp only [Configuration.ownContextKey, Bool.or_eq_true, Bool.and_eq_true, hsplit]
  right
  constructor
  · rw [List.isPrefixOf_iff_prefix]
    exact List.prefix_append _ _
  · rw [List.drop_left]
    exact h

/-! ## What every step keeps -/

namespace Restorable

/-- A record of an agent is saved over the one before. -/
theorem save {agents : OrderedMap RuntimeAgent.agentId} (h : Restorable config agents)
    {old : RuntimeAgent} (stored : agents.get? agent.agentId = some old) (valid : agent.Valid config)
    (employed : agent.employed → old.employed) : Restorable config (agents.insert agent) where
  valid := by
    intro other hother
    rcases OrderedMap.mem_entries_insert hother with rfl | hold
    · exact valid
    · exact h.valid other hold
  room := by
    have hcount := OrderedMap.countP_insert RuntimeAgent.employed stored
    have hroom := h.room
    split_ifs at hcount with hold hnew hnew
    · omega
    · omega
    · exact absurd (employed hnew) hold
    · omega

/-- An agent is created within the limit. -/
theorem create (h : Restorable config host.agents) (hsound : host.Sound config)
    {workspaces : String → Bool} {input : Configuration.CreateRuntimeAgent} {now issued : ℕ}
    (run : (config.createAgent workspaces host.agents.entries host.nextAgentId input now).run
      host.issued = .ok (agent, issued)) : Restorable config (host.agents.insert agent) := by
  obtain ⟨character, ceiling, grants, hadmit, hgrants, rfl⟩ := createAgent_run run
  simp only [Configuration.admitAgent, require_eq_ok, bind_eq_ok, pure_eq_ok, exists_const,
    Prod.mk.injEq] at hadmit
  obtain ⟨-, -, hroom, character, hcharacter, ceiling, -, outside, houtside, hnone, hbounded, rfl, rfl⟩ :=
    hadmit
  obtain ⟨requests, hrequests, hrecords⟩ := mem_issueRootGrants hgrants
  constructor
  · -- The new agent is within its character by its admission; the others are as before.
    intro other hother
    rcases OrderedMap.mem_entries_insert hother with rfl | hold
    · refine ⟨by simp [Configuration.ownContextKey, Configuration.newAgent], rfl, ?_, rfl, hbounded, ?_⟩
      · refine ⟨character, outside, hcharacter, houtside, hnone, ?_⟩
        intro tool htool
        obtain ⟨hvisible, hregistered⟩ := List.mem_filter.mp htool
        exact ⟨List.contains_iff_mem.mp hregistered, hvisible⟩
      · intro grant hgrant
        obtain ⟨plain, hplain, rfl⟩ := List.mem_map.mp hgrant
        obtain ⟨request, hrequest, grantId, rfl⟩ := hrecords plain hplain
        exact .root hrequests hrequest rfl
    · exact h.valid other hold
  · -- Its identifier is new, so no entry is replaced.
    have hnew : host.agents.get? host.nextAgentId = none := by
      rw [Option.eq_none_iff_forall_ne_some]
      intro old hold
      have hlt := hsound.fresh old (OrderedMap.mem_of_get? hold)
      rw [OrderedMap.key_of_get? hold] at hlt
      exact absurd hlt (lt_irrefl _)
    have hentries := OrderedMap.entries_insert_of_get?_eq_none
      (e := config.newAgent host.nextAgentId input character ceiling grants) hnew
    have hlimit : host.agents.entries.countP RuntimeAgent.employed < config.maxAgents := by
      rw [List.countP_eq_length_filter]
      exact hroom
    rw [hentries, List.countP_append, List.countP_singleton]
    -- The limit was looked at before.
    split_ifs <;> omega

/-- An approval adds grants for what the operation needs, which was within the ceiling when the operation
was staged. -/
theorem granting (h : Restorable config host.agents) (hsound : host.Sound config)
    {clock : String → ℕ} {oracle : Surroundings} {owner : String} {act : Act}
    (permitted : host.Permits owner act) :
    Restorable config (host.granting config clock oracle owner act).agents := by
  unfold Host.granting
  split
  · next operation happroval =>
    unfold Host.afterApproval
    split
    · next agents issued horacle happroved =>
      obtain ⟨agent, hagent, grants, ⟨requirements, hneeds, hgrants⟩, rfl⟩ := approved_eq_ok happroved
      obtain ⟨id, allowed, -, hstored, hstate, -⟩ := owner_of_approval permitted happroval
      -- The agent is the one whose operation was approved.
      have hid : agent.agentId = operation.agentId := OrderedMap.key_of_get? hagent
      have hgood : Good config host.agents operation.call :=
        hsound.vetted.of_get? hstored (by rw [hstate]; simp)
      -- What the operation needs was within the ceiling of that agent when it was staged.
      obtain ⟨other, hother, needs, hsame, hwithin⟩ := hgood.within
      rw [show operation.call.agentId = operation.agentId from rfl, hagent] at hother
      obtain rfl := Option.some.inj hother
      rw [show config.requirements operation.call = config.requirements operation from rfl, hneeds] at hsame
      obtain rfl := Except.ok.inj hsame
      obtain ⟨checked, hchecked, hrecords⟩ := mem_grantByHuman hgrants
      have hvalid := h.valid agent (OrderedMap.mem_of_get? hagent)
      -- The new grants are for that, hence within the ceiling too.
      have hgranted : ∀ grant ∈ agent.grants ++ grants.map (RuntimeCapabilityGrant.ofHuman operation.id),
          grant.Issued config
            { agent with grants := agent.grants ++ grants.map (.ofHuman operation.id) } := by
        intro grant hgrant
        rcases List.mem_append.mp hgrant with hold | hnew
        · exact (hvalid.granted grant hold).congr rfl rfl
        · obtain ⟨plain, hplain, rfl⟩ := List.mem_map.mp hnew
          obtain ⟨request, hrequest, grantId, rfl⟩ := hrecords plain hplain
          rw [← hid]
          exact .human hgood.named hneeds hwithin hchecked hrequest rfl
      have hkey : host.agents.get? agent.agentId = some agent := by
        rw [hid]
        exact hagent
      exact h.save hkey ⟨hvalid.contextKey, hvalid.agentName, hvalid.character, hvalid.capacity,
        hvalid.bounded, hgranted⟩ fun he => he
    · exact h
  · exact h

/-- Every step of the host keeps what it saves restorable. -/
theorem step (h : Restorable config host.agents) (hsound : host.Sound config)
    (step : Host.Step config host host') : Restorable config host'.agents := by
  cases step with
  | create workspaces input now run => exact h.create hsound run
  | reserve ids grants => exact h
  | setStatus stored employed other =>
    have hvalid := h.valid _ (OrderedMap.mem_of_get? stored)
    refine h.save stored ⟨hvalid.contextKey, hvalid.agentName, hvalid.character, hvalid.capacity,
      hvalid.bounded, fun grant hgrant => (hvalid.granted grant hgrant).congr rfl rfl⟩ fun _ => ?_
    exact decide_eq_true employed
  | dismiss stored =>
    have hvalid := h.valid _ (OrderedMap.mem_of_get? stored)
    refine h.save stored ⟨hvalid.contextKey, hvalid.agentName, hvalid.character, hvalid.capacity,
      hvalid.bounded, fun grant hgrant => absurd hgrant List.not_mem_nil⟩ fun he => ?_
    simp [RuntimeAgent.employed] at he
  | switchConversation stored id =>
    have hvalid := h.valid _ (OrderedMap.mem_of_get? stored)
    exact h.save stored ⟨ownContextKey_conversation id rfl, hvalid.agentName, hvalid.character,
      hvalid.capacity, hvalid.bounded, fun grant hgrant => (hvalid.granted grant hgrant).congr rfl rfl⟩
      fun he => he
  | act clock oracle workspace enabled permitted => exact h.granting hsound permitted
  | kill workspace => exact h

end Restorable

/-- The agents of every run are restorable. -/
theorem restorable_of_reachable (h : (Host.system config).Reachable host) :
    Restorable config host.agents := by
  refine TransitionSystem.Reachable.invariant (P := fun host => Restorable config host.agents) ?_ ?_ h
  · rintro _ ⟨workspace, rfl⟩
    exact ⟨fun _ h => absurd h List.not_mem_nil, Nat.zero_le _⟩
  · intro host host' hreachable hrestorable hstep
    exact hrestorable.step (host_sound_of_reachable hreachable) hstep

/-! ## The check -/

/-- What the check normalizes once more stays as it is: ceilings, and what operations need. -/
structure Configuration.Stable (config : Configuration) (agents : List RuntimeAgent) : Prop where
  ceilings : ∀ agent ∈ agents, ∀ request ∈ agent.ceiling,
    normalizeCapabilityInput config.manager.urlParser (.request request) = .ok request
  requirements : ∀ operation requirements, config.requirements operation = .ok requirements →
    NormalForm config.manager requirements

/-- A demand that is met leaves the state to what follows it. -/
theorem run_require_bind {ε σ β : Type} {c : Prop} [Decidable c] (h : c) (e : ε)
    (f : Unit → StateT σ (Except ε) β) (s : σ) :
    ((liftM (require c e : Except ε Unit) : StateT σ (Except ε) Unit) >>= f).run s = (f ()).run s :=
  run_lift_bind (require_eq_ok.mpr h : require c e = .ok ()) s

/-- A demand that is met leaves the state. -/
theorem run_require {ε σ : Type} {c : Prop} [Decidable c] (h : c) (e : ε) (s : σ) :
    (liftM (require c e : Except ε Unit) : StateT σ (Except ε) Unit).run s = .ok ((), s) := by
  rw [(require_eq_ok.mpr h : require c e = .ok ())]
  rfl

/-- A check of every item that succeeds. -/
theorem exists_forM_run {ε σ α : Type} {f : α → StateT σ (Except ε) Unit} {l : List α}
    (h : ∀ a ∈ l, ∀ s, ∃ s', (f a).run s = .ok ((), s')) (s : σ) :
    ∃ s', (l.forM f).run s = .ok ((), s') := by
  induction l generalizing s with
  | nil => exact ⟨s, rfl⟩
  | cons a l ih =>
    obtain ⟨t, ht⟩ := h a List.mem_cons_self s
    obtain ⟨s', hs'⟩ := ih (fun b hb => h b (List.mem_cons_of_mem _ hb)) t
    exact ⟨s', run_bind_eq_ok.mpr ⟨(), t, ht, hs'⟩⟩

section Check

variable {m : CapabilityManager}

/-- A request that is its own normal form stays so without its reason. -/
theorem normalizeCapabilityInput_forget {request : CapabilityRequest}
    (h : normalizeCapabilityInput m.urlParser (.request request) = .ok request) :
    normalizeCapabilityInput m.urlParser (.request ⟨request.capability, request.scope, none⟩) =
      .ok ⟨request.capability, request.scope, none⟩ := by
  simp only [normalizeCapabilityInput, bind_eq_ok, pure_eq_ok] at h ⊢
  obtain ⟨name, hname, scope, hscope, hrequest⟩ := h
  exact ⟨name, hname, scope, hscope, by rw [← hrequest]⟩

/-- What the host would grant for a request now. -/
theorem issueRootGrants_single (hids : ∀ n, trim (m.grantIdGenerator n) ≠ "")
    {request : CapabilityRequest} {subjectTaskId : String} {issuedAt : ℕ}
    (h : normalizeCapabilityInput m.urlParser (.request request) = .ok request) (n : ℕ) :
    (m.issueRootGrants subjectTaskId [.request request] issuedAt).run n =
      .ok ([rootGrant m subjectTaskId issuedAt request (trim (m.grantIdGenerator n))], n + 1) := by
  have hnormal : m.normalizeRequests [.request request] = .ok [request] := by
    rw [normalizeRequests_singleton, h]
    rfl
  unfold CapabilityManager.issueRootGrants
  rw [run_lift_bind hnormal, List.mapM_cons, run_bind_eq_ok]
  refine ⟨rootGrant m subjectTaskId issuedAt request (trim (m.grantIdGenerator n)), n + 1, ?_, rfl⟩
  exact run_bind_eq_ok.mpr ⟨_, _, nextGrantId_run hids n, rfl⟩

/-- Requests that are their own normal form are normalized to some of them. -/
theorem subset_of_normalizeRequests {requests normal : List CapabilityRequest}
    (hstable : ∀ request ∈ requests,
      normalizeCapabilityInput m.urlParser (.request request) = .ok request)
    (h : m.normalizeRequests (requests.map .request) = .ok normal) : normal ⊆ requests := by
  intro request hrequest
  obtain ⟨input, hinput, hnormal⟩ := mem_normalizeRequests h hrequest
  obtain ⟨old, hold, rfl⟩ := List.mem_map.mp hinput
  rw [hstable old hold] at hnormal
  rw [← Except.ok.inj hnormal]
  exact hold

/-- What is in a ceiling is within it. -/
theorem withinCeiling_of_mem {ceiling : List CapabilityRequest} {request : CapabilityRequest}
    (h : request ∈ ceiling) : withinCeiling ceiling request.capability request.scope = true := by
  rw [withinCeiling, List.any_eq_true]
  refine ⟨request, h, ?_⟩
  simp [scopeContains_self]

end Check

/-- Every grant passes the check. -/
theorem validateGrant_ok (hids : ∀ n, trim (config.manager.grantIdGenerator n) ≠ "")
    (hceiling : ∀ request ∈ agent.ceiling,
      normalizeCapabilityInput config.manager.urlParser (.request request) = .ok request)
    (hrequirements : ∀ operation requirements, config.requirements operation = .ok requirements →
      NormalForm config.manager requirements)
    {grant : RuntimeCapabilityGrant} (h : grant.Issued config agent) (n : ℕ) :
    ∃ n', (config.validateGrant agent grant).run n = .ok ((), n') := by
  cases h with
  | root normal mem eq =>
    rename_i requests request issuedAt grantId
    subst eq
    have hmem : request ∈ agent.ceiling := subset_of_normalizeRequests hceiling normal mem
    have hown := normalizeCapabilityInput_forget (hceiling request hmem)
    refine ⟨n + 1, ?_⟩
    unfold Configuration.validateGrant
    rw [run_require_bind ⟨rfl, rfl, withinCeiling_of_mem hmem⟩]
    refine run_bind_eq_ok.mpr ⟨_, _, issueRootGrants_single hids hown n, ?_⟩
    exact run_require rfl _ _
  | human named needs within normal mem eq =>
    rename_i operation requirements checked request issuedAt grantId
    subst eq
    have hchecked := (hrequirements operation requirements needs).normalizeRequests
    rw [normal, Except.ok.injEq] at hchecked
    subst hchecked
    simp only [Configuration.requirementsWithin, Bool.and_eq_true, List.all_eq_true] at within
    refine ⟨n, ?_⟩
    unfold Configuration.validateGrant
    rw [run_require_bind ⟨rfl, rfl, within.2 request mem⟩]
    exact run_require ⟨rfl, named, rfl⟩ _ _

/-- A restorable agent passes the check. -/
theorem validateAgent_ok (hids : ∀ n, trim (config.manager.grantIdGenerator n) ≠ "")
    (hceiling : ∀ request ∈ agent.ceiling,
      normalizeCapabilityInput config.manager.urlParser (.request request) = .ok request)
    (hrequirements : ∀ operation requirements, config.requirements operation = .ok requirements →
      NormalForm config.manager requirements)
    (h : agent.Valid config) (n : ℕ) : ∃ n', (config.validateAgent agent).run n = .ok ((), n') := by
  obtain ⟨character, outside, hcharacter, houtside, hnone, hskills⟩ := h.character
  have hhas : config.characters.characters.has agent.character = true := by
    unfold Authority.CharacterRegistry.get at hcharacter
    unfold OrderedMap.has
    cases hget : config.characters.characters.get? agent.character with
    | none =>
      rw [hget] at hcharacter
      cases hcharacter
    | some definition => rfl
  unfold Configuration.validateAgent
  rw [run_require_bind ⟨h.contextKey, h.agentName, hhas⟩, run_lift_bind hcharacter,
    run_lift_bind houtside, run_require_bind ⟨hnone, hskills⟩, run_require_bind h.capacity,
    run_require_bind h.bounded]
  exact exists_forM_run (fun grant hgrant n =>
    validateGrant_ok hids hceiling hrequirements (h.granted grant hgrant) n) n

/-- Whatever agents a host has saved, after any run, a new process accepts all of them. -/
theorem validateRestoredAgents_ok (h : (Host.system config).Reachable host)
    (hids : ∀ n, trim (config.manager.grantIdGenerator n) ≠ "")
    (stable : config.Stable host.agents.entries) (n : ℕ) :
    ∃ n', (config.validateRestoredAgents host.agents.entries).run n = .ok ((), n') := by
  have hrestorable := restorable_of_reachable h
  unfold Configuration.validateRestoredAgents
  have hsize : (OrderedMap.ofList host.agents.entries : OrderedMap RuntimeAgent.agentId).size =
      host.agents.entries.length := by
    rw [OrderedMap.ofList_entries]
    rfl
  have hroom : (host.agents.entries.filter fun agent => agent.status ≠ .dismissed).length ≤
      config.maxAgents := by
    have hcount := hrestorable.room
    rw [List.countP_eq_length_filter] at hcount
    exact hcount
  rw [run_require_bind ⟨hsize, hroom⟩]
  exact exists_forM_run (fun agent hagent n => validateAgent_ok hids (stable.ceilings agent hagent)
    stable.requirements (hrestorable.valid agent hagent) n) n

/-! ## The agent that pushes is restored -/

/-- The identifiers of grants are not blank. -/
theorem trim_grantId (n : ℕ) : trim (pushConfiguration.manager.grantIdGenerator n) ≠ "" := by
  intro hempty
  have hlist : ("grant-" ++ toString n).toList = 'g' :: ("rant-" ++ toString n).toList := by
    simp [String.toList_append]
  have htrimmed := congrArg String.toList hempty
  rw [show pushConfiguration.manager.grantIdGenerator n = "grant-" ++ toString n from rfl, trim, hlist,
    List.dropWhile_cons_of_neg (by decide), String.toList_ofList, String.toList_empty,
    List.rdropWhile_eq_nil_iff] at htrimmed
  exact absurd (htrimmed 'g' List.mem_cons_self) (by decide)

/-- What the saved agents have is normalized already. -/
theorem stable_pushed : pushConfiguration.Stable pushed.agents.entries where
  ceilings := by
    have hceilings : ∀ agent ∈ pushed.agents.entries, agent.ceiling = [⟨"git.push", .all, none⟩] := by
      decide +kernel
    intro agent hagent request hrequest
    rw [hceilings agent hagent, List.mem_singleton] at hrequest
    rw [hrequest]
    rfl
  requirements := by
    intro operation requirements h
    unfold Configuration.requirements at h
    obtain ⟨tool, htool, h⟩ := bind_eq_ok.mp h
    obtain ⟨inputs, hinputs, h⟩ := bind_eq_ok.mp h
    rw [Tools.ToolRegistry.get_eq_ok] at htool
    have hpush : tool = pushTool :=
      (OrderedMap.mem_entries_insert (OrderedMap.mem_of_get? htool)).resolve_right List.not_mem_nil
    rw [hpush] at hinputs
    have hname : inputs = [.name "git.push"] := (Except.ok.inj hinputs).symm
    refine NormalizesOnce.normalForm ?_ h
    rw [hname]
    intro input hinput
    rw [List.mem_singleton] at hinput
    rw [hinput]
    intro normal hnormal
    cases hnormal
    rfl

/-- The agent that pushed, with the grant of the user, is accepted by the next process. -/
theorem validateRestoredAgents_pushed :
    pushed.agents.entries.map (fun agent => agent.grants.map (·.source)) =
        [[.root, .human "round:tool:0"]] ∧
      ∃ n, (pushConfiguration.validateRestoredAgents pushed.agents.entries).run 0 = .ok ((), n) :=
  ⟨by decide +kernel, validateRestoredAgents_ok reachable_pushed trim_grantId stable_pushed 0⟩

end OsAgent.AgentRuntime
