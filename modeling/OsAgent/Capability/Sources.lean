import OsAgent.Capability.Issued
import OsAgent.Capability.Plans

/-!
# Where grants come from

A grant is issued by the host to a root, derived by a parent from a grant of its own, or given by a human
who approved a request. What each of these gives is said here: whose the grants are, what they are for,
and whether they can be executed on. A capability that needs a human's approval can be executed on only
if a human gave it.
-/

namespace OsAgent.Capability

open OsAgent.Library CapabilityManager

variable {m : CapabilityManager}

/-! ## Containment -/

/-- What the second of two targets is for is among what the first is for. -/
def Contains (granted requested : String × ResourceScope) : Prop :=
  granted.1 = requested.1 ∧ scopeContains granted.2 requested.2 = true

/-- Every target contains itself. -/
theorem Contains.refl (target : String × ResourceScope) : Contains target target :=
  ⟨rfl, scopeContains_self target.2⟩

/-- What contains a target contains what that contains. -/
theorem Contains.trans {first second third : String × ResourceScope} (h : Contains first second)
    (h' : Contains second third) : Contains first third :=
  ⟨h.1.trans h'.1, scopeContains_iff.2.2 _ _ _ h.2 h'.2⟩

/-- The capability cannot be executed on without a human. -/
def NeedsHuman (m : CapabilityManager) (capability : String) : Prop :=
  (m.policyFor capability).approval = .human

/-- The grant can be executed on. -/
def CapabilityGrant.Executable (grant : CapabilityGrant) : Prop :=
  grant.execution.getD .allowed = .allowed

/-! ## Normalized requests -/

/-- The requests are what `normalizeRequests` makes of them. -/
def NormalForm (m : CapabilityManager) (requests : List CapabilityRequest) : Prop :=
  (requests.map capabilityRequestKey).Nodup ∧
    ∀ request ∈ requests, normalizeCapabilityInput m.urlParser (.request request) = .ok request

/-- Requests in their normal form are not changed. -/
theorem NormalForm.normalizeRequests {requests : List CapabilityRequest} (h : NormalForm m requests) :
    m.normalizeRequests (requests.map .request) = .ok requests := by
  have hall : (requests.map CapabilityInput.request).mapM (normalizeCapabilityInput m.urlParser) =
      .ok requests := by
    rw [mapM_eq_ok, List.forall₂_map_left_iff, List.forall₂_same]
    exact h.2
  have hmap := OrderedMap.ofList_entries (⟨requests, h.1⟩ : OrderedMap capabilityRequestKey)
  unfold CapabilityManager.normalizeRequests
  rw [hall]
  exact congrArg Except.ok (congrArg OrderedMap.entries hmap)

/-- Inputs that are normalized once have a normal form. -/
theorem NormalizesOnce.normalForm {inputs : List CapabilityInput} {requests : List CapabilityRequest}
    (honce : NormalizesOnce m.urlParser inputs) (h : m.normalizeRequests inputs = .ok requests) :
    NormalForm m requests := by
  constructor
  · simp only [CapabilityManager.normalizeRequests, bind_eq_ok, pure_eq_ok] at h
    obtain ⟨all, -, rfl⟩ := h
    exact (OrderedMap.ofList all).nodup
  · intro request hrequest
    obtain ⟨input, hinput, hnormal⟩ := mem_normalizeRequests h hrequest
    exact normalizeCapabilityInput_again hnormal
      (honce input hinput _ (normalizeCapabilityInput_spec hnormal).2.2)

/-- A part of requests in their normal form is so too. -/
theorem NormalForm.sublist {requests some : List CapabilityRequest} (h : NormalForm m requests)
    (hsome : some.Sublist requests) : NormalForm m some :=
  ⟨(hsome.map capabilityRequestKey).nodup h.1, fun request hrequest => h.2 request (hsome.subset hrequest)⟩

/-- What a check finds to be missing is in normal form, when what was checked is. -/
theorem NormalForm.check {requests missing : List CapabilityRequest} (h : NormalForm m requests)
    {grants : List CapabilityGrant} {now : ℕ} {operationId : Option String}
    (hcheck : m.check grants (requests.map .request) now operationId = .ok (.missing missing)) :
    NormalForm m missing := by
  unfold CapabilityManager.check at hcheck
  rw [h.normalizeRequests] at hcheck
  obtain ⟨_, heq, hcheck⟩ := bind_eq_ok.mp hcheck
  rw [Except.ok.injEq] at heq
  rw [← heq, pure_eq_ok] at hcheck
  split_ifs at hcheck
  cases hcheck
  exact h.sublist List.filter_sublist

/-! ## What is issued -/

/-- The host's grants can be executed on unless a human has to approve. -/
theorem issueRootGrants_spec {subjectTaskId : String} {inputs : List CapabilityInput}
    {issuedAt n n' : ℕ} {grants : List CapabilityGrant}
    (h : (m.issueRootGrants subjectTaskId inputs issuedAt).run n = .ok (grants, n')) :
    ∀ grant ∈ grants, grant.source = .root ∧ (grant.Executable → ¬ NeedsHuman m grant.capability) := by
  unfold CapabilityManager.issueRootGrants at h
  rw [run_bind_eq_ok] at h
  obtain ⟨requests, _, -, h⟩ := h
  intro grant hgrant
  obtain ⟨request, -, t, t', hrun⟩ := exists_left_of_mem (mapM_run h) hgrant
  rw [run_bind_eq_ok] at hrun
  obtain ⟨id, t'', -, hrun⟩ := hrun
  rw [StateT.run_pure, pure_eq_ok, Prod.mk.injEq] at hrun
  rw [← hrun.1]
  refine ⟨rfl, ?_⟩
  intro hexecutable hhuman
  unfold CapabilityGrant.Executable at hexecutable
  unfold NeedsHuman at hhuman
  rw [hhuman, if_pos rfl] at hexecutable
  cases hexecutable

/-- A derived grant is within its source, and is for a capability that a parent may pass on. -/
theorem delegate_spec {parentTaskId childTaskId : String} {parentGrants grants : List CapabilityGrant}
    {inputs : List CapabilityInput} {issuedAt n n' : ℕ}
    (hnormal : ∀ requests, m.normalizeRequests inputs = .ok requests → NormalForm m requests)
    (h : (m.delegate parentTaskId parentGrants childTaskId inputs issuedAt).run n = .ok (grants, n')) :
    ∀ grant ∈ grants, ¬ NeedsHuman m grant.capability ∧
      ∃ source ∈ parentGrants, Contains source.target grant.target := by
  cases hrequests : m.normalizeRequests inputs with
  | error e =>
    unfold CapabilityManager.delegate at h
    rw [run_lift_bind_error hrequests] at h
    cases h
  -- What is derived is derived from the sources that were found.
  | ok requests =>
    rw [delegate_run _ _ _ _ hrequests (hnormal requests hrequests).normalizeRequests] at h
    cases hdecision : m.findSources parentGrants issuedAt requests [] with
    | denied capability reason =>
      rw [hdecision] at h
      cases h
    | allowed sources =>
      rw [hdecision] at h
      obtain ⟨_, rfl, hsources⟩ := findSources_covers hdecision
      intro grant hgrant
      obtain ⟨⟨request, index⟩, hpair, t, t', hrun⟩ := exists_left_of_mem (mapM_run h) hgrant
      obtain ⟨source, hsource, htarget, -⟩ := derivedGrant_run hrun
      obtain ⟨hindex, hget⟩ := List.getElem?_eq_some_iff.mp hsource
      have hindex' : index < requests.length := by
        rw [hsources.length_eq]
        exact hindex
      -- The source at the place of the request covers it.
      have hcovers := hsources.get hindex' hindex
      have hrequest : requests[index] = request := by
        have hat := List.mem_zipIdx_iff_getElem?.mp hpair
        rw [List.getElem?_eq_getElem hindex'] at hat
        exact Option.some.inj hat
      simp only [List.get_eq_getElem, hrequest] at hcovers
      rw [show sources[index] = source from hget] at hcovers
      obtain ⟨hname, hscope⟩ := Prod.mk.inj htarget
      refine ⟨?_, source, hcovers.mem, ?_, ?_⟩
      · intro hhuman
        apply hcovers.policy
        rw [← hname]
        exact .inl hhuman
      · show source.capability = grant.capability
        rw [hcovers.capability]
        exact hname.symm
      · show scopeContains source.scope grant.scope = true
        rw [hscope]
        exact hcovers.scope

/-- A human gives exactly what the request asks for. -/
theorem grantByHuman_spec {subjectTaskId approvalRequestId : String}
    {requests : List CapabilityRequest} (hnormal : NormalForm m requests) {issuedAt n n' : ℕ}
    {grants : List CapabilityGrant}
    (h : (m.grantByHuman subjectTaskId approvalRequestId requests issuedAt).run n =
      .ok (grants, n')) :
    ∀ grant ∈ grants, grant.subjectTaskId = subjectTaskId ∧ grant.source = .human approvalRequestId ∧
      ∃ request ∈ requests, request.target = grant.target := by
  unfold CapabilityManager.grantByHuman at h
  rw [run_lift_bind hnormal.normalizeRequests] at h
  intro grant hgrant
  obtain ⟨request, hrequest, t, t', hrun⟩ := exists_left_of_mem (mapM_run h) hgrant
  rw [run_bind_eq_ok] at hrun
  obtain ⟨id, t'', -, hrun⟩ := hrun
  rw [StateT.run_pure, pure_eq_ok, Prod.mk.injEq] at hrun
  rw [← hrun.1]
  exact ⟨rfl, rfl, request, hrequest, rfl⟩

/-! ## What is planned -/

/-- What a human is asked for is within the grants of the last task of the chain. -/
theorem planRequest_human {requesterTaskId : String} {ancestors : List CapabilityAncestor}
    {requests : List CapabilityRequest} (hnormal : NormalForm m requests) {now : ℕ}
    (h : m.planRequest requesterTaskId ancestors (requests.map .request) now = .ok .human) :
    ∃ root ∈ ancestors, ∀ request ∈ requests, ∃ grant ∈ root.grants,
      Contains grant.target request.target := by
  rw [planRequest, bind_eq_ok] at h
  obtain ⟨normal, hrequests, h⟩ := h
  rw [hnormal.normalizeRequests, Except.ok.injEq] at hrequests
  subst hrequests
  split_ifs at h with hempty hhuman
  · cases h
  · split at h
    · cases h
    · -- The last of the chain is asked whether it has a grant for each request.
      next root hroot =>
      split at h
      · cases h
      · next hfind =>
        refine ⟨root, List.mem_of_getLast? hroot, ?_⟩
        -- None is without, so each is within one.
        intro request hrequest
        have hsome := List.find?_eq_none.mp hfind request hrequest
        rw [Option.isNone_iff_eq_none, ← Ne, Option.ne_none_iff_exists'] at hsome
        obtain ⟨grant, hgrant⟩ := hsome
        have hcovers := List.find?_some hgrant
        simp only [covers, Bool.and_eq_true, decide_eq_true_eq] at hcovers
        exact ⟨grant, List.mem_of_find?_eq_some hgrant, hcovers.1.1.1.1.1, hcovers.2⟩
  · -- Without a policy that needs a human, the route is along the parents or there is none.
    split at h
    · cases h
    · split at h
      · cases h
      · obtain ⟨holder, -, h⟩ := bind_eq_ok.mp h
        cases holder with
        | none => cases h
        | some index =>
          obtain ⟨path, -, h⟩ := bind_eq_ok.mp h
          cases h

/-- Every task of a planned path is the requester or one of the chain. -/
theorem planRequest_path {requesterTaskId : String} {ancestors : List CapabilityAncestor}
    {inputs : List CapabilityInput} {now : ℕ} {path : List CapabilityDelegationHop}
    (h : m.planRequest requesterTaskId ancestors inputs now = .ok (.parent path)) :
    ∀ hop ∈ path, hop.grantorTaskId ∈ ancestors.map CapabilityAncestor.taskId ∧
      hop.granteeTaskId ∈ requesterTaskId :: ancestors.map CapabilityAncestor.taskId := by
  obtain ⟨_, -, index, -, hdown⟩ := planRequest_parent h
  intro hop hhop
  constructor
  · have hmem : hop.grantorTaskId ∈ path.map CapabilityDelegationHop.grantorTaskId :=
      List.mem_map_of_mem hhop
    rw [hdown.grantors, List.mem_reverse] at hmem
    exact List.mem_of_mem_take hmem
  · have hmem : hop.granteeTaskId ∈ path.map CapabilityDelegationHop.granteeTaskId :=
      List.mem_map_of_mem hhop
    rw [hdown.grantees, List.mem_reverse] at hmem
    exact List.mem_of_mem_take hmem

end OsAgent.Capability
