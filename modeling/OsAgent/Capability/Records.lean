import OsAgent.Capability.Sources

/-!
# The records of issued grants

What the manager writes into the grants of the host and of a human, field by field: all of it comes from
the normalized request and the policy for its capability, but for the identifier.
-/

namespace OsAgent.Capability

open OsAgent.Library CapabilityManager

variable (m : CapabilityManager)

/-- Whether a grant of the host can be executed on. -/
def rootExecution (capability : String) : CapabilityExecution :=
  if (m.policyFor capability).approval = .human then .humanApprovalRequired else .allowed

/-- The host's grant for a normalized request. -/
def rootGrant (subjectTaskId : String) (issuedAt : ℕ) (request : CapabilityRequest)
    (grantId : String) : CapabilityGrant where
  grantId := grantId
  subjectTaskId := subjectTaskId
  capability := request.capability
  scope := request.scope
  source := .root
  delegable := (m.policyFor request.capability).delegable
  execution := some (rootExecution m request.capability)
  issuedAt := issuedAt

/-- A human's grant for a normalized request. -/
def humanGrant (subjectTaskId approvalRequestId : String) (issuedAt : ℕ) (request : CapabilityRequest)
    (grantId : String) : CapabilityGrant where
  grantId := grantId
  subjectTaskId := subjectTaskId
  capability := request.capability
  scope := request.scope
  source := .human approvalRequestId
  delegable := (m.policyFor request.capability).delegable
  execution := some .allowed
  issuedAt := issuedAt
  remainingUses := if (m.policyFor request.capability).approval = .human then some 1 else none

variable {m} {subjectTaskId : String} {issuedAt n n' : ℕ} {grants : List CapabilityGrant}

/-- A loop that writes one record for each request. -/
theorem mem_of_mapM_grant {record : CapabilityRequest → String → CapabilityGrant}
    {requests : List CapabilityRequest}
    (h : (requests.mapM fun request => do
      let grantId ← m.nextGrantId
      pure (record request grantId) : Issue (List CapabilityGrant)).run n = .ok (grants, n')) :
    ∀ grant ∈ grants, ∃ request ∈ requests, ∃ grantId, grant = record request grantId := by
  intro grant hgrant
  obtain ⟨request, hrequest, t, t', hrun⟩ := exists_left_of_mem (mapM_run h) hgrant
  rw [run_bind_eq_ok] at hrun
  obtain ⟨grantId, t'', -, hrun⟩ := hrun
  rw [StateT.run_pure, pure_eq_ok, Prod.mk.injEq] at hrun
  exact ⟨request, hrequest, grantId, hrun.1.symm⟩

/-- A root grant is for one of the requests. -/
theorem mem_issueRootGrants {inputs : List CapabilityInput}
    (h : (m.issueRootGrants subjectTaskId inputs issuedAt).run n = .ok (grants, n')) :
    ∃ requests, m.normalizeRequests inputs = .ok requests ∧ ∀ grant ∈ grants,
      ∃ request ∈ requests, ∃ grantId, grant = rootGrant m subjectTaskId issuedAt request grantId := by
  unfold CapabilityManager.issueRootGrants at h
  cases hrequests : m.normalizeRequests inputs with
  | error e =>
    rw [run_lift_bind_error hrequests] at h
    cases h
  | ok requests =>
    rw [run_lift_bind hrequests] at h
    exact ⟨requests, rfl, mem_of_mapM_grant h⟩

/-- A grant of a human is for one of the requests that were approved. -/
theorem mem_grantByHuman {approvalRequestId : String} {requests : List CapabilityRequest}
    (h : (m.grantByHuman subjectTaskId approvalRequestId requests issuedAt).run n = .ok (grants, n')) :
    ∃ checked, m.normalizeRequests (requests.map .request) = .ok checked ∧ ∀ grant ∈ grants,
      ∃ request ∈ checked, ∃ grantId,
        grant = humanGrant m subjectTaskId approvalRequestId issuedAt request grantId := by
  unfold CapabilityManager.grantByHuman at h
  cases hrequests : m.normalizeRequests (requests.map .request) with
  | error e =>
    rw [run_lift_bind_error hrequests] at h
    cases h
  | ok checked =>
    rw [run_lift_bind hrequests] at h
    exact ⟨checked, rfl, mem_of_mapM_grant h⟩

/-- The host gives nothing to execute on that needs a human. -/
theorem not_needsHuman_of_rootExecution {capability : String}
    (h : rootExecution m capability = .allowed) : ¬ NeedsHuman m capability := by
  intro hhuman
  unfold rootExecution at h
  unfold NeedsHuman at hhuman
  rw [if_pos hhuman] at h
  cases h

end OsAgent.Capability
