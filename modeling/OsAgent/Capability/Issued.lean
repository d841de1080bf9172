import OsAgent.Capability.SingleUse

/-!
# The grants of one task

A task holds grants of its own, told apart by their identifiers (`Issued`), and no method takes one away.
A grant only ever changes in how often it was used: `CapabilityGrant.unused` forgets that, and what the
methods do to the grants is said here in terms of it.
-/

namespace OsAgent.Capability

open OsAgent.Library

/-- A grant without its uses. -/
def CapabilityGrant.unused (grant : CapabilityGrant) : CapabilityGrant :=
  { grant with remainingUses := none, consumedBy := none }

/-- The grants are those of one task, and are told apart by their identifiers. -/
structure Issued (taskId : String) (grants : List CapabilityGrant) : Prop where
  subject : ∀ grant ∈ grants, grant.subjectTaskId = taskId
  nodup : (grants.map CapabilityGrant.grantId).Nodup

section Unused

variable {taskId operationId : String} {grants grants' : List CapabilityGrant}

/-- To consume a grant changes nothing but its use. -/
theorem unused_consume {grant grant' : CapabilityGrant} (h : grant.consume operationId = .ok grant') :
    grant'.unused = grant.unused := by
  unfold CapabilityGrant.consume at h
  split at h
  · cases h
    rfl
  · split_ifs at h
    · cases h
      rfl
    · cases h
      rfl

/-- To consume one of the grants changes nothing but its use. -/
theorem unused_consumeCapabilityGrant {grantId : String}
    (h : consumeCapabilityGrant grantId operationId grants = .ok grants') :
    grants'.map CapabilityGrant.unused = grants.map CapabilityGrant.unused := by
  obtain ⟨before, grant, grant', after, rfl, -, hgrant, rfl⟩ := consume_spec h
  rw [List.map_append, List.map_append, List.map_cons, List.map_cons, unused_consume hgrant]

/-- However the loop over the grants of a call ends, it has changed nothing but their uses. -/
theorem unused_consumeGrants (operationId : String) (grants matched : List CapabilityGrant) :
    (consumeGrants operationId grants matched).2.map CapabilityGrant.unused =
      grants.map CapabilityGrant.unused := by
  induction matched generalizing grants with
  | nil => rfl
  | cons grant matched ih =>
    unfold consumeGrants
    split
    · rfl
    · next held hheld =>
      rw [ih held, unused_consumeCapabilityGrant hheld]

/-- To authorize a tool changes nothing of the grants but their use. -/
theorem unused_authorizeTool {m : CapabilityManager} {call : ToolCallRequest}
    {validation : Except String Unit} {required : List CapabilityRequest} {now : ℕ} :
    (m.authorizeTool grants call validation required now).2.map CapabilityGrant.unused =
      grants.map CapabilityGrant.unused := by
  unfold CapabilityManager.authorizeTool
  split
  · rfl
  · split
    · rfl
    · rfl
    · next matched _ =>
      have hunused := unused_consumeGrants call.callId grants matched
      split
      · next e held hconsume =>
        rw [hconsume] at hunused
        exact hunused
      · next held hconsume =>
        rw [hconsume] at hunused
        exact hunused

/-- A grant is there after the uses that was there before them. -/
theorem exists_unused {grant : CapabilityGrant}
    (h : grants'.map CapabilityGrant.unused = grants.map CapabilityGrant.unused)
    (hgrant : grant ∈ grants) : ∃ grant' ∈ grants', grant'.unused = grant.unused := by
  have hmem : grant.unused ∈ grants'.map CapabilityGrant.unused := by
    rw [h]
    exact List.mem_map_of_mem hgrant
  exact List.mem_map.mp hmem

/-- Where only the use differs, the grants are as issued. -/
theorem Issued.of_unused (h : Issued taskId grants)
    (hunused : grants'.map CapabilityGrant.unused = grants.map CapabilityGrant.unused) :
    Issued taskId grants' := by
  constructor
  · intro grant hgrant
    obtain ⟨grant', hgrant', hsame⟩ := exists_unused hunused.symm hgrant
    have hsubject := congrArg CapabilityGrant.subjectTaskId hsame
    rw [← h.subject grant' hgrant']
    exact hsubject.symm
  · have hids := congrArg (List.map CapabilityGrant.grantId) hunused
    rw [List.map_map, List.map_map] at hids
    have hnodup := h.nodup
    rw [show grants.map CapabilityGrant.grantId =
      grants.map (CapabilityGrant.grantId ∘ CapabilityGrant.unused) from rfl, ← hids] at hnodup
    exact hnodup

/-- What is added are the task's own grants, each under an identifier that is new. -/
theorem Issued.add (h : Issued taskId grants) (more : List CapabilityGrant) :
    Issued taskId (addCapabilityGrants taskId grants more).1 := by
  induction more generalizing grants with
  | nil => exact h
  | cons grant more ih =>
    unfold addCapabilityGrants
    split_ifs with hsubject hheld
    · exact h
    · exact ih h
    · apply ih
      rw [not_not] at hsubject
      constructor
      · intro x hx
        rcases List.mem_append.mp hx with hx | hx
        · exact h.subject x hx
        · rw [List.mem_singleton.mp hx]
          exact hsubject
      · rw [List.map_append, List.nodup_append]
        refine ⟨h.nodup, List.nodup_singleton _, ?_⟩
        intro id hid id' hid' heq
        obtain ⟨x, hx, rfl⟩ := List.mem_map.mp hid
        rw [List.map_singleton, List.mem_singleton] at hid'
        apply hheld
        rw [List.any_eq_true]
        exact ⟨x, hx, decide_eq_true (heq.trans hid')⟩

/-- To add grants removes none. -/
theorem subset_addCapabilityGrants (more : List CapabilityGrant) :
    grants ⊆ (addCapabilityGrants taskId grants more).1 := by
  induction more generalizing grants with
  | nil => exact List.Subset.refl _
  | cons grant more ih =>
    unfold addCapabilityGrants
    split_ifs
    · exact List.Subset.refl _
    · exact ih
    · exact fun x hx => ih (List.mem_append_left _ hx)

/-- A grant after others were added is an old one or one of those. -/
theorem mem_addCapabilityGrants {more : List CapabilityGrant} {grant : CapabilityGrant}
    (h : grant ∈ (addCapabilityGrants taskId grants more).1) : grant ∈ grants ∨ grant ∈ more := by
  induction more generalizing grants with
  | nil => exact .inl h
  | cons first more ih =>
    unfold addCapabilityGrants at h
    split_ifs at h
    · exact .inl h
    · exact (ih h).imp_right (List.mem_cons_of_mem _)
    · rcases ih h with h | h
      · rcases List.mem_append.mp h with h | h
        · exact .inl h
        · rw [List.mem_singleton.mp h]
          exact .inr List.mem_cons_self
      · exact .inr (List.mem_cons_of_mem _ h)

/-- Grants of the task are all accepted. -/
theorem addCapabilityGrants_ok (grants : List CapabilityGrant) {more : List CapabilityGrant}
    (h : ∀ grant ∈ more, grant.subjectTaskId = taskId) :
    (addCapabilityGrants taskId grants more).2 = .ok () := by
  induction more generalizing grants with
  | nil => rfl
  | cons grant more ih =>
    rw [List.forall_mem_cons] at h
    unfold addCapabilityGrants
    rw [if_neg (not_not.mpr h.1)]
    split_ifs
    · exact ih grants h.2
    · exact ih (grants ++ [grant]) h.2

end Unused

end OsAgent.Capability
