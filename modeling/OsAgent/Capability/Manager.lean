import Mathlib.Data.List.Forall2
import OsAgent.Capability.Resource
import OsAgent.Library.OrderedMap

/-!
# The capability manager

The manager holds no task's state. It decides from the grants that it is given: which grant covers a
request, whether a parent may pass a capability on, and which way a request for more takes. The
grants that it issues carry where they come from. Identifiers come from a generator of the host, which
is a sequence of texts here, and issuing counts how many it has taken.
-/

namespace OsAgent.Capability

open OsAgent.Library

/-! ## Grants and policies -/

/-- Where a grant comes from. -/
inductive CapabilityGrantSource where
  | root
  | parent (issuerTaskId parentGrantId : String)
  | human (approvalRequestId : String)
deriving DecidableEq, Repr

/-- Whether a grant can be executed on. A grant that waits for a human's approval only bounds what
can be asked for. -/
inductive CapabilityExecution where
  | allowed
  | humanApprovalRequired
deriving DecidableEq, Repr

/-- An issued capability. -/
structure CapabilityGrant where
  grantId : String
  subjectTaskId : String
  capability : String
  scope : ResourceScope
  source : CapabilityGrantSource
  delegable : Bool
  execution : Option CapabilityExecution
  issuedAt : ℕ
  expiresAt : Option ℕ := none
  remainingUses : Option ℕ := none
  consumedBy : Option String := none
deriving DecidableEq, Repr

/-- Who approves a request. -/
inductive CapabilityApprovalRoute where
  | human
  | parent
deriving DecidableEq, Repr

/-- How the requests of a family of capabilities are approved. -/
structure CapabilityPolicy where
  capabilityPattern : String
  approval : CapabilityApprovalRoute
  delegable : Bool
deriving DecidableEq, Repr

/-- A step of a planned path, from a task that holds a capability to one that lacks it. -/
inductive CapabilityHopStatus where
  | granted
  | pending
  | queued
deriving DecidableEq, Repr

/-- One step of a delegation. -/
structure CapabilityDelegationHop where
  grantorTaskId : String
  granteeTaskId : String
  status : CapabilityHopStatus
deriving DecidableEq, Repr

/-- The outcome of a check. -/
inductive CapabilityCheckResult where
  | allowed (grants : List CapabilityGrant)
  | missing (missing : List CapabilityRequest)
deriving DecidableEq, Repr

/-- Whether an ancestor can delegate. -/
inductive CapabilityDelegationDecision where
  | allowed (sourceGrants : List CapabilityGrant)
  | denied (capability reason : String)
deriving DecidableEq, Repr

/-- Where a request goes. -/
inductive CapabilityRequestRouteDecision where
  | human
  | parent (delegationPath : List CapabilityDelegationHop)
  | rejected (reason : String)
deriving DecidableEq, Repr

/-- An ancestor of the task that asks, with what it holds. -/
structure CapabilityAncestor where
  taskId : String
  grants : List CapabilityGrant

/-- The policies that hold when the host's have nothing to say. -/
def defaultCapabilityPolicies : List CapabilityPolicy :=
  [⟨"payment.*", .human, false⟩, ⟨"payment:*", .human, false⟩, ⟨"git.push", .human, false⟩,
    ⟨"git:push", .human, false⟩, ⟨"deploy.production", .human, false⟩,
    ⟨"filesystem.external.*", .human, false⟩, ⟨"filesystem:external:*", .human, false⟩]

/-- A pattern is a name, or the start of names followed by a star. -/
def matchesPattern (capability pattern : String) : Bool :=
  if endsWith pattern "*" then
    startsWith capability (String.ofList pattern.toList.dropLast)
  else capability = pattern

/-- The pattern of a policy is a name, or the start of names with a star at its end. -/
def validatePolicy (policy : CapabilityPolicy) : Except CapabilityError Unit := do
  require (trim policy.capabilityPattern ≠ "")
    (.error "Capability policy pattern must not be empty.")
  require (¬ (includes policy.capabilityPattern "*" ∧ ¬ endsWith policy.capabilityPattern "*"))
    (.error "Capability policy wildcard is only supported at the end.")

/-- Every default policy passes the check. -/
theorem validatePolicy_default :
    ∀ policy ∈ defaultCapabilityPolicies, validatePolicy policy = .ok () := by
  rw [← forM_eq_ok (u := ())]
  rfl

/-- The manager: its policies, which have passed their check, and the generators of identifiers. -/
structure CapabilityManager where
  policies : List CapabilityPolicy
  valid : ∀ policy ∈ policies, validatePolicy policy = .ok ()
  grantIdGenerator : ℕ → String
  requestIdGenerator : ℕ → String
  urlParser : UrlParser

/-- The constructor: the host's policies come before the default ones. -/
def CapabilityManager.create (policies : List CapabilityPolicy) (grantIdGenerator : ℕ → String)
    (requestIdGenerator : ℕ → String) (urlParser : UrlParser) :
    Except CapabilityError CapabilityManager :=
  match h : (policies ++ defaultCapabilityPolicies).forM validatePolicy with
  | .error e => .error e
  | .ok () =>
    .ok ⟨policies ++ defaultCapabilityPolicies, forM_eq_ok.mp h, grantIdGenerator,
      requestIdGenerator, urlParser⟩

/-- There is a manager exactly if the host's policies pass their check. The default ones never stand in the
way. -/
theorem CapabilityManager.create_isOk {policies : List CapabilityPolicy}
    {grantIdGenerator requestIdGenerator : ℕ → String} {urlParser : UrlParser} :
    (∃ m, create policies grantIdGenerator requestIdGenerator urlParser = .ok m) ↔
      ∀ policy ∈ policies, validatePolicy policy = .ok () := by
  unfold create
  constructor
  · rintro ⟨m, h⟩ policy hpolicy
    split at h
    · cases h
    · rename_i hvalid
      exact forM_eq_ok.mp hvalid policy (List.mem_append_left _ hpolicy)
  · intro hvalid
    have hall : (policies ++ defaultCapabilityPolicies).forM validatePolicy = .ok () :=
      forM_eq_ok.mpr (List.forall_mem_append.mpr ⟨hvalid, validatePolicy_default⟩)
    split
    · rename_i herror
      rw [hall] at herror
      cases herror
    · exact ⟨_, rfl⟩

/-- A computation that takes identifiers from a generator. -/
abbrev Issue := StateT ℕ (Except CapabilityError)

/-- An identifier without the white space around it. -/
def requireGeneratedId (id kind : String) : Except CapabilityError String := do
  let normalized := trim id
  require (normalized ≠ "") (.error (kind ++ " ID generator returned an empty ID."))
  pure normalized

namespace CapabilityManager

variable (m : CapabilityManager)

/-- The next identifier of a request. -/
def nextRequestId : Issue String := do
  let n ← get
  set (n + 1)
  requireGeneratedId (m.requestIdGenerator n) "Capability request"

/-- The next identifier of a grant. -/
def nextGrantId : Issue String := do
  let n ← get
  set (n + 1)
  requireGeneratedId (m.grantIdGenerator n) "Capability grant"

/-- The inputs in their normal form, one for each key. The last of several stands, in the place of
the first. -/
def normalizeRequests (inputs : List CapabilityInput) :
    Except CapabilityError (List CapabilityRequest) := do
  let requests ← inputs.mapM (normalizeCapabilityInput m.urlParser)
  pure (OrderedMap.ofList requests : OrderedMap capabilityRequestKey).entries

/-- The first policy whose pattern the capability matches. -/
def policyFor (capability : String) : CapabilityPolicy :=
  (m.policies.find? (fun policy => matchesPattern capability policy.capabilityPattern)).getD
    ⟨capability, .parent, true⟩

/-- Whether a grant serves a request. -/
def covers (request : CapabilityRequest) (now : ℕ) (requireDelegable : Bool)
    (operationId : Option String) (allowApprovalRequired : Bool) (grant : CapabilityGrant) : Bool :=
  grant.capability = request.capability &&
    grant.expiresAt.all (now < ·) &&
    (allowApprovalRequired || grant.execution.getD .allowed = .allowed) &&
    (grant.remainingUses.all (0 < ·) ||
      (operationId.isSome && grant.consumedBy = operationId)) &&
    (!requireDelegable || grant.delegable) &&
    scopeContains grant.scope request.scope

/-- The first grant that serves a request. -/
def findGrant (grants : List CapabilityGrant) (request : CapabilityRequest) (now : ℕ)
    (requireDelegable : Bool) (operationId : Option String := none)
    (allowApprovalRequired : Bool := false) : Option CapabilityGrant :=
  grants.find? (covers request now requireDelegable operationId allowApprovalRequired)

/-- The grants of a root task, as far as the host has the authority to give them. What needs a human's
approval cannot be executed on. -/
def issueRootGrants (subjectTaskId : String) (inputs : List CapabilityInput) (issuedAt : ℕ) :
    Issue (List CapabilityGrant) := do
  let requests ← m.normalizeRequests inputs
  requests.mapM fun request => do
    let policy := m.policyFor request.capability
    let grantId ← m.nextGrantId
    pure
      { grantId, subjectTaskId
        capability := request.capability
        scope := request.scope
        source := .root
        delegable := policy.delegable
        execution := some (if policy.approval = .human then .humanApprovalRequired else .allowed)
        issuedAt }

/-- The loop of `validateDelegation`: a source for each request, or the first refusal. -/
def findSources (parentGrants : List CapabilityGrant) (now : ℕ) :
    List CapabilityRequest → List CapabilityGrant → CapabilityDelegationDecision
  | [], sourceGrants => .allowed sourceGrants
  | request :: requests, sourceGrants =>
    let policy := m.policyFor request.capability
    if policy.approval = .human ∨ policy.delegable = false then
      .denied request.capability
        ("Capability " ++ request.capability ++ " cannot be delegated by an Agent.")
    else
      match findGrant parentGrants request now true with
      | none =>
        .denied request.capability
          ("Parent Agent cannot delegate capability " ++ request.capability ++
            " for the requested resource scope.")
      | some source => findSources parentGrants now requests (sourceGrants ++ [source])

/-- Whether the holder of the grants may pass the requested capabilities on. -/
def validateDelegation (parentGrants : List CapabilityGrant) (inputs : List CapabilityInput)
    (now : ℕ) : Except CapabilityError CapabilityDelegationDecision := do
  let requests ← m.normalizeRequests inputs
  pure (m.findSources parentGrants now requests [])

/-- The grant that is derived from a source. -/
def derivedGrant (parentTaskId childTaskId : String) (issuedAt : ℕ)
    (sourceGrants : List CapabilityGrant) (request : CapabilityRequest) (index : ℕ) :
    Issue CapabilityGrant := do
  match sourceGrants[index]? with
  | none => throw (.error "Capability delegation lost its source grant.")
  | some parentGrant => do
    let grantId ← m.nextGrantId
    pure
      { grantId
        subjectTaskId := childTaskId
        capability := request.capability
        scope := request.scope
        source := .parent parentTaskId parentGrant.grantId
        delegable := (m.policyFor request.capability).delegable
        execution := some .allowed
        issuedAt
        expiresAt := parentGrant.expiresAt }

/-- Derives the grants, or throws that the delegation was refused. -/
def deriveGrants (parentTaskId childTaskId : String) (issuedAt : ℕ)
    (requests : List CapabilityRequest) :
    CapabilityDelegationDecision → Issue (List CapabilityGrant)
  | .denied capability reason => throw (.delegation capability reason)
  | .allowed sourceGrants =>
    requests.zipIdx.mapM fun pair =>
      m.derivedGrant parentTaskId childTaskId issuedAt sourceGrants pair.1 pair.2

/-- Derives a grant for each request from the parent's. -/
def delegate (parentTaskId : String) (parentGrants : List CapabilityGrant) (childTaskId : String)
    (inputs : List CapabilityInput) (issuedAt : ℕ) : Issue (List CapabilityGrant) := do
  let requests ← m.normalizeRequests inputs
  let decision ← m.validateDelegation parentGrants (requests.map .request) issuedAt
  m.deriveGrants parentTaskId childTaskId issuedAt requests decision

/-- Whether the grants serve every request, and which of them do. -/
def check (grants : List CapabilityGrant) (inputs : List CapabilityInput) (now : ℕ)
    (operationId : Option String := none) : Except CapabilityError CapabilityCheckResult := do
  let requests ← m.normalizeRequests inputs
  let missing := requests.filter fun request =>
    (findGrant grants request now false operationId).isNone
  let matched := requests.filterMap fun request =>
    findGrant grants request now false operationId
  pure (if missing = [] then .allowed matched else .missing missing)

/-- The path from the holder down to the requester, one hop for each ancestor up to the holder. The
ancestors are ordered from the direct parent to the root. -/
def delegationPath (requesterTaskId : String) (ancestors : List CapabilityAncestor)
    (holderIndex : ℕ) : Except CapabilityError (List CapabilityDelegationHop) :=
  let tasks := requesterTaskId :: ancestors.map (·.taskId)
  ((List.range (holderIndex + 1)).reverse).mapM fun index =>
    match tasks[index + 1]?, tasks[index]? with
    | some grantor, some grantee =>
      .ok ⟨grantor, grantee, if index = holderIndex then .pending else .queued⟩
    | _, _ => .error (.error "Capability delegation path is incomplete.")

/-- Which ancestor is the first that may pass all of the requested capabilities on. -/
def holderIndex (ancestors : List CapabilityAncestor) (requests : List CapabilityRequest)
    (now : ℕ) : Except CapabilityError (Option ℕ) :=
  match ancestors with
  | [] => .ok none
  | ancestor :: ancestors => do
    let decision ← m.validateDelegation ancestor.grants (requests.map .request) now
    match decision with
    | .allowed _ => pure (some 0)
    | .denied _ _ => do
      let index ← holderIndex ancestors requests now
      pure (index.map (· + 1))

/-- The way of a request: to a human, or along a path from the nearest ancestor that holds what is
asked for. The root's grants bound both. -/
def planRequest (requesterTaskId : String) (ancestors : List CapabilityAncestor)
    (inputs : List CapabilityInput) (now : ℕ) :
    Except CapabilityError CapabilityRequestRouteDecision := do
  let requests ← m.normalizeRequests inputs
  if requests = [] then
    return .rejected "At least one capability must be requested."
  match ancestors.getLast? with
  | none =>
    return .rejected "Root Agent cannot acquire capabilities outside its authority ceiling."
  | some root =>
    match requests.find? fun request =>
        (findGrant root.grants request now false none true).isNone with
    | some request =>
      return .rejected ("Root Agent authority does not cover capability " ++ request.capability ++
        " for the requested resource scope.")
    | none =>
      if requests.any fun request => (m.policyFor request.capability).approval = .human then
        return .human
      let holder ← m.holderIndex ancestors requests now
      match holder with
      | none =>
        return .rejected "No ancestor holds a delegable grant covering the requested capabilities."
      | some index =>
        let path ← delegationPath requesterTaskId ancestors index
        return .parent path

/-- A parent's approval of a request is a delegation. -/
def grantByParent (parentTaskId : String) (parentGrants : List CapabilityGrant)
    (childTaskId : String) (requests : List CapabilityRequest) (issuedAt : ℕ) :
    Issue (List CapabilityGrant) :=
  m.delegate parentTaskId parentGrants childTaskId (requests.map .request) issuedAt

/-- The grants that a human's approval of a request gives. What needs such an approval can be
executed on once. -/
def grantByHuman (subjectTaskId approvalRequestId : String) (requests : List CapabilityRequest)
    (issuedAt : ℕ) : Issue (List CapabilityGrant) := do
  let requests ← m.normalizeRequests (requests.map .request)
  requests.mapM fun request => do
    let policy := m.policyFor request.capability
    let grantId ← m.nextGrantId
    pure
      { grantId, subjectTaskId
        capability := request.capability
        scope := request.scope
        source := .human approvalRequestId
        delegable := policy.delegable
        execution := some .allowed
        issuedAt
        remainingUses := if policy.approval = .human then some 1 else none }

end CapabilityManager

end OsAgent.Capability
