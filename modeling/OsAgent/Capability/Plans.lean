import OsAgent.Capability.Delegation
import OsAgent.Capability.ScopeSets

/-!
# Planned delegations

`planRequest` looks for the nearest ancestor that may pass everything on which is asked for, and plans
one hop for each task from that holder down to the requester. It looks at the holder's grants alone.
`parent_route_executes` shows that this is enough: whoever is given grants on the way may pass them on,
since a derived grant is delegable when its policy is, can be executed on, has its source's expiry, and
contains its own scope.
-/

namespace OsAgent.Capability

open OsAgent.Library CapabilityManager

variable {m : CapabilityManager}

/-! ## What may be passed on -/

/-- The holder of the grants may pass the requested capability on. -/
structure Passable (m : CapabilityManager) (grants : List CapabilityGrant) (now : ℕ)
    (request : CapabilityRequest) : Prop where
  approval : (m.policyFor request.capability).approval ≠ .human
  policy : (m.policyFor request.capability).delegable = true
  source : ∃ grant ∈ grants, covers request now true none false grant = true

/-- More grants pass at least as much on. -/
theorem Passable.mono {grants more : List CapabilityGrant} {now : ℕ} {request : CapabilityRequest}
    (h : Passable m grants now request) (hmore : grants ⊆ more) : Passable m more now request := by
  obtain ⟨grant, hgrant, hcovers⟩ := h.source
  exact ⟨h.approval, h.policy, grant, hmore hgrant, hcovers⟩

/-- What covers a request as a source covers it for an execution. -/
theorem covers_of_source {request : CapabilityRequest} {now : ℕ} {grant : CapabilityGrant}
    (h : covers request now true none false grant = true) :
    covers request now false none false grant = true := by
  simp only [covers, Bool.and_eq_true, Bool.not_false, Bool.true_or] at h ⊢
  obtain ⟨⟨⟨hgrant, huses⟩, -⟩, hscope⟩ := h
  exact ⟨⟨⟨hgrant, huses⟩, trivial⟩, hscope⟩

/-- The loop finds sources exactly when each of the requests may be passed on. -/
theorem findSources_allowed_iff {grants : List CapabilityGrant} {now : ℕ}
    {requests : List CapabilityRequest} {found : List CapabilityGrant} :
    (∃ sources, m.findSources grants now requests found = .allowed sources) ↔
      ∀ request ∈ requests, Passable m grants now request := by
  -- Along the requests: each needs a policy for delegation and a grant that covers it.
  induction requests generalizing found with
  | nil => simp [findSources]
  | cons request requests ih =>
    rw [List.forall_mem_cons]
    simp only [findSources]
    split_ifs with hpolicy
    · constructor
      · rintro ⟨_, ⟨⟩⟩
      · rintro ⟨hpass, -⟩
        rcases hpolicy with happroval | hdelegable
        · exact absurd happroval hpass.approval
        · rw [hpass.policy] at hdelegable
          cases hdelegable
    · rw [not_or] at hpolicy
      cases hsource : findGrant grants request now true with
      | none =>
        constructor
        · rintro ⟨_, ⟨⟩⟩
        · rintro ⟨⟨-, -, grant, hgrant, hcovers⟩, -⟩
          exact absurd hcovers (List.find?_eq_none.mp hsource grant hgrant)
      | some source =>
        dsimp only
        rw [ih, iff_and_self]
        intro _
        exact ⟨hpolicy.1, by simpa using hpolicy.2, source, List.mem_of_find?_eq_some hsource,
          by simpa using List.find?_some hsource⟩

/-- The sources that the loop finds cover their requests now. -/
theorem findSources_live {grants : List CapabilityGrant} {now : ℕ}
    {requests : List CapabilityRequest} {found sources : List CapabilityGrant}
    (h : m.findSources grants now requests found = .allowed sources) :
    ∃ more, sources = found ++ more ∧ List.Forall₂
      (fun request source => covers request now true none false source = true) requests more := by
  obtain ⟨more, heq, hmore⟩ := findSources_found h
  refine ⟨more, heq, hmore.imp ?_⟩
  rintro request source ⟨-, hsource⟩
  simpa using List.find?_some hsource

/-! ## One hop -/

/-- A grant that is derived from a source that covers the request is again such a source. -/
theorem derivedGrant_covers {parentTaskId childTaskId : String} {now index n n' : ℕ}
    {sources : List CapabilityGrant} {request : CapabilityRequest} {source grant : CapabilityGrant}
    (hpolicy : (m.policyFor request.capability).delegable = true)
    (hsource : sources[index]? = some source)
    (hcovers : covers request now true none false source = true)
    (h : (m.derivedGrant parentTaskId childTaskId now sources request index).run n =
      .ok (grant, n')) :
    covers request now true none false grant = true := by
  unfold derivedGrant at h
  rw [hsource, run_bind_eq_ok] at h
  obtain ⟨id, n'', -, h⟩ := h
  rw [StateT.run_pure, pure_eq_ok, Prod.mk.injEq] at h
  simp only [covers, Bool.and_eq_true] at hcovers
  obtain ⟨⟨⟨⟨⟨-, hexpires⟩, -⟩, -⟩, -⟩, -⟩ := hcovers
  rw [← h.1]
  simp [covers, hpolicy, hexpires, scopeContains_self]

/-- A parent that may pass everything on does so, and the child may then do the same. -/
theorem grantByParent_run (hids : ∀ n, trim (m.grantIdGenerator n) ≠ "")
    {asked requests : List CapabilityRequest}
    (hasked : m.normalizeRequests (asked.map .request) = .ok requests)
    (hstable : m.normalizeRequests (requests.map .request) = .ok requests)
    {parentGrants : List CapabilityGrant} {now : ℕ}
    (hpass : ∀ request ∈ requests, Passable m parentGrants now request)
    (parentTaskId childTaskId : String) (n : ℕ) :
    ∃ grants n', (m.grantByParent parentTaskId parentGrants childTaskId asked now).run n =
        .ok (grants, n') ∧
      ∀ request ∈ requests, Passable m grants now request := by
  obtain ⟨sources, hsources⟩ := findSources_allowed_iff.mpr hpass
  obtain ⟨_, rfl, hfound⟩ := findSources_live hsources
  obtain ⟨⟨grants, n'⟩, hrun⟩ := exists_deriveGrants_run hids parentTaskId childTaskId now
    hfound.length_eq n
  refine ⟨grants, n', ?_, ?_⟩
  · rw [grantByParent, delegate_run _ _ _ _ hasked hstable, hsources]
    exact hrun
  · intro request hrequest
    obtain ⟨index, hindex, hget⟩ := List.mem_iff_getElem.mp hrequest
    have hpair : (request, index) ∈ requests.zipIdx := by
      rw [List.mem_zipIdx_iff_getElem?]
      exact List.getElem?_eq_some_iff.mpr ⟨hindex, hget⟩
    obtain ⟨grant, hgrant, t, t', hderived⟩ := exists_right_of_mem (mapM_run hrun) hpair
    have hindex' := hfound.length_eq ▸ hindex
    have hcovers := hfound.get hindex hindex'
    simp only [List.get_eq_getElem, hget] at hcovers
    have hpassable := hpass request hrequest
    refine ⟨hpassable.approval, hpassable.policy, grant, hgrant, ?_⟩
    exact derivedGrant_covers hpassable.policy (List.getElem?_eq_getElem hindex') hcovers hderived

/-! ## A path of hops -/

/-- What the tasks hold, once one of them was given grants. -/
def addGrants (holdings : String → List CapabilityGrant) (taskId : String)
    (grants : List CapabilityGrant) : String → List CapabilityGrant :=
  fun task => if task = taskId then holdings task ++ grants else holdings task

/-- The hops of a path are taken one after the other, each from what its grantor holds then. -/
def grantAlong (m : CapabilityManager) (asked : List CapabilityRequest) (now : ℕ) :
    List CapabilityDelegationHop → (String → List CapabilityGrant) →
      Issue (String → List CapabilityGrant)
  | [], holdings => pure holdings
  | hop :: path, holdings => do
    let grants ← m.grantByParent hop.grantorTaskId (holdings hop.grantorTaskId) hop.granteeTaskId
      asked now
    grantAlong m asked now path (addGrants holdings hop.granteeTaskId grants)

/-- Every hop starts where the one before it ends. -/
def Contiguous (path : List CapabilityDelegationHop) : Prop :=
  path.IsChain fun hop next => hop.granteeTaskId = next.grantorTaskId

/-- A contiguous path from a task that may pass everything on is taken to its end, whose task may
then do the same. -/
theorem grantAlong_run (hids : ∀ n, trim (m.grantIdGenerator n) ≠ "")
    {asked requests : List CapabilityRequest}
    (hasked : m.normalizeRequests (asked.map .request) = .ok requests)
    (hstable : m.normalizeRequests (requests.map .request) = .ok requests) {now : ℕ}
    {hop : CapabilityDelegationHop} {path : List CapabilityDelegationHop}
    {holdings : String → List CapabilityGrant} (hpath : Contiguous (hop :: path))
    (hpass : ∀ request ∈ requests, Passable m (holdings hop.grantorTaskId) now request) (n : ℕ) :
    ∃ after n', (grantAlong m asked now (hop :: path) holdings).run n = .ok (after, n') ∧
      ∀ request ∈ requests, Passable m
        (after ((hop :: path).getLast (List.cons_ne_nil _ _)).granteeTaskId) now request := by
  induction path generalizing hop holdings n with
  | nil =>
    obtain ⟨grants, n', hrun, hgrants⟩ := grantByParent_run hids hasked hstable hpass
      hop.grantorTaskId hop.granteeTaskId n
    refine ⟨addGrants holdings hop.granteeTaskId grants, n', ?_, ?_⟩
    · rw [grantAlong, run_bind_eq_ok]
      exact ⟨grants, n', hrun, rfl⟩
    · intro request hrequest
      refine (hgrants request hrequest).mono ?_
      simp [addGrants]
  | cons next path ih =>
    obtain ⟨grants, n', hrun, hgrants⟩ := grantByParent_run hids hasked hstable hpass
      hop.grantorTaskId hop.granteeTaskId n
    obtain ⟨hnext, hrest⟩ := List.isChain_cons_cons.mp hpath
    -- The grantor of the next hop is the one who was just given its grants.
    have hpass' : ∀ request ∈ requests, Passable m
        (addGrants holdings hop.granteeTaskId grants next.grantorTaskId) now request := by
      intro request hrequest
      refine (hgrants request hrequest).mono ?_
      simp [addGrants, ← hnext]
    obtain ⟨after, n'', hafter, hlast⟩ := ih hrest hpass' n'
    refine ⟨after, n'', ?_, ?_⟩
    · rw [grantAlong, run_bind_eq_ok]
      exact ⟨grants, n', hrun, hafter⟩
    · rwa [List.getLast_cons (List.cons_ne_nil _ _)]

/-! ## The planned path -/

/-- The holder of the grants may pass on everything that the inputs ask for. -/
def CanDelegate (m : CapabilityManager) (grants : List CapabilityGrant)
    (inputs : List CapabilityInput) (now : ℕ) : Prop :=
  ∃ sources, m.validateDelegation grants inputs now = .ok (.allowed sources)

/-- The hops lead from the ancestor at the index down to the requester, through every task that lies
between them. -/
structure LeadsDown (requesterTaskId : String) (ancestors : List CapabilityAncestor) (index : ℕ)
    (path : List CapabilityDelegationHop) : Prop where
  grantors : path.map (·.grantorTaskId) = ((ancestors.map (·.taskId)).take (index + 1)).reverse
  grantees : path.map (·.granteeTaskId) =
    ((requesterTaskId :: ancestors.map (·.taskId)).take (index + 1)).reverse
  contiguous : Contiguous path
  /-- Only the first hop waits for an answer already. -/
  status : path.map (·.status) = .pending :: List.replicate index .queued

/-- The ancestor at the index may pass everything on, and none that is nearer to the requester may. -/
structure NearestHolder (m : CapabilityManager) (ancestors : List CapabilityAncestor)
    (inputs : List CapabilityInput) (now index : ℕ) : Prop where
  holder : ∃ holder, ancestors[index]? = some holder ∧ CanDelegate m holder.grants inputs now
  nearest : ∀ nearer < index, ∀ ancestor, ancestors[nearer]? = some ancestor →
    ¬ CanDelegate m ancestor.grants inputs now

/-- The index that the search returns is that of the nearest holder. -/
theorem holderIndex_spec {ancestors : List CapabilityAncestor} {requests : List CapabilityRequest}
    {now index : ℕ} (h : m.holderIndex ancestors requests now = .ok (some index)) :
    NearestHolder m ancestors (requests.map .request) now index := by
  induction ancestors generalizing index with
  | nil => cases h
  | cons ancestor ancestors ih =>
    rw [holderIndex, bind_eq_ok] at h
    obtain ⟨decision, hdecision, h⟩ := h
    cases decision with
    | allowed sources =>
      rw [pure_eq_ok, Option.some_inj] at h
      subst h
      refine ⟨⟨ancestor, rfl, sources, hdecision⟩, ?_⟩
      intro nearer hnearer
      exact absurd hnearer (Nat.not_lt_zero nearer)
    | denied capability reason =>
      simp only [bind_eq_ok, pure_eq_ok, Option.map_eq_some_iff] at h
      obtain ⟨_, hindex, i, rfl, rfl⟩ := h
      have hrest := ih hindex
      refine ⟨hrest.holder, ?_⟩
      intro nearer hnearer other hother
      cases nearer with
      | zero =>
        rintro ⟨sources, hsources⟩
        rw [← Option.some_inj.mp hother, hdecision] at hsources
        cases hsources
      | succ nearer => exact hrest.nearest nearer (by omega) other hother

/-- The path has a hop for each of the indices, the holder's first. -/
theorem delegationPath_hops {requesterTaskId : String} {ancestors : List CapabilityAncestor}
    {index : ℕ} {path : List CapabilityDelegationHop}
    (h : delegationPath requesterTaskId ancestors index = .ok path) :
    path.length = index + 1 ∧ ∀ k, ∀ hk : k < path.length,
      (requesterTaskId :: ancestors.map (·.taskId))[index - k + 1]? = some path[k].grantorTaskId ∧
      (requesterTaskId :: ancestors.map (·.taskId))[index - k]? = some path[k].granteeTaskId ∧
      path[k].status = if k = 0 then .pending else .queued := by
  have hhops := mapM_eq_ok.mp h
  have hlength := hhops.length_eq
  rw [List.length_reverse, List.length_range] at hlength
  refine ⟨hlength.symm, ?_⟩
  intro k hk
  have hk' : k < (List.range (index + 1)).reverse.length := by
    rwa [hhops.length_eq]
  have hhop := hhops.get hk' hk
  have hat : (List.range (index + 1)).reverse[k] = index - k := by
    rw [List.getElem_reverse, List.getElem_range, List.length_range]
    omega
  simp only [List.get_eq_getElem, hat] at hhop
  split at hhop
  · next grantor grantee hgrantor hgrantee =>
    rw [Except.ok.injEq] at hhop
    rw [← hhop]
    refine ⟨hgrantor, hgrantee, ?_⟩
    have hfirst : index - k = index ↔ k = 0 := by omega
    simp only [hfirst]
  · cases hhop

/-- A list whose entries are those of another one, counted down from an index. -/
theorem eq_take_reverse {α : Type} {l r : List α} {index : ℕ} (hlength : r.length = index + 1)
    (h : ∀ k, ∀ hk : k < r.length, l[index - k]? = some r[k]) : r = (l.take (index + 1)).reverse := by
  have hindex : index < l.length := by
    have hfirst := h 0 (by omega)
    rw [Nat.sub_zero] at hfirst
    exact (List.getElem?_eq_some_iff.mp hfirst).1
  apply List.ext_getElem
  · rw [List.length_reverse, List.length_take]
    omega
  · intro k hk hk'
    have hget := h k hk
    rw [List.getElem_reverse, List.getElem_take, eq_comm, ← Option.some_inj,
      ← List.getElem?_eq_getElem, ← hget]
    congr 1
    rw [List.length_take]
    omega

/-- A path that was computed leads down from its index. -/
theorem leadsDown_of_delegationPath {requesterTaskId : String} {ancestors : List CapabilityAncestor}
    {index : ℕ} {path : List CapabilityDelegationHop}
    (h : delegationPath requesterTaskId ancestors index = .ok path) :
    LeadsDown requesterTaskId ancestors index path := by
  obtain ⟨hlength, hhops⟩ := delegationPath_hops h
  constructor
  · apply eq_take_reverse (by rw [List.length_map, hlength])
    intro k hk
    rw [List.length_map] at hk
    rw [List.getElem_map]
    exact (hhops k hk).1
  · apply eq_take_reverse (by rw [List.length_map, hlength])
    intro k hk
    rw [List.length_map] at hk
    rw [List.getElem_map]
    exact (hhops k hk).2.1
  · rw [Contiguous, List.isChain_iff_getElem]
    intro k hk
    -- The entry of the grantee is that of the next hop's grantor.
    have hgrantee := (hhops k (by omega)).2.1
    have hgrantor := (hhops (k + 1) hk).1
    have hentry : index - (k + 1) + 1 = index - k := by omega
    rw [hentry, hgrantee, Option.some_inj] at hgrantor
    exact hgrantor
  · apply List.ext_getElem
    · rw [List.length_map, List.length_cons, List.length_replicate, hlength]
    · intro k hk hk'
      rw [List.length_map] at hk
      rw [List.getElem_map, (hhops k hk).2.2]
      cases k with
      | zero => rfl
      | succ k => simp

/-- The first hop of the path starts at the holder. -/
theorem LeadsDown.exists_first {requesterTaskId : String} {ancestors : List CapabilityAncestor}
    {index : ℕ} {path : List CapabilityDelegationHop} {holder : CapabilityAncestor}
    (h : LeadsDown requesterTaskId ancestors index path) (hholder : ancestors[index]? = some holder) :
    ∃ hop rest, path = hop :: rest ∧ hop.grantorTaskId = holder.taskId := by
  have htask : (ancestors.map (·.taskId))[index]? = some holder.taskId := by
    rw [List.getElem?_map, hholder]
    rfl
  have hgrantors := h.grantors
  rw [List.take_add_one, htask, List.reverse_append] at hgrantors
  cases path with
  | nil => simp at hgrantors
  | cons hop rest => exact ⟨hop, rest, rfl, (List.cons.inj hgrantors).1⟩

/-- Its last hop ends at the requester. -/
theorem LeadsDown.grantee_getLast {requesterTaskId : String} {ancestors : List CapabilityAncestor}
    {index : ℕ} {path : List CapabilityDelegationHop}
    (h : LeadsDown requesterTaskId ancestors index path) (hne : path ≠ []) :
    (path.getLast hne).granteeTaskId = requesterTaskId := by
  have hlast : (path.map (·.granteeTaskId)).getLast? = some requesterTaskId := by
    rw [h.grantees, List.getLast?_reverse]
    rfl
  rw [List.getLast?_map, List.getLast?_eq_some_getLast hne] at hlast
  exact Option.some_inj.mp hlast

/-- A route through the parents is a path from the nearest holder. -/
theorem planRequest_parent {requesterTaskId : String} {ancestors : List CapabilityAncestor}
    {inputs : List CapabilityInput} {now : ℕ} {path : List CapabilityDelegationHop}
    (h : m.planRequest requesterTaskId ancestors inputs now = .ok (.parent path)) :
    ∃ requests, m.normalizeRequests inputs = .ok requests ∧ ∃ index,
      NearestHolder m ancestors (requests.map .request) now index ∧
        LeadsDown requesterTaskId ancestors index path := by
  rw [planRequest, bind_eq_ok] at h
  obtain ⟨requests, hrequests, h⟩ := h
  refine ⟨requests, hrequests, ?_⟩
  split_ifs at h with hempty hhuman
  · cases h
  · split at h
    · cases h
    · split at h <;> cases h
  · split at h
    · cases h
    · split at h
      · cases h
      · rw [bind_eq_ok] at h
        obtain ⟨holder, hholder, h⟩ := h
        cases holder with
        | none => cases h
        | some index =>
          simp only [bind_eq_ok, pure_eq_ok] at h
          obtain ⟨found, hfound, h⟩ := h
          cases h
          exact ⟨index, holderIndex_spec hholder, leadsDown_of_delegationPath hfound⟩

/-! ## The route -/

/-- Normalizing the resources that the inputs ask for a second time changes nothing. -/
def NormalizesOnce (p : UrlParser) (inputs : List CapabilityInput) : Prop :=
  ∀ input ∈ inputs, ∀ scope, normalizeResourceScope p input.scope = .ok scope →
    normalizeResourceScope p scope = .ok scope

/-- The normal form of such inputs is its own normal form. -/
theorem NormalizesOnce.stable {inputs : List CapabilityInput} {requests : List CapabilityRequest}
    (h : NormalizesOnce m.urlParser inputs) (hrequests : m.normalizeRequests inputs = .ok requests) :
    m.normalizeRequests (requests.map .request) = .ok requests := by
  apply normalizeRequests_stable hrequests
  intro request hrequest
  obtain ⟨input, hinput, hnormal⟩ := mem_normalizeRequests hrequests hrequest
  exact normalizeCapabilityInput_again hnormal
    (h input hinput _ (normalizeCapabilityInput_spec hnormal).2.2)

/-- Whether a holder may pass the inputs on is a matter of their normal form. -/
theorem canDelegate_congr {grants : List CapabilityGrant} {inputs others : List CapabilityInput}
    {now : ℕ} (h : m.normalizeRequests inputs = m.normalizeRequests others) :
    CanDelegate m grants inputs now ↔ CanDelegate m grants others now := by
  simp only [CanDelegate, validateDelegation, h]

/-- Who may pass inputs on may pass each of their normalized requests on. -/
theorem CanDelegate.passable {grants : List CapabilityGrant} {inputs : List CapabilityInput}
    {requests : List CapabilityRequest} {now : ℕ} (h : CanDelegate m grants inputs now)
    (hrequests : m.normalizeRequests inputs = .ok requests) :
    ∀ request ∈ requests, Passable m grants now request := by
  obtain ⟨sources, hsources⟩ := h
  rw [validateDelegation, hrequests] at hsources
  exact findSources_allowed_iff.mp ⟨sources, Except.ok.inj hsources⟩

/-- Who may pass each of the normalized requests on may also execute on the inputs. -/
theorem check_of_passable {grants : List CapabilityGrant} {inputs : List CapabilityInput}
    {requests : List CapabilityRequest} {now : ℕ}
    (hrequests : m.normalizeRequests inputs = .ok requests)
    (hpass : ∀ request ∈ requests, Passable m grants now request) :
    ∃ matched, m.check grants inputs now = .ok (.allowed matched) := by
  have hmissing : (requests.filter fun request =>
      (findGrant grants request now false none).isNone) = [] := by
    rw [List.filter_eq_nil_iff]
    intro request hrequest hnone
    obtain ⟨grant, hgrant, hcovers⟩ := (hpass request hrequest).source
    rw [Option.isNone_iff_eq_none] at hnone
    exact List.find?_eq_none.mp hnone grant hgrant (covers_of_source hcovers)
  rw [check, hrequests]
  exact ⟨_, congrArg Except.ok (if_pos hmissing)⟩

/-- A route through the parents leads down from the nearest ancestor that may pass everything on.
Granting along it, whether for the requests as they were asked or for their normal form, succeeds at
every hop, and what the requester holds then serves the inputs. -/
theorem parent_route_executes (hids : ∀ n, trim (m.grantIdGenerator n) ≠ "")
    {requesterTaskId : String} {ancestors : List CapabilityAncestor} {inputs : List CapabilityInput}
    {asked : List CapabilityRequest} {now : ℕ} {path : List CapabilityDelegationHop}
    {holdings : String → List CapabilityGrant} (honce : NormalizesOnce m.urlParser inputs)
    (hasked : asked.map .request = inputs ∨ m.normalizeRequests inputs = .ok asked)
    (hheld : ∀ ancestor ∈ ancestors, ancestor.grants ⊆ holdings ancestor.taskId)
    (hplan : m.planRequest requesterTaskId ancestors inputs now = .ok (.parent path)) (n : ℕ) :
    (∃ index, NearestHolder m ancestors inputs now index ∧
      LeadsDown requesterTaskId ancestors index path) ∧
    ∃ after n', (grantAlong m asked now path holdings).run n = .ok (after, n') ∧
      ∃ matched, m.check (after requesterTaskId) inputs now = .ok (.allowed matched) := by
  -- The plan has an index: the nearest ancestor that may pass all of it on.
  obtain ⟨requests, hrequests, index, hnearest, hdown⟩ := planRequest_parent hplan
  have hstable := honce.stable hrequests
  -- What was asked is normalized to the same requests, in either spelling.
  have hsame : m.normalizeRequests (requests.map .request) = m.normalizeRequests inputs := by
    rw [hstable, hrequests]
  have hasked' : m.normalizeRequests (asked.map .request) = .ok requests := by
    rcases hasked with rfl | hasked
    · exact hrequests
    · rw [hrequests, Except.ok.injEq] at hasked
      rw [← hasked]
      exact hstable
  constructor
  · -- Every nearer ancestor was tried, and may not.
    refine ⟨index, ⟨?_, ?_⟩, hdown⟩
    · obtain ⟨holder, hholder, hcan⟩ := hnearest.holder
      exact ⟨holder, hholder, (canDelegate_congr hsame).mp hcan⟩
    · intro nearer hnearer ancestor hancestor hcan
      exact hnearest.nearest nearer hnearer ancestor hancestor ((canDelegate_congr hsame).mpr hcan)
  · -- The chain leads down from that ancestor, and each grant makes the next hop possible.
    obtain ⟨holder, hholder, hcan⟩ := hnearest.holder
    obtain ⟨hop, rest, rfl, hgrantor⟩ := hdown.exists_first hholder
    have hpass : ∀ request ∈ requests, Passable m (holdings hop.grantorTaskId) now request := by
      intro request hrequest
      rw [hgrantor]
      exact (hcan.passable hstable request hrequest).mono
        (hheld holder (List.mem_of_getElem? hholder))
    obtain ⟨after, n', hrun, hafter⟩ := grantAlong_run hids hasked' hstable hdown.contiguous hpass n
    rw [hdown.grantee_getLast] at hafter
    exact ⟨after, n', hrun, check_of_passable hrequests hafter⟩

/-- The root's grant reaches a requester two levels below it. -/
theorem parent_route_executes_workspace :
    ∃ after n', (grantAlong workspaceManager [rootRequest] 0
        [⟨"root", "parent", .pending⟩, ⟨"parent", "leaf", .queued⟩]
        (fun task => if task = "root" then [sourceFor rootRequest] else [])).run 0 =
          .ok (after, n') ∧
      ∃ matched, workspaceManager.check (after "leaf") [.request rootRequest] 0 =
        .ok (.allowed matched) := by
  have hplan : workspaceManager.planRequest "leaf"
      [⟨"parent", []⟩, ⟨"root", [sourceFor rootRequest]⟩] [.request rootRequest] 0 =
        .ok (.parent [⟨"root", "parent", .pending⟩, ⟨"parent", "leaf", .queued⟩]) := by
    decide +kernel
  refine (parent_route_executes grantIds_workspace ?_ (.inl rfl) ?_ hplan 0).2
  · intro input hinput scope hscope
    rw [List.mem_singleton.mp hinput] at hscope
    have hnormal : normalizeResourceScope workspaceParser rootRequest.scope =
        .ok rootRequest.scope := by
      decide +kernel
    rw [← Except.ok.inj (hnormal.symm.trans hscope)]
    exact hnormal
  · simp

end OsAgent.Capability
