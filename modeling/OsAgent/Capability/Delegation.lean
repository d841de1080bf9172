import OsAgent.Capability.Requests

/-!
# Delegation

A delegation normalizes its requests, finds a source for each request among the parent's grants, and
derives one grant from each source. The sources are found for the requests normalized a second time,
and the grants are derived for the requests normalized once. `delegate_sound` shows that the two agree
when every resource is the name of a stable URL. `delegate_exact_iff` shows that they disagree for
every other resource that a single request names exactly. `normalization_sound_iff` puts both next to
the condition under which normalizing twice is normalizing once.
-/

namespace OsAgent.Capability

open OsAgent.Library

variable {m : CapabilityManager}

/-- What a grant is for. -/
def CapabilityGrant.target (grant : CapabilityGrant) : String × ResourceScope :=
  (grant.capability, grant.scope)

/-- The request is one that a parent with these grants may pass on, and the source covers it. -/
structure Covers (m : CapabilityManager) (parentGrants : List CapabilityGrant)
    (request : CapabilityRequest) (source : CapabilityGrant) : Prop where
  policy : ¬ ((m.policyFor request.capability).approval = .human ∨
    (m.policyFor request.capability).delegable = false)
  mem : source ∈ parentGrants
  capability : source.capability = request.capability
  delegable : source.delegable = true
  allowed : source.execution.getD .allowed = .allowed
  scope : scopeContains source.scope request.scope = true

/-- A grant that is found covers the request. -/
theorem findGrant_covers {parentGrants : List CapabilityGrant} {request : CapabilityRequest}
    {now : ℕ} {source : CapabilityGrant}
    (hpolicy : ¬ ((m.policyFor request.capability).approval = .human ∨
      (m.policyFor request.capability).delegable = false))
    (h : CapabilityManager.findGrant parentGrants request now true = some source) :
    Covers m parentGrants request source := by
  have hmem := List.mem_of_find?_eq_some h
  have hcovers := List.find?_some h
  simp only [CapabilityManager.covers, Bool.and_eq_true, Bool.or_eq_true, decide_eq_true_eq,
    Bool.not_true, Bool.false_eq_true, false_or] at hcovers
  obtain ⟨⟨⟨⟨⟨hcapability, -⟩, hallowed⟩, -⟩, hdelegable⟩, hscope⟩ := hcovers
  exact ⟨hpolicy, hmem, hcapability, hdelegable, hallowed, hscope⟩

/-- The loop finds a source for each of the requests, one after the other, and none for a request that
may not be passed on. -/
theorem findSources_found {parentGrants : List CapabilityGrant} {now : ℕ}
    {requests : List CapabilityRequest} {found sources : List CapabilityGrant}
    (h : m.findSources parentGrants now requests found = .allowed sources) :
    ∃ more, sources = found ++ more ∧ List.Forall₂ (fun request source =>
      ¬ ((m.policyFor request.capability).approval = .human ∨
        (m.policyFor request.capability).delegable = false) ∧
      CapabilityManager.findGrant parentGrants request now true = some source) requests more := by
  induction requests generalizing found with
  | nil =>
    refine ⟨[], ?_, List.Forall₂.nil⟩
    simpa [CapabilityManager.findSources, eq_comm] using h
  | cons request requests ih =>
    simp only [CapabilityManager.findSources] at h
    split_ifs at h with hpolicy
    split at h
    · cases h
    · next source hsource =>
      obtain ⟨more, rfl, hmore⟩ := ih h
      exact ⟨source :: more, by simp, List.Forall₂.cons ⟨hpolicy, hsource⟩ hmore⟩

/-- The sources that the loop finds cover the requests. -/
theorem findSources_covers {parentGrants : List CapabilityGrant} {now : ℕ}
    {requests : List CapabilityRequest} {found sources : List CapabilityGrant}
    (h : m.findSources parentGrants now requests found = .allowed sources) :
    ∃ more, sources = found ++ more ∧ List.Forall₂ (Covers m parentGrants) requests more := by
  obtain ⟨more, heq, hmore⟩ := findSources_found h
  exact ⟨more, heq, hmore.imp fun _ _ hfound => findGrant_covers hfound.1 hfound.2⟩

/-- The grant that is derived from a source. -/
theorem derivedGrant_run {parentTaskId childTaskId : String} {issuedAt index n n' : ℕ}
    {sources : List CapabilityGrant} {request : CapabilityRequest} {grant : CapabilityGrant}
    (h : (m.derivedGrant parentTaskId childTaskId issuedAt sources request index).run n =
      .ok (grant, n')) :
    ∃ source ∈ sources[index]?, grant.target = request.target ∧
      grant.source = .parent parentTaskId source.grantId := by
  unfold CapabilityManager.derivedGrant at h
  cases hsource : sources[index]? with
  | none =>
    rw [hsource] at h
    cases h
  | some source =>
    rw [hsource, run_bind_eq_ok] at h
    obtain ⟨id, n'', -, h⟩ := h
    rw [StateT.run_pure, pure_eq_ok, Prod.mk.injEq] at h
    rw [← h.1]
    exact ⟨source, rfl, rfl, rfl⟩

/-- A generator that gives texts other than white space gives an identifier. -/
theorem nextGrantId_run (hids : ∀ n, trim (m.grantIdGenerator n) ≠ "") (n : ℕ) :
    m.nextGrantId.run n = .ok (trim (m.grantIdGenerator n), n + 1) := by
  have hid : requireGeneratedId (m.grantIdGenerator n) "Capability grant" =
      .ok (trim (m.grantIdGenerator n)) := by
    simp only [requireGeneratedId, check_bind_eq_ok, require_eq_ok, pure_eq_ok]
    exact ⟨hids n, trivial⟩
  have hrun := run_lift_bind (σ := ℕ) (f := pure) hid (n + 1)
  rw [bind_pure] at hrun
  simp only [CapabilityManager.nextGrantId, StateT.run_bind, StateT.run_get, StateT.run_set,
    pure_bind]
  exact hrun

/-- A source at the index gives a grant. -/
theorem exists_derivedGrant_run (hids : ∀ n, trim (m.grantIdGenerator n) ≠ "")
    {parentTaskId childTaskId : String} {issuedAt index : ℕ} {sources : List CapabilityGrant}
    {request : CapabilityRequest} (hindex : index < sources.length) (n : ℕ) :
    ∃ r, (m.derivedGrant parentTaskId childTaskId issuedAt sources request index).run n =
      .ok r := by
  unfold CapabilityManager.derivedGrant
  rw [List.getElem?_eq_getElem hindex]
  refine ⟨_, run_bind_eq_ok.mpr ⟨_, _, nextGrantId_run hids n, rfl⟩⟩

/-! ## What a delegation returns -/

/-- A delegation is refused as such, or gives one grant for each thing that the inputs ask for, each
within the grant that it names as its source. -/
def DelegationSound (m : CapabilityManager) (parentTaskId : String)
    (parentGrants : List CapabilityGrant) (inputs : List CapabilityInput) :
    Except CapabilityError (List CapabilityGrant × ℕ) → Prop
  | .error (.delegation _ _) => True
  | .error (.error _) => False
  | .ok (grants, _) =>
    (grants.map CapabilityGrant.target).Nodup ∧
      (∀ target, target ∈ grants.map CapabilityGrant.target ↔
        ∃ input ∈ inputs, ∃ request, normalizeCapabilityInput m.urlParser input = .ok request ∧
          request.target = target) ∧
      ∀ grant ∈ grants, ∃ source ∈ parentGrants,
        grant.source = .parent parentTaskId source.grantId ∧
          grant.capability = source.capability ∧ scopeContains source.scope grant.scope = true

/-- The things that the inputs ask for are those that the normalized list asks for. -/
theorem Normalized.mem_target {inputs : List CapabilityInput} {requests : List CapabilityRequest}
    (h : Normalized m inputs requests) (target : String × ResourceScope) :
    target ∈ requests.map CapabilityRequest.target ↔
      ∃ input ∈ inputs, ∃ request, normalizeCapabilityInput m.urlParser input = .ok request ∧
        request.target = target := by
  rw [List.mem_map]
  constructor
  · rintro ⟨request, hrequest, rfl⟩
    obtain ⟨input, hinput, hnorm⟩ := h.normal request hrequest
    exact ⟨input, hinput, request, hnorm, rfl⟩
  · rintro ⟨input, hinput, request, hnorm, rfl⟩
    obtain ⟨request', hnorm', kept, hkept, htarget⟩ := h.complete input hinput
    rw [hnorm, Except.ok.injEq] at hnorm'
    rw [hnorm']
    exact ⟨kept, hkept, htarget⟩

/-- Grants that are derived from the sources of the same list are one for each request. -/
theorem derived_sound {parentTaskId childTaskId : String} {issuedAt n n' : ℕ}
    {parentGrants sources grants : List CapabilityGrant} {requests : List CapabilityRequest}
    (hsources : List.Forall₂ (Covers m parentGrants) requests sources)
    (h : (m.deriveGrants parentTaskId childTaskId issuedAt requests (.allowed sources)).run n =
      .ok (grants, n')) :
    grants.map CapabilityGrant.target = requests.map CapabilityRequest.target ∧
      ∀ grant ∈ grants, ∃ source ∈ parentGrants,
        grant.source = .parent parentTaskId source.grantId ∧
          grant.capability = source.capability ∧ scopeContains source.scope grant.scope = true := by
  -- The grants are made one by one from the requests, in order.
  have hgrants := mapM_run h
  have htarget : List.Forall₂ (fun (pair : CapabilityRequest × ℕ) grant =>
      grant.target = pair.1.target) requests.zipIdx grants := by
    refine hgrants.imp ?_
    rintro ⟨request, index⟩ grant ⟨t, t', hrun⟩
    obtain ⟨-, -, heq, -⟩ := derivedGrant_run hrun
    exact heq
  constructor
  · -- Their targets are those of the requests.
    have hmap : List.Forall₂ Eq (requests.zipIdx.map fun pair => pair.1.target)
        (grants.map CapabilityGrant.target) := by
      rw [List.forall₂_map_left_iff, List.forall₂_map_right_iff]
      exact htarget.imp fun _ _ => Eq.symm
    rw [List.forall₂_eq_eq_eq] at hmap
    rw [← hmap]
    have hfst := List.map_map (f := Prod.fst) (g := CapabilityRequest.target) (l := requests.zipIdx)
    rw [List.zipIdx_map_fst] at hfst
    exact hfst.symm
  · -- Each is from the source at its request's place.
    intro grant hgrant
    obtain ⟨⟨request, index⟩, hpair, t, t', hrun⟩ := exists_left_of_mem hgrants hgrant
    obtain ⟨source, hsource, heq, hfrom⟩ := derivedGrant_run hrun
    have hrequest := List.mem_zipIdx_iff_getElem?.mp hpair
    obtain ⟨hindex, hget⟩ := List.getElem?_eq_some_iff.mp hrequest
    obtain ⟨hindex', hget'⟩ := List.getElem?_eq_some_iff.mp hsource
    have hcovers := hsources.get hindex hindex'
    simp only [List.get_eq_getElem, hget, hget'] at hcovers
    obtain ⟨hname, hscope⟩ := Prod.mk.inj heq
    refine ⟨source, hcovers.mem, hfrom, ?_, ?_⟩
    · rw [hname, hcovers.capability]
    · rw [hscope]
      exact hcovers.scope

/-- What a delegation does once its requests are normalized both times. -/
theorem delegate_run (parentTaskId : String) (parentGrants : List CapabilityGrant)
    (childTaskId : String) (issuedAt : ℕ) {inputs : List CapabilityInput}
    {requests again : List CapabilityRequest} (hrequests : m.normalizeRequests inputs = .ok requests)
    (hagain : m.normalizeRequests (requests.map .request) = .ok again) (n : ℕ) :
    (m.delegate parentTaskId parentGrants childTaskId inputs issuedAt).run n =
      (m.deriveGrants parentTaskId childTaskId issuedAt requests
        (m.findSources parentGrants issuedAt again [])).run n := by
  unfold CapabilityManager.delegate
  rw [run_lift_bind hrequests]
  have hdecision : m.validateDelegation parentGrants (requests.map .request) issuedAt =
      .ok (m.findSources parentGrants issuedAt again []) := by
    rw [CapabilityManager.validateDelegation, hagain]
    rfl
  rw [run_lift_bind hdecision]

/-- Sources for all of the requests give grants for all of them. -/
theorem exists_deriveGrants_run (hids : ∀ n, trim (m.grantIdGenerator n) ≠ "")
    (parentTaskId childTaskId : String) (issuedAt : ℕ) {requests : List CapabilityRequest}
    {sources : List CapabilityGrant} (hlength : requests.length = sources.length) (n : ℕ) :
    ∃ r, (m.deriveGrants parentTaskId childTaskId issuedAt requests (.allowed sources)).run n =
      .ok r := by
  apply exists_mapM_run
  intro pair hpair
  have hindex := (List.getElem?_eq_some_iff.mp (List.mem_zipIdx_iff_getElem?.mp hpair)).1
  exact exists_derivedGrant_run hids (by omega)

/-- A delegation of stable resources is sound. -/
theorem delegate_sound (hp : m.urlParser.Lawful) (hids : ∀ n, trim (m.grantIdGenerator n) ≠ "")
    {inputs : List CapabilityInput}
    (haccepted : ∀ input ∈ inputs,
      ∃ request, normalizeCapabilityInput m.urlParser input = .ok request)
    (hstable : ∀ input ∈ inputs, input.scope.Stable m.urlParser)
    (parentTaskId : String) (parentGrants : List CapabilityGrant) (childTaskId : String)
    (issuedAt n : ℕ) :
    DelegationSound m parentTaskId parentGrants inputs
      ((m.delegate parentTaskId parentGrants childTaskId inputs issuedAt).run n) := by
  obtain ⟨requests, hrequests⟩ := exists_normalizeRequests haccepted
  have hnormal := normalizeRequests_spec hp hrequests
  -- The second normalization changes nothing, so the sources are found for the same list.
  have hagain : m.normalizeRequests (requests.map .request) = .ok requests := by
    apply normalizeRequests_stable hrequests
    intro request hrequest
    obtain ⟨input, hinput, hnorm⟩ := hnormal.normal request hrequest
    exact (normalizeCapabilityInput_stable_iff hp hnorm).mpr (hstable input hinput)
  rw [delegate_run _ _ _ _ hrequests hagain]
  cases hdecision : m.findSources parentGrants issuedAt requests [] with
  | denied capability reason => exact trivial
  | allowed sources =>
    obtain ⟨_, rfl, hsources⟩ := findSources_covers hdecision
    obtain ⟨⟨grants, n'⟩, hgrants⟩ := exists_deriveGrants_run hids parentTaskId childTaskId issuedAt
      hsources.length_eq n
    obtain ⟨htargets, hwithin⟩ := derived_sound hsources hgrants
    rw [hgrants]
    refine ⟨?_, ?_, hwithin⟩
    · rw [htargets]
      exact hnormal.nodup
    · intro target
      rw [htargets]
      exact hnormal.mem_target target

/-- A grant that can be passed on, for exactly what is asked for. -/
def sourceFor (request : CapabilityRequest) : CapabilityGrant where
  grantId := ""
  subjectTaskId := ""
  capability := request.capability
  scope := request.scope
  source := .root
  delegable := true
  execution := some .allowed
  issuedAt := 0

/-- The loop finds such a grant for a request of one resource. -/
theorem findSources_sourceFor {request : CapabilityRequest} {resource : String}
    (hexact : request.scope = .exact resource)
    (hpolicy : ¬ ((m.policyFor request.capability).approval = .human ∨
      (m.policyFor request.capability).delegable = false)) :
    m.findSources [sourceFor request] 0 [request] [] = .allowed [sourceFor request] := by
  have hfound : CapabilityManager.findGrant [sourceFor request] request 0 true =
      some (sourceFor request) := by
    simp [CapabilityManager.findGrant, CapabilityManager.covers, sourceFor, hexact, scopeContains]
  simp only [CapabilityManager.findSources, if_neg hpolicy, hfound, List.nil_append]

/-- A request for exactly one resource is delegated soundly, whatever the parent holds, exactly when
the resource is the name of a stable URL. -/
theorem delegate_exact_iff (hp : m.urlParser.Lawful)
    (hids : ∀ n, trim (m.grantIdGenerator n) ≠ "") {input : CapabilityInput} {resource : String}
    {request : CapabilityRequest} (hexact : input.scope = .exact resource)
    (haccepted : normalizeCapabilityInput m.urlParser input = .ok request)
    (hpolicy : ¬ ((m.policyFor request.capability).approval = .human ∨
      (m.policyFor request.capability).delegable = false)) :
    (∀ parentTaskId parentGrants childTaskId issuedAt n,
      DelegationSound m parentTaskId parentGrants [input]
        ((m.delegate parentTaskId parentGrants childTaskId [input] issuedAt).run n)) ↔
      input.scope.Stable m.urlParser := by
  have hrequests : m.normalizeRequests [input] = .ok [request] := by
    rw [normalizeRequests_singleton, haccepted]
    rfl
  constructor
  · intro hsound
    rw [← normalizeCapabilityInput_stable_iff hp haccepted]
    have hmap := normalizeRequests_singleton m (.request request)
    cases hagain : normalizeCapabilityInput m.urlParser (.request request) with
    | error e =>
      -- The second normalization throws an error of its own.
      rw [hagain] at hmap
      have hdecision : m.validateDelegation [] ([request].map .request) 0 = .error e := by
        rw [CapabilityManager.validateDelegation, List.map_cons, List.map_nil, hmap]
        rfl
      have hthrown := hsound "" [] "" 0 0
      rw [CapabilityManager.delegate, run_lift_bind hrequests, run_lift_bind_error hdecision]
        at hthrown
      cases e with
      | error message => exact hthrown.elim
      | delegation capability message => exact absurd hagain normalizeCapabilityInput_error
    | ok again =>
      -- A source for the second form alone has to contain the first.
      obtain ⟨hname, -, hscope⟩ := normalizeCapabilityInput_spec haccepted
      obtain ⟨hname', -, hscope'⟩ := normalizeCapabilityInput_spec hagain
      rw [hexact] at hscope
      obtain ⟨first, hfirst⟩ := normalizeResourceScope_exact hscope
      rw [CapabilityInput.scope, hfirst] at hscope'
      obtain ⟨second, hsecond⟩ := normalizeResourceScope_exact hscope'
      have hcapability : again.capability = request.capability := by
        rw [hname', CapabilityInput.capability, hname, trim_trim]
      rw [hagain] at hmap
      have hfound := findSources_sourceFor hsecond (by rw [hcapability]; exact hpolicy)
      have hrun := delegate_run "" [sourceFor again] "" 0 hrequests hmap 0
      obtain ⟨⟨grants, n'⟩, hgrants⟩ := exists_deriveGrants_run hids "" "" 0
        (show [request].length = [sourceFor again].length from rfl) 0
      have hwhole := hsound "" [sourceFor again] "" 0 0
      rw [hrun, hfound, hgrants] at hwhole
      obtain ⟨-, htargets, hwithin⟩ := hwhole
      have hmem := (htargets request.target).mpr ⟨input, List.mem_singleton_self _, request,
        haccepted, rfl⟩
      obtain ⟨grant, hgrant, htarget⟩ := List.mem_map.mp hmem
      obtain ⟨source, hsource, -, -, hcontains⟩ := hwithin grant hgrant
      have hgrantScope : grant.scope = .exact first := (Prod.mk.inj htarget).2.trans hfirst
      have hsourceScope : source.scope = .exact second := by
        rw [List.mem_singleton.mp hsource]
        exact hsecond
      rw [hgrantScope, hsourceScope] at hcontains
      have hsame : first = second := by simpa [scopeContains] using hcontains
      have hreason := reason_normalizeCapabilityInput hagain
      rw [← hsame, ← hfirst] at hsecond
      cases request with
      | mk capability scope reason =>
        cases again with
        | mk capability' scope' reason' =>
          simp only at hcapability hreason hsecond
          rw [hcapability, hreason, hsecond]
  · intro hstable parentTaskId parentGrants childTaskId issuedAt n
    apply delegate_sound hp hids
    · intro i hi
      rw [List.mem_singleton.mp hi]
      exact ⟨request, haccepted⟩
    · intro i hi
      rw [List.mem_singleton.mp hi]
      exact hstable

/-- A normalized scope is its own normal form exactly when its URL is stable. Delegations of scopes
with stable URLs are sound, and a request for exactly one resource is delegated soundly whatever the
parent holds only if its URL is stable. -/
theorem normalization_sound_iff (hp : m.urlParser.Lawful)
    (hids : ∀ n, trim (m.grantIdGenerator n) ≠ "") :
    (∀ scope normal, normalizeResourceScope m.urlParser scope = .ok normal →
      (normalizeResourceScope m.urlParser normal = .ok normal ↔ scope.Stable m.urlParser)) ∧
    (∀ inputs : List CapabilityInput,
      (∀ input ∈ inputs, ∃ request, normalizeCapabilityInput m.urlParser input = .ok request) →
      (∀ input ∈ inputs, input.scope.Stable m.urlParser) →
      ∀ parentTaskId parentGrants childTaskId issuedAt n,
        DelegationSound m parentTaskId parentGrants inputs
          ((m.delegate parentTaskId parentGrants childTaskId inputs issuedAt).run n)) ∧
    (∀ input resource request, CapabilityInput.scope input = .exact resource →
      normalizeCapabilityInput m.urlParser input = .ok request →
      ¬ ((m.policyFor request.capability).approval = .human ∨
        (m.policyFor request.capability).delegable = false) →
      ((∀ parentTaskId parentGrants childTaskId issuedAt n,
        DelegationSound m parentTaskId parentGrants [input]
          ((m.delegate parentTaskId parentGrants childTaskId [input] issuedAt).run n)) ↔
        input.scope.Stable m.urlParser)) := by
  refine ⟨?_, ?_, ?_⟩
  · intro scope normal h
    exact normalizeResourceScope_stable_iff hp h
  · intro inputs haccepted hstable
    exact delegate_sound hp hids haccepted hstable
  · intro input resource request hexact haccepted hpolicy
    exact delegate_exact_iff hp hids hexact haccepted hpolicy

/-! ## Two spellings of a workspace's root -/

/-- What the parser says about the spellings of one workspace's root. -/
def workspaceRoots : List (String × Url) :=
  let url (href pathname : String) : Url := { href, protocol := "workspace:", pathname }
  [("workspace://current//", url "workspace://current//" "//"),
    ("workspace://current/", url "workspace://current/" "/"),
    ("workspace://current", url "workspace://current" "")]

/-- The parser, as far as that root is concerned. -/
def workspaceParser : UrlParser where
  parse s := (workspaceRoots.find? (·.1 = s)).map (·.2)
  setPathname u pathname := { u with pathname, href := "workspace://current" ++ pathname }

/-- What the parser returns is in the table. -/
theorem mem_of_parse {s : String} {u : Url} (h : workspaceParser.parse s = some u) :
    (s, u) ∈ workspaceRoots := by
  obtain ⟨⟨s', u'⟩, hfind, rfl⟩ := Option.map_eq_some_iff.mp h
  have hs : s' = s := by simpa using List.find?_some hfind
  rw [← hs]
  exact List.mem_of_find?_eq_some hfind

/-- The entries of the table are read back, and have nothing to trim and no control characters. -/
theorem workspaceRoots_text : ∀ e ∈ workspaceRoots, workspaceParser.parse e.2.href = some e.2 ∧
    trim e.2.href = e.2.href ∧ '\u0000' ∉ e.2.href.toList ∧ stripSlashes e.2.pathname = "" := by
  decide

/-- Without its slashes, an entry of the table is the one without a path. -/
theorem workspaceRoots_bare : ∀ e ∈ workspaceRoots, e.2.pathname = "/" ∨
    (trim (stripSlashes e.2.href) = stripSlashes e.2.href ∧
      workspaceParser.parse (stripSlashes e.2.href) =
        if isSpecial e.2.protocol then
          some { e.2 with pathname := "/", href := stripSlashes e.2.href ++ "/" }
        else some { e.2 with pathname := "", href := stripSlashes e.2.href }) := by
  decide

/-- With a slash for its path, the entry without a path is the root. -/
theorem workspaceRoots_rooted : ∀ e ∈ workspaceRoots, e.2.pathname = "" →
    workspaceParser.setPathname e.2 "/" =
      { e.2 with pathname := "/", href := "workspace://current/" } ∧
    workspaceParser.parse "workspace://current/" =
      some { e.2 with pathname := "/", href := "workspace://current/" } := by
  decide

/-- The table obeys the standard. -/
theorem workspaceParser_lawful : workspaceParser.Lawful := by
  constructor
  · intro s u h
    exact (workspaceRoots_text _ (mem_of_parse h)).1
  · intro s u h
    exact (workspaceRoots_text _ (mem_of_parse h)).2.1
  · intro s u h
    exact (workspaceRoots_text _ (mem_of_parse h)).2.2.1
  · intro s u h _ _ hpath
    exact absurd (workspaceRoots_text _ (mem_of_parse h)).2.2.2 hpath
  · intro s u h _ _ hroot _ _
    exact (workspaceRoots_bare _ (mem_of_parse h)).resolve_left hroot
  · intro s u h _ _ _ hpath
    exact ⟨_, workspaceRoots_rooted _ (mem_of_parse h) hpath⟩

/-- A manager with the default policies. -/
def workspaceManager : CapabilityManager where
  policies := defaultCapabilityPolicies
  valid := validatePolicy_default
  grantIdGenerator _ := "grant"
  requestIdGenerator _ := "request"
  urlParser := workspaceParser

/-- Every identifier of this manager is one. -/
theorem grantIds_workspace (n : ℕ) : trim (workspaceManager.grantIdGenerator n) ≠ "" := by
  show trim "grant" ≠ ""
  decide

/-- A request for the root with its slash. -/
def rootRequest : CapabilityRequest := ⟨"file.read", .exact "workspace://current/", none⟩

/-- A request for the root with two slashes. -/
def slashesRequest : CapabilityRequest := ⟨"file.read", .exact "workspace://current//", none⟩

/-- The root with its slash is its own normal form, and a request for it is delegated soundly. -/
theorem normalization_sound_root :
    DelegationSound workspaceManager "parent" [sourceFor rootRequest] [.request rootRequest]
      ((workspaceManager.delegate "parent" [sourceFor rootRequest] "child"
        [.request rootRequest] 0).run 0) := by
  have hnormal : normalizeCapabilityInput workspaceParser (.request rootRequest) =
      .ok rootRequest := by
    decide
  have hurl : parseResource workspaceParser "workspace://current/" =
      .ok ⟨"workspace://current/", "workspace:", "", "", "/", "", ""⟩ := by
    decide
  refine (normalization_sound_iff workspaceParser_lawful grantIds_workspace).2.1 _ ?_ ?_ _ _ _ _ _
  · intro input hinput
    rw [List.mem_singleton.mp hinput]
    exact ⟨_, hnormal⟩
  · intro input hinput
    rw [List.mem_singleton.mp hinput]
    intro u hu
    rw [← Except.ok.inj (hurl.symm.trans hu)]
    decide

/-- The root with two slashes is not its own normal form. Delegating it gives a grant that its source
does not contain, and delegating it together with the root loses a source. -/
theorem normalization_unsound_slashes :
    normalizeResourceScope workspaceParser (.exact "workspace://current//") =
      .ok (.exact "workspace://current") ∧
    normalizeResourceScope workspaceParser (.exact "workspace://current") =
      .ok (.exact "workspace://current/") ∧
    ¬ DelegationSound workspaceManager "parent" [sourceFor rootRequest] [.request slashesRequest]
      ((workspaceManager.delegate "parent" [sourceFor rootRequest] "child"
        [.request slashesRequest] 0).run 0) ∧
    (workspaceManager.delegate "parent" [sourceFor rootRequest] "child"
      [.request slashesRequest, .request rootRequest] 0).run 0 =
        .error (.error "Capability delegation lost its source grant.") := by
  have hrun : (workspaceManager.delegate "parent" [sourceFor rootRequest] "child"
      [.request slashesRequest] 0).run 0 =
        .ok ([{ grantId := "grant", subjectTaskId := "child", capability := "file.read",
                scope := .exact "workspace://current", source := .parent "parent" "",
                delegable := true, execution := some .allowed, issuedAt := 0 }], 1) := by
    decide
  refine ⟨by decide, by decide +kernel, ?_, by decide +kernel⟩
  rw [hrun]
  rintro ⟨-, -, hwithin⟩
  obtain ⟨source, hsource, -, -, hcontains⟩ := hwithin _ (List.mem_singleton_self _)
  rw [List.mem_singleton.mp hsource] at hcontains
  revert hcontains
  decide

end OsAgent.Capability
