import OsAgent.Capability.Idempotence
import OsAgent.Capability.Manager

/-!
# Normalized requests

A list of requests is normalized and freed of duplicates by a key. Two normalized requests have one
key exactly when they ask for one capability in one scope (`capabilityRequestKey_eq_iff`), so the list
that `normalizeRequests` returns has each of these pairs once. Where normalizing the resources again
changes nothing, normalizing the list again changes nothing (`normalizeRequests_stable`).
-/

namespace OsAgent.Capability

open OsAgent.Library

/-- What a request asks for, apart from its reason. -/
def CapabilityRequest.target (request : CapabilityRequest) : String × ResourceScope :=
  (request.capability, request.scope)

/-- The resource of a scope, as the key of a request spells it. -/
def ResourceScope.spelling : ResourceScope → String
  | .all => "*"
  | .exact resource | .subtree resource => resource

/-- The kind of a scope. -/
def ResourceScope.kind : ResourceScope → String
  | .all => "all"
  | .exact _ => "exact"
  | .subtree _ => "subtree"

/-! ## Trimming twice -/

/-- Trimming a trimmed text changes nothing. -/
@[simp]
theorem trim_trim (s : String) : trim (trim s) = trim s := by
  have hfront := List.rdropWhile_prefix isTrimmed (s.toList.dropWhile isTrimmed)
  have hfirst : ((s.toList.dropWhile isTrimmed).rdropWhile isTrimmed).dropWhile isTrimmed =
      (s.toList.dropWhile isTrimmed).rdropWhile isTrimmed := by
    rw [List.dropWhile_eq_self_iff]
    intro hpos
    rw [hfront.getElem hpos]
    exact List.dropWhile_get_zero_not _ _ _
  rw [trim, trim, String.toList_ofList, hfirst, List.rdropWhile_idempotent]

/-! ## Keys -/

/-- Texts with a separator before a last part that has none are equal part by part. -/
theorem append_cons_inj_of_not_mem {α : Type} {c : α} {l l' t t' : List α} (ht : c ∉ t)
    (ht' : c ∉ t') (h : l ++ c :: t = l' ++ c :: t') : l = l' ∧ t = t' := by
  induction l generalizing l' with
  | nil =>
    cases l' with
    | nil => exact ⟨rfl, (List.cons.inj h).2⟩
    | cons a l' =>
      have htail := (List.cons.inj h).2
      exact absurd (by rw [htail]; simp) ht
  | cons a l ih =>
    cases l' with
    | nil =>
      have htail := (List.cons.inj h).2
      exact absurd (by rw [← htail]; simp) ht'
    | cons a' l' =>
      obtain ⟨rfl, hrest⟩ := List.cons.inj h
      obtain ⟨rfl, rfl⟩ := ih hrest
      exact ⟨rfl, rfl⟩

/-- A scope without the separator of the keys in its resource. -/
def ResourceScope.NoNul (scope : ResourceScope) : Prop := '\u0000' ∉ scope.spelling.toList

/-- The key is the capability, the kind, and the resource, one after the other. -/
theorem toList_capabilityRequestKey (request : CapabilityRequest) :
    (capabilityRequestKey request).toList =
      (request.capability.toList ++ '\u0000' :: request.scope.kind.toList) ++
        '\u0000' :: request.scope.spelling.toList := by
  unfold capabilityRequestKey
  cases request.scope <;> simp [ResourceScope.kind, ResourceScope.spelling]

/-- A scope is its kind and its resource. -/
theorem ResourceScope.ext_spelling {a b : ResourceScope} (hkind : a.kind = b.kind)
    (hspelling : a.spelling = b.spelling) : a = b := by
  cases a <;> cases b <;> simp_all [ResourceScope.kind, ResourceScope.spelling]

/-- The name of a kind has no separator. -/
theorem ResourceScope.noNul_kind (a : ResourceScope) : '\u0000' ∉ a.kind.toList := by
  cases a <;> simp only [ResourceScope.kind] <;> decide

/-- Requests have one key exactly when they ask for the same. -/
theorem capabilityRequestKey_eq_iff {a b : CapabilityRequest} (ha : a.scope.NoNul)
    (hb : b.scope.NoNul) : capabilityRequestKey a = capabilityRequestKey b ↔ a.target = b.target := by
  constructor
  · intro h
    have hlist := congrArg String.toList h
    rw [toList_capabilityRequestKey, toList_capabilityRequestKey] at hlist
    obtain ⟨hfront, hspelling⟩ := append_cons_inj_of_not_mem ha hb hlist
    obtain ⟨hname, hkind⟩ :=
      append_cons_inj_of_not_mem a.scope.noNul_kind b.scope.noNul_kind hfront
    have hscope := ResourceScope.ext_spelling (String.toList_inj.mp hkind)
      (String.toList_inj.mp hspelling)
    rw [CapabilityRequest.target, CapabilityRequest.target, String.toList_inj.mp hname, hscope]
  · intro h
    obtain ⟨hname, hscope⟩ := Prod.mk.inj h
    apply String.toList_inj.mp
    rw [toList_capabilityRequestKey, toList_capabilityRequestKey, hname, hscope]

/-! ## Scopes and requests -/

variable {p : UrlParser}

/-- A scope whose resource, if it is accepted, is a stable URL. -/
def ResourceScope.Stable (p : UrlParser) : ResourceScope → Prop
  | .all => True
  | .exact resource | .subtree resource => ∀ u, parseResource p resource = .ok u → u.Stable

/-- Normalizing a normalized scope changes nothing exactly when its URL is stable. -/
theorem normalizeResourceScope_stable_iff (hp : p.Lawful) {scope normal : ResourceScope}
    (h : normalizeResourceScope p scope = .ok normal) :
    normalizeResourceScope p normal = .ok normal ↔ scope.Stable p := by
  cases scope with
  | all =>
    cases h
    exact ⟨fun _ => trivial, fun _ => rfl⟩
  | exact resource =>
    simp only [normalizeResourceScope, bind_eq_ok, pure_eq_ok, normalizeResource_eq_ok] at h
    obtain ⟨_, ⟨u, hu, rfl⟩, rfl⟩ := h
    have hiff := normalizeResource_stable_iff hp (parseResource_read hp hu)
    simp only [normalizeResourceScope, bind_eq_ok, pure_eq_ok, ResourceScope.exact.injEq,
      exists_eq_right, ResourceScope.Stable, hu, Except.ok.injEq, forall_eq']
    exact hiff
  | subtree resource =>
    simp only [normalizeResourceScope, bind_eq_ok, pure_eq_ok, normalizeResource_eq_ok] at h
    obtain ⟨_, ⟨u, hu, rfl⟩, rfl⟩ := h
    have hiff := normalizeResource_stable_iff hp (parseResource_read hp hu)
    simp only [normalizeResourceScope, bind_eq_ok, pure_eq_ok, ResourceScope.subtree.injEq,
      exists_eq_right, ResourceScope.Stable, hu, Except.ok.injEq, forall_eq']
    exact hiff

/-- The name of a normalized resource has no separator. -/
theorem Url.Read.noNul_resource {u : Url} (hu : u.Read p) : '\u0000' ∉ u.resource.toList := by
  unfold Url.resource
  split_ifs
  · exact hu.noNul
  · rw [toList_stripSlashes]
    exact fun h => hu.noNul ((List.rdropWhile_prefix _ _).subset h)

/-- A normalized scope's resource has no separator. -/
theorem normalizeResourceScope_noNul (hp : p.Lawful) {scope normal : ResourceScope}
    (h : normalizeResourceScope p scope = .ok normal) : normal.NoNul := by
  cases scope with
  | all =>
    cases h
    simp only [ResourceScope.NoNul, ResourceScope.spelling]
    decide
  | exact resource =>
    simp only [normalizeResourceScope, bind_eq_ok, pure_eq_ok, normalizeResource_eq_ok] at h
    obtain ⟨_, ⟨u, hu, rfl⟩, rfl⟩ := h
    exact (parseResource_read hp hu).noNul_resource
  | subtree resource =>
    simp only [normalizeResourceScope, bind_eq_ok, pure_eq_ok, normalizeResource_eq_ok] at h
    obtain ⟨_, ⟨u, hu, rfl⟩, rfl⟩ := h
    exact (parseResource_read hp hu).noNul_resource

/-- The scope that an input asks for. A bare name asks for everything. -/
def CapabilityInput.scope : CapabilityInput → ResourceScope
  | .name _ => .all
  | .request r => r.scope

/-- The name that an input asks for. -/
def CapabilityInput.capability : CapabilityInput → String
  | .name capability => capability
  | .request r => r.capability

/-- The parts of a normalized request. -/
theorem normalizeCapabilityInput_spec {input : CapabilityInput} {request : CapabilityRequest}
    (h : normalizeCapabilityInput p input = .ok request) :
    request.capability = trim input.capability ∧ trim input.capability ≠ "" ∧
      normalizeResourceScope p input.scope = .ok request.scope := by
  cases input with
  | name capability =>
    simp only [normalizeCapabilityInput, requireCapabilityName, bind_eq_ok, require_eq_ok,
      pure_eq_ok, exists_const] at h
    obtain ⟨_, ⟨hne, rfl⟩, rfl⟩ := h
    exact ⟨rfl, hne, rfl⟩
  | request input =>
    simp only [normalizeCapabilityInput, requireCapabilityName, bind_eq_ok, require_eq_ok,
      pure_eq_ok, exists_const] at h
    obtain ⟨_, ⟨hne, rfl⟩, scope, hscope, rfl⟩ := h
    exact ⟨rfl, hne, hscope⟩

/-- Normalizing a request keeps its reason. -/
theorem reason_normalizeCapabilityInput {request normal : CapabilityRequest}
    (h : normalizeCapabilityInput p (.request request) = .ok normal) :
    normal.reason = request.reason := by
  simp only [normalizeCapabilityInput, bind_eq_ok, pure_eq_ok] at h
  obtain ⟨_, -, _, -, rfl⟩ := h
  rfl

/-- Normalizing a scope of one resource gives a scope of one resource. -/
theorem normalizeResourceScope_exact {resource : String} {normal : ResourceScope}
    (h : normalizeResourceScope p (.exact resource) = .ok normal) :
    ∃ resource', normal = .exact resource' := by
  simp only [normalizeResourceScope, bind_eq_ok, pure_eq_ok] at h
  obtain ⟨resource', -, rfl⟩ := h
  exact ⟨resource', rfl⟩

/-- A normalized request whose scope is its own normal form is its own normal form. -/
theorem normalizeCapabilityInput_again {input : CapabilityInput} {request : CapabilityRequest}
    (h : normalizeCapabilityInput p input = .ok request)
    (hscope : normalizeResourceScope p request.scope = .ok request.scope) :
    normalizeCapabilityInput p (.request request) = .ok request := by
  obtain ⟨hname, hne, -⟩ := normalizeCapabilityInput_spec h
  have htrim : trim request.capability = request.capability := by rw [hname, trim_trim]
  have hne' : request.capability ≠ "" := by rwa [hname]
  simp only [normalizeCapabilityInput, requireCapabilityName, bind_eq_ok, require_eq_ok,
    pure_eq_ok, exists_const]
  exact ⟨_, ⟨by rwa [htrim], rfl⟩, _, hscope, by rw [htrim]⟩

/-- Normalizing a normalized request changes nothing exactly when its URL is stable. -/
theorem normalizeCapabilityInput_stable_iff (hp : p.Lawful) {input : CapabilityInput}
    {request : CapabilityRequest} (h : normalizeCapabilityInput p input = .ok request) :
    normalizeCapabilityInput p (.request request) = .ok request ↔ input.scope.Stable p := by
  rw [← normalizeResourceScope_stable_iff hp (normalizeCapabilityInput_spec h).2.2]
  constructor
  · intro hnorm
    exact (normalizeCapabilityInput_spec hnorm).2.2
  · intro hnorm
    exact normalizeCapabilityInput_again h hnorm

/-- Reading a resource does not fail with the error of a refused delegation. -/
theorem parseResource_error {resource capability message : String} :
    parseResource p resource ≠ .error (.delegation capability message) := by
  simp only [parseResource, parseUrl, Ne, bind_eq_error, require_eq_error, reduceCtorEq, and_false,
    false_or, not_exists, not_and]
  rintro - - - - (h | ⟨v, -, -, -, h⟩)
  · split at h <;> cases h
  · split_ifs at h <;> exact pure_ne_error h

/-- Normalizing a scope does not fail with the error of a refused delegation. -/
theorem normalizeResourceScope_error {scope : ResourceScope} {capability message : String} :
    normalizeResourceScope p scope ≠ .error (.delegation capability message) := by
  cases scope <;>
    simp only [normalizeResourceScope, normalizeResource, Ne, bind_eq_error, parseResource_error,
      pure_ne_error, reduceCtorEq, and_false, exists_false, or_self, not_false_eq_true]

/-- Normalizing a request does not fail with the error of a refused delegation. -/
theorem normalizeCapabilityInput_error {input : CapabilityInput} {capability message : String} :
    normalizeCapabilityInput p input ≠ .error (.delegation capability message) := by
  cases input <;>
    simp only [normalizeCapabilityInput, requireCapabilityName, Ne, bind_eq_error, require_eq_error,
      normalizeResourceScope_error, pure_ne_error, reduceCtorEq, and_false, exists_false, or_self,
      not_false_eq_true]

/-! ## Lists of requests -/

variable {m : CapabilityManager}

/-- The list that normalizing returns: what the inputs ask for, each once. -/
structure Normalized (m : CapabilityManager) (inputs : List CapabilityInput)
    (requests : List CapabilityRequest) : Prop where
  /-- Every request is a normalized input. -/
  normal : ∀ request ∈ requests, ∃ input ∈ inputs,
    normalizeCapabilityInput m.urlParser input = .ok request
  /-- Every input's normal form is among them, up to its reason. -/
  complete : ∀ input ∈ inputs, ∃ request, normalizeCapabilityInput m.urlParser input = .ok request ∧
    ∃ kept ∈ requests, kept.target = request.target
  /-- None occurs twice. -/
  nodup : (requests.map CapabilityRequest.target).Nodup

/-- Entries with distinct keys ask for distinct things. -/
theorem nodup_target {requests : List CapabilityRequest}
    (hnul : ∀ request ∈ requests, request.scope.NoNul)
    (h : (requests.map capabilityRequestKey).Nodup) :
    (requests.map CapabilityRequest.target).Nodup := by
  rw [List.Nodup, List.pairwise_map] at h ⊢
  refine h.imp_of_mem ?_
  intro a b ha hb hne heq
  exact hne ((capabilityRequestKey_eq_iff (hnul a ha) (hnul b hb)).mpr heq)

/-- Every normalized request is the normal form of an input. -/
theorem mem_normalizeRequests {inputs : List CapabilityInput} {requests : List CapabilityRequest}
    {request : CapabilityRequest} (h : m.normalizeRequests inputs = .ok requests)
    (hrequest : request ∈ requests) :
    ∃ input ∈ inputs, normalizeCapabilityInput m.urlParser input = .ok request := by
  simp only [CapabilityManager.normalizeRequests, bind_eq_ok, pure_eq_ok, mapM_eq_ok] at h
  obtain ⟨all, hall, rfl⟩ := h
  exact exists_left_of_mem hall (OrderedMap.mem_of_mem_entries_ofList hrequest)

/-- What `normalizeRequests` returns. -/
theorem normalizeRequests_spec (hp : m.urlParser.Lawful) {inputs : List CapabilityInput}
    {requests : List CapabilityRequest} (h : m.normalizeRequests inputs = .ok requests) :
    Normalized m inputs requests := by
  simp only [CapabilityManager.normalizeRequests, bind_eq_ok, pure_eq_ok, mapM_eq_ok] at h
  obtain ⟨all, hall, rfl⟩ := h
  have hnul : ∀ request ∈ all, request.scope.NoNul := by
    intro request hrequest
    obtain ⟨input, -, hinput⟩ := exists_left_of_mem hall hrequest
    exact normalizeResourceScope_noNul hp (normalizeCapabilityInput_spec hinput).2.2
  have hkept : ∀ request ∈ (OrderedMap.ofList all : OrderedMap capabilityRequestKey).entries,
      request ∈ all := fun _ => OrderedMap.mem_of_mem_entries_ofList
  refine ⟨?_, ?_, ?_⟩
  · intro request hrequest
    exact exists_left_of_mem hall (hkept request hrequest)
  · intro input hinput
    obtain ⟨request, hrequest, hnorm⟩ := exists_right_of_mem hall hinput
    have hkey : ((OrderedMap.ofList all : OrderedMap capabilityRequestKey).get?
        (capabilityRequestKey request)) ≠ none := by
      rw [Ne, OrderedMap.get?_ofList_eq_none_iff, not_not]
      exact List.mem_map_of_mem hrequest
    obtain ⟨kept, hget⟩ := Option.ne_none_iff_exists'.mp hkey
    obtain ⟨hmem, hsame⟩ := OrderedMap.get?_eq_some_iff.mp hget
    exact ⟨request, hnorm, kept, hmem,
      (capabilityRequestKey_eq_iff (hnul kept (hkept kept hmem)) (hnul request hrequest)).mp hsame⟩
  · exact nodup_target (fun request hrequest => hnul request (hkept request hrequest))
      (OrderedMap.nodup _)

/-- Inputs that are all accepted are normalized. -/
theorem exists_normalizeRequests {inputs : List CapabilityInput}
    (h : ∀ input ∈ inputs, ∃ request, normalizeCapabilityInput m.urlParser input = .ok request) :
    ∃ requests, m.normalizeRequests inputs = .ok requests := by
  obtain ⟨all, hall⟩ := exists_mapM_eq_ok h
  exact ⟨_, by rw [CapabilityManager.normalizeRequests, hall]; rfl⟩

/-- A single input is normalized as such. -/
theorem normalizeRequests_singleton (m : CapabilityManager) (input : CapabilityInput) :
    m.normalizeRequests [input] = (normalizeCapabilityInput m.urlParser input).map ([·]) := by
  rw [CapabilityManager.normalizeRequests, List.mapM_cons, List.mapM_nil]
  cases normalizeCapabilityInput m.urlParser input with
  | error e => rfl
  | ok request => rfl

/-- Normalizing a normalized list changes nothing, if it changes none of its requests. -/
theorem normalizeRequests_stable {inputs : List CapabilityInput} {requests : List CapabilityRequest}
    (h : m.normalizeRequests inputs = .ok requests)
    (hstable : ∀ request ∈ requests,
      normalizeCapabilityInput m.urlParser (.request request) = .ok request) :
    m.normalizeRequests (requests.map .request) = .ok requests := by
  simp only [CapabilityManager.normalizeRequests, bind_eq_ok, pure_eq_ok] at h ⊢
  obtain ⟨all, -, rfl⟩ := h
  refine ⟨_, ?_, by rw [OrderedMap.ofList_entries]⟩
  rw [mapM_eq_ok, List.forall₂_map_left_iff, List.forall₂_same]
  exact hstable

end OsAgent.Capability
