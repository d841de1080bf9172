import OsAgent.Capability.Resource

/-!
# Normalizing a normalized resource

A resource that was normalized is normalized again when it is compared, so a second normalization
should change nothing. `normalizeResource_idempotent_iff` says for which URLs that is so. A URL fails
the condition when cutting its trailing slashes cuts into something that the parser needs or puts
back: the `://` of a scheme without a host, or the slash of a root path that was followed by more
slashes.
-/

namespace OsAgent.Capability

open OsAgent.Library

/-! ## Trimming texts -/

/-- Stripping slashes drops those at the end. -/
@[simp]
theorem toList_stripSlashes (s : String) :
    (stripSlashes s).toList = s.toList.rdropWhile (· = '/') := by
  simp [stripSlashes]

/-- A text that does not end in a slash has none to strip. -/
theorem stripSlashes_of_not_endsWith {s : String} (h : ¬ endsWith s "/") : stripSlashes s = s := by
  have hlast : s.toList.rdropWhile (· = '/') = s.toList := by
    rw [List.rdropWhile_eq_self_iff]
    intro hne hc
    have hc : s.toList.getLast hne = '/' := by simpa using hc
    refine h ⟨s.toList.dropLast, ?_⟩
    have happ := List.dropLast_append_getLast hne
    rwa [hc] at happ
  rw [stripSlashes, hlast, String.ofList_toList]

/-- Stripping slashes leaves none at the end. -/
theorem not_endsWith_stripSlashes (s : String) : ¬ endsWith (stripSlashes s) "/" := by
  intro h
  obtain ⟨l, hl⟩ := h
  rw [toList_stripSlashes] at hl
  have hlast : (s.toList.rdropWhile (· = '/')).getLast? = some '/' := by
    rw [← hl]
    simp
  have hne : s.toList.rdropWhile (· = '/') ≠ [] := by
    intro hnil
    simp [hnil] at hlast
  have hnot := List.rdropWhile_last_not (· = '/') s.toList hne
  rw [List.getLast?_eq_some_getLast hne, Option.some.injEq] at hlast
  simp [hlast] at hnot

/-- Stripping slashes makes a text no longer. -/
theorem length_stripSlashes_le (s : String) : (stripSlashes s).length ≤ s.length := by
  rw [← String.length_toList, ← String.length_toList, toList_stripSlashes]
  exact (List.rdropWhile_prefix _ _).length_le

/-- What `trim` leaves is a part of the text. -/
theorem trim_isPart (s : String) : (trim s).toList <:+: s.toList := by
  rw [trim, String.toList_ofList]
  exact (List.rdropWhile_prefix _ _).isInfix.trans (List.dropWhile_suffix _).isInfix

/-- What `trim` leaves is the text itself or a shorter one. -/
theorem trim_eq_or_length_lt (s : String) : trim s = s ∨ (trim s).length < s.length := by
  have hdrop := List.dropWhile_suffix (l := s.toList) isTrimmed
  have hrdrop := List.rdropWhile_prefix isTrimmed (s.toList.dropWhile isTrimmed)
  rcases lt_or_ge (trim s).length s.length with hlt | hge
  · exact Or.inr hlt
  · left
    rw [← String.length_toList, ← String.length_toList, trim, String.toList_ofList] at hge
    have hmid : (s.toList.dropWhile isTrimmed).length = s.toList.length :=
      le_antisymm hdrop.length_le (le_trans hge hrdrop.length_le)
    have hfirst := hdrop.eq_of_length hmid
    rw [hfirst] at hge hrdrop
    have hlast := hrdrop.eq_of_length (le_antisymm hrdrop.length_le hge)
    rw [trim, hfirst, hlast, String.ofList_toList]

/-! ## Reading a resource -/

variable {p : UrlParser}

/-- A URL is what the parser reads. -/
@[simp]
theorem parseUrl_eq_ok {t : String} {u : Url} : parseUrl p t = .ok u ↔ p.parse t = some u := by
  unfold parseUrl
  cases p.parse t <;> simp

/-- What a resource is read as. -/
theorem parseResource_eq_ok {r : String} {u : Url} :
    parseResource p r = .ok u ↔
      trim r ≠ "" ∧ includes (trim r) "://" ∧ ∃ v, p.parse (trim r) = some v ∧ v.Plain ∧
        u = if v.protocol = "workspace:" ∧ v.pathname = "" then p.setPathname v "/" else v := by
  simp only [parseResource, require_eq_ok, bind_eq_ok, exists_const, parseUrl_eq_ok]
  have hroot : ∀ v : Url,
      (if v.protocol = "workspace:" ∧ v.pathname = "" then pure (p.setPathname v "/")
        else pure v : Except CapabilityError Url) = .ok u ↔
      u = if v.protocol = "workspace:" ∧ v.pathname = "" then p.setPathname v "/" else v := by
    intro v
    split_ifs <;> rw [pure_eq_ok, eq_comm]
  simp only [hroot]

/-- A text without white space around it that names a plain URL, other than a workspace without a
path, is read as that URL. -/
theorem parseResource_of_parse {t : String} {v : Url} (ht : trim t = t) (hin : includes t "://")
    (hv : p.parse t = some v) (hplain : v.Plain)
    (hroot : ¬ (v.protocol = "workspace:" ∧ v.pathname = "")) : parseResource p t = .ok v := by
  rw [parseResource_eq_ok, ht]
  refine ⟨?_, hin, v, hv, hplain, (if_neg hroot).symm⟩
  rintro rfl
  exact absurd hin (by decide)

/-- A URL that a resource was read as: it is read back from its own text, and a workspace's has a
path. -/
structure Url.Read (p : UrlParser) (u : Url) : Prop where
  plain : u.Plain
  parse : p.parse u.href = some u
  trimmed : trim u.href = u.href
  noNul : '\u0000' ∉ u.href.toList
  rooted : ¬ (u.protocol = "workspace:" ∧ u.pathname = "")

/-- Every resource is read as such a URL. -/
theorem parseResource_read (hp : p.Lawful) {r : String} {u : Url} (h : parseResource p r = .ok u) :
    u.Read p := by
  obtain ⟨-, hin, v, hv, hplain, rfl⟩ := parseResource_eq_ok.mp h
  split_ifs with hroot
  · obtain ⟨href, hset, hparse⟩ := hp.rooted _ v hv hin hplain hroot.1 hroot.2
    rw [hset]
    exact ⟨hplain, hparse, hp.trimmed _ _ hparse, hp.noNul _ _ hparse, by simp⟩
  · exact ⟨hplain, hp.reparse _ v hv, hp.trimmed _ v hv, hp.noNul _ v hv, hroot⟩

/-- What normalizing a resource returns. -/
theorem normalizeResource_eq_ok {r s : String} :
    normalizeResource p r = .ok s ↔ ∃ u, parseResource p r = .ok u ∧ u.resource = s := by
  simp only [normalizeResource, bind_eq_ok, pure_eq_ok]

/-! ## The second reading -/

/-- The URLs whose resource name is its own normal form. -/
def Url.Stable (u : Url) : Prop :=
  includes u.resource "://" ∧
    (u.pathname = "/" ∨ ¬ endsWith u.href "/" ∨
      (trim (stripSlashes u.href) = stripSlashes u.href ∧
        (stripSlashes u.pathname ≠ "" ∨
          ¬ (isSpecial u.protocol = true ∨ u.protocol = "workspace:"))))

instance (u : Url) : Decidable u.Stable := inferInstanceAs (Decidable (_ ∧ _))

/-- A name is rejected when it has lost its `://`. -/
theorem includes_of_parseResource {r : String} {u : Url} (h : parseResource p r = .ok u) :
    includes (trim r) "://" := (parseResource_eq_ok.mp h).2.1

/-- A URL whose name is its whole text is read back as itself, if it is read at all. -/
theorem parseResource_href {u : Url} (hu : u.Read p) (hin : includes u.href "://") :
    parseResource p u.href = .ok u :=
  parseResource_of_parse hu.trimmed hin hu.parse hu.plain hu.rooted

/-- The name is the whole text when there is nothing to strip. -/
theorem resource_eq_href {u : Url} (h : u.pathname = "/" ∨ ¬ endsWith u.href "/") :
    u.resource = u.href := by
  unfold Url.resource
  split_ifs with hroot
  · rfl
  · exact stripSlashes_of_not_endsWith (h.resolve_left hroot)

/-- The name is no longer than the text. -/
theorem length_resource_le (u : Url) : u.resource.length ≤ u.href.length := by
  unfold Url.resource
  split_ifs
  · exact le_refl _
  · exact length_stripSlashes_le _

/-- Nothing is stripped twice. -/
theorem normalizeResource_href_iff {u : Url} (hu : u.Read p)
    (h : u.pathname = "/" ∨ ¬ endsWith u.href "/") :
    normalizeResource p u.resource = .ok u.resource ↔ includes u.resource "://" := by
  rw [resource_eq_href h, normalizeResource_eq_ok]
  constructor
  · rintro ⟨v, hv, -⟩
    have hin := includes_of_parseResource hv
    rwa [hu.trimmed] at hin
  · intro hin
    exact ⟨u, parseResource_href hu hin, resource_eq_href h⟩

/-- A path that has more than slashes is left when they are stripped. -/
theorem normalizeResource_path_iff (hp : p.Lawful) {u : Url} (hu : u.Read p)
    (hroot : u.pathname ≠ "/") (hend : endsWith u.href "/") (hpath : stripSlashes u.pathname ≠ "") :
    normalizeResource p u.resource = .ok u.resource ↔
      includes u.resource "://" ∧ trim (stripSlashes u.href) = stripSlashes u.href := by
  rw [Url.resource, if_neg hroot, normalizeResource_eq_ok]
  set s := stripSlashes u.href with hs
  -- Every successful reading of the stripped text is the URL of its trimmed text.
  have hread : ∀ v, parseResource p s = .ok v → v.href = trim s := by
    intro v hv
    obtain ⟨-, hin, w, hw, -, rfl⟩ := parseResource_eq_ok.mp hv
    obtain ⟨path, hne, hparse⟩ := hp.shorter _ u hu.parse hu.plain hend hpath hin
    rw [hparse, Option.some.injEq] at hw
    rw [← hw, if_neg (fun h => hne h.2)]
  constructor
  · rintro ⟨v, hv, hvs⟩
    have hle : s.length ≤ (trim s).length := by
      calc s.length = v.resource.length := by rw [hvs]
        _ ≤ v.href.length := length_resource_le v
        _ = (trim s).length := by rw [hread v hv]
    have htrim : trim s = s := (trim_eq_or_length_lt s).resolve_right (by omega)
    refine ⟨?_, htrim⟩
    rw [← htrim]
    exact includes_of_parseResource hv
  · rintro ⟨hin, htrim⟩
    obtain ⟨path, hne, hparse⟩ := hp.shorter _ u hu.parse hu.plain hend hpath
      (by rw [← hs, htrim]; exact hin)
    rw [← hs, htrim] at hparse
    refine ⟨_, parseResource_of_parse htrim hin hparse hu.plain (fun h => hne h.2), ?_⟩
    exact resource_eq_href (Or.inr (not_endsWith_stripSlashes _))

/-- A text that is left with the scheme and the host gets its slash back, if the scheme is one whose
root has it. -/
theorem normalizeResource_bare_iff (hp : p.Lawful) {u : Url} (hu : u.Read p)
    (hroot : u.pathname ≠ "/") (hend : endsWith u.href "/") (hpath : stripSlashes u.pathname = "") :
    normalizeResource p u.resource = .ok u.resource ↔
      includes u.resource "://" ∧ trim (stripSlashes u.href) = stripSlashes u.href ∧
        ¬ (isSpecial u.protocol = true ∨ u.protocol = "workspace:") := by
  rw [Url.resource, if_neg hroot, normalizeResource_eq_ok]
  have hbare := hp.bare _ u hu.parse hu.plain hend hroot hpath
  have hlast := not_endsWith_stripSlashes u.href
  generalize stripSlashes u.href = s at hbare hlast ⊢
  constructor
  · -- Read again as itself: then the text is its own spelling, and neither kind of root.
    rintro ⟨v, hv, hvs⟩
    have hin : includes s "://" := (includes_of_parseResource hv).trans (trim_isPart s)
    obtain ⟨htrim, hparse⟩ := hbare hin
    refine ⟨hin, htrim, ?_⟩
    obtain ⟨-, -, w, hw, hplain, rfl⟩ := parseResource_eq_ok.mp hv
    rw [htrim, hparse] at hw
    rintro (hspecial | hworkspace)
    · -- The root of a special scheme has its slash.
      rw [if_pos hspecial, Option.some.injEq] at hw
      subst hw
      rw [if_neg (by simp)] at hvs
      exact hlast ⟨s.toList, by simpa [Url.resource] using congrArg String.toList hvs⟩
    · -- The root of a workspace gets it from the code.
      have hspecial : ¬ isSpecial u.protocol = true := by
        rw [hworkspace]
        decide
      rw [if_neg hspecial, Option.some.injEq] at hw
      subst hw
      rw [if_pos ⟨hworkspace, rfl⟩] at hvs
      rw [if_neg hspecial] at hparse
      obtain ⟨href, hset, hreread⟩ := hp.rooted _ _ hparse hin hplain hworkspace rfl
      have hhref : href = s := by rw [← hvs, hset, Url.resource, if_pos rfl]
      rw [hhref, hparse] at hreread
      simp at hreread
  · -- Not a root: the parser reads the text as it stands, and it is spelled so again.
    rintro ⟨hin, htrim, hscheme⟩
    obtain ⟨-, hparse⟩ := hbare hin
    rw [if_neg (fun h => hscheme (Or.inl h))] at hparse
    refine ⟨_, parseResource_of_parse htrim hin hparse hu.plain (fun h => hscheme (Or.inr h.1)), ?_⟩
    exact resource_eq_href (Or.inr hlast)

/-- A resource that was normalized is its own normal form exactly when the URL that it was read as is
stable. -/
theorem normalizeResource_stable_iff (hp : p.Lawful) {u : Url} (hu : u.Read p) :
    normalizeResource p u.resource = .ok u.resource ↔ u.Stable := by
  unfold Url.Stable
  by_cases hwhole : u.pathname = "/" ∨ ¬ endsWith u.href "/"
  · rw [normalizeResource_href_iff hu hwhole]
    exact ⟨fun hin => ⟨hin, hwhole.imp_right Or.inl⟩, And.left⟩
  · obtain ⟨hroot, hnot⟩ := not_or.mp hwhole
    have hend : endsWith u.href "/" := not_not.mp hnot
    rw [or_iff_right hroot, or_iff_right hnot]
    by_cases hpath : stripSlashes u.pathname = ""
    · rw [normalizeResource_bare_iff hp hu hroot hend hpath, or_iff_right (not_not.mpr hpath)]
    · rw [normalizeResource_path_iff hp hu hroot hend hpath, and_iff_left (Or.inl hpath)]

end OsAgent.Capability
