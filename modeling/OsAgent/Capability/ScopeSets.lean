import Mathlib.Data.Set.Insert
import OsAgent.Capability.Resource

/-!
# Scopes as sets of resources

A scope stands for a set of resources, and `scopeContains` decides whether one such set is within another
(`scopeContains_iff`). So it is reflexive and transitive, on which a chain of delegations rests: what the
last one has is within what the first one had.
-/

namespace OsAgent.Capability

open OsAgent.Library

/-- What is below a resource at a slash: longer texts with a slash at the end of the resource, or right
after it. -/
def Below (resource s : String) : Prop :=
  ∃ rest, s.toList = resource.toList ++ rest ∧ (endsWith resource "/" ∨ ['/'] <+: rest)

/-- The resources of a scope. -/
def ResourceScope.resources : ResourceScope → Set String
  | .all => Set.univ
  | .exact resource => {resource}
  | .subtree resource => {s | s = resource ∨ Below resource s}

section Below

variable {a b c : String}

/-- What is below something is below what that is below. -/
theorem Below.trans (h : Below a b) (h' : Below b c) : Below a c := by
  obtain ⟨rest, hb, hslash⟩ := h
  obtain ⟨rest', hc, -⟩ := h'
  refine ⟨rest ++ rest', ?_, ?_⟩
  · rw [hc, hb, List.append_assoc]
  · rcases hslash with hslash | hslash
    · exact Or.inl hslash
    · exact Or.inr (hslash.trans (List.prefix_append _ _))

/-- The text with a slash after a resource is below it. -/
theorem below_slash (resource : String) : Below resource (resource ++ "/") :=
  ⟨['/'], String.toList_append, Or.inr (List.prefix_refl _)⟩

/-- What the check of a subtree looks for. -/
theorem startsWith_iff_below : startsWith b (if endsWith a "/" then a else a ++ "/") ↔ Below a b := by
  unfold startsWith Below
  split_ifs with hslash
  · constructor
    · rintro ⟨rest, hrest⟩
      exact ⟨rest, hrest.symm, Or.inl hslash⟩
    · rintro ⟨rest, hrest, -⟩
      exact ⟨rest, hrest.symm⟩
  · rw [String.toList_append]
    constructor
    · rintro ⟨rest, hrest⟩
      refine ⟨['/'] ++ rest, ?_, Or.inr (List.prefix_append _ _)⟩
      rw [← hrest, List.append_assoc]
      rfl
    · rintro ⟨rest, hrest, hor⟩
      obtain ⟨more, rfl⟩ := hor.resolve_left hslash
      refine ⟨more, ?_⟩
      rw [hrest, List.append_assoc]
      rfl

/-- The comparison of texts for a subtree says which resources are in it. -/
theorem subtree_contains : (decide (b = a) || decide (startsWith b (if endsWith a "/" then a else a ++ "/")))
    = true ↔ b ∈ (ResourceScope.subtree a).resources := by
  rw [Bool.or_eq_true, decide_eq_true_eq, decide_eq_true_eq, startsWith_iff_below]
  rfl

/-- A subtree has more than one resource. -/
theorem subtree_not_subset_exact :
    ¬(ResourceScope.subtree b).resources ⊆ (ResourceScope.exact a).resources := by
  intro hsubset
  have hself : b = a := hsubset (Or.inl rfl)
  have hbelow : b ++ "/" = a := hsubset (Or.inr (below_slash b))
  have hlength := congrArg String.length (hself.trans hbelow.symm)
  rw [String.length_append] at hlength
  have hone : ("/" : String).length = 1 := rfl
  omega

/-- One resource is not all resources. -/
theorem univ_not_subset_exact : ¬Set.univ ⊆ (ResourceScope.exact a).resources := by
  intro hall
  exact subtree_not_subset_exact ((Set.subset_univ (ResourceScope.subtree a).resources).trans hall)

/-- No subtree has all texts: the empty one is in that of the empty text only, and that has no text of a
letter. -/
theorem univ_not_subset_subtree : ¬Set.univ ⊆ (ResourceScope.subtree a).resources := by
  intro hall
  have hempty : a.toList = [] := by
    rcases hall (Set.mem_univ "") with hsame | ⟨rest, hrest, -⟩
    · rw [← hsame]
      rfl
    · exact (List.append_eq_nil_iff.mp hrest.symm).1
  rcases hall (Set.mem_univ "x") with hsame | ⟨rest, hrest, hslash⟩
  · rw [← hsame] at hempty
    cases hempty
  · rw [hempty, List.nil_append] at hrest
    rcases hslash with hslash | hslash
    · unfold endsWith at hslash
      rw [hempty] at hslash
      exact absurd (List.suffix_nil.mp hslash) (by decide)
    · rw [← hrest] at hslash
      exact absurd hslash (by decide)

end Below

/-- One scope contains another if and only if its resources do. -/
theorem contains_iff_subset (granted requested : ResourceScope) :
    scopeContains granted requested = true ↔ requested.resources ⊆ granted.resources := by
  cases granted with
  | all => exact iff_of_true (by simp [scopeContains]) (Set.subset_univ _)
  | exact a =>
    cases requested with
    | all => exact iff_of_false (by simp [scopeContains]) univ_not_subset_exact
    | exact b =>
      show decide (b = a) = true ↔ ({b} : Set String) ⊆ {a}
      rw [decide_eq_true_eq, Set.singleton_subset_singleton]
    | subtree b => exact iff_of_false (by simp [scopeContains]) subtree_not_subset_exact
  | subtree a =>
    cases requested with
    | all => exact iff_of_false (by simp [scopeContains]) univ_not_subset_subtree
    | exact b =>
      refine subtree_contains.trans ?_
      show _ ↔ ({b} : Set String) ⊆ _
      rw [Set.singleton_subset_iff]
    | subtree b =>
      refine subtree_contains.trans ⟨?_, fun hsubset => hsubset (Or.inl rfl)⟩
      rintro hb s (rfl | hs)
      · exact hb
      · rcases hb with rfl | hb
        · exact Or.inr hs
        · exact Or.inr (hb.trans hs)

/-- A scope contains itself. -/
theorem scopeContains_self (scope : ResourceScope) : scopeContains scope scope = true :=
  (contains_iff_subset scope scope).mpr (Set.Subset.refl _)

/-- Containment of scopes is that of their resources, so it is reflexive and transitive. -/
theorem scopeContains_iff :
    (∀ granted requested, scopeContains granted requested = true ↔
      requested.resources ⊆ granted.resources) ∧
    (∀ scope, scopeContains scope scope = true) ∧
    ∀ first second third, scopeContains first second = true → scopeContains second third = true →
      scopeContains first third = true := by
  refine ⟨contains_iff_subset, scopeContains_self, ?_⟩
  intro first second third hfirst hsecond
  rw [contains_iff_subset] at hfirst hsecond ⊢
  exact hsecond.trans hfirst

end OsAgent.Capability
