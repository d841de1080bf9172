import Mathlib.Data.List.Perm.Subperm
import Mathlib.Logic.Relation

/-!
# Depth-first search for a cycle

The usual search with two marks: the vertices on the path from the root, and those that are done. It
fails when it meets the path again. `search` bounds the depth of the recursion, and
`search_finishes` says that a bound above the number of vertices with successors is never met, so
that the unbounded recursion ends with the same outcome. A search that fails has met a cycle
(`exists_cycle_of_search`). One that succeeds leaves the vertices that are done in an order in which
every vertex comes before its successors (`search_ordered`), and no cycle goes through an ordered list
(`Ordered.not_cyclic`).
-/

namespace OsAgent.Library.DepthFirst

variable {α : Type*} (next : α → List α)

/-- `b` is a successor of `a`. -/
def Edge (a b : α) : Prop := b ∈ next a

/-- A way along one or more edges. -/
abbrev Leads : α → α → Prop := Relation.TransGen (Edge next)

/-- How a search ends. -/
inductive Outcome (α : Type*) where
  /-- The recursion is deeper than the bound. -/
  | unfinished
  | cycle
  /-- The vertices that are done, the last first. -/
  | visited (seen : List α)
deriving DecidableEq, Repr

/-- One search after the other, each with the vertices that those before it have left. -/
def searchAll (f : List α → α → Outcome α) : List α → List α → Outcome α
  | seen, [] => .visited seen
  | seen, a :: l =>
    match f seen a with
    | .visited seen => searchAll f seen l
    | .cycle => .cycle
    | .unfinished => .unfinished

variable [DecidableEq α]

/-- The search from one vertex, with the path that leads there and the vertices that are done. -/
def search : ℕ → List α → List α → α → Outcome α
  | 0, _, _, _ => .unfinished
  | depth + 1, path, seen, a =>
    if a ∈ path then .cycle
    else if a ∈ seen then .visited seen
    else
      match searchAll (search depth (a :: path)) seen (next a) with
      | .visited seen => .visited (a :: seen)
      | .cycle => .cycle
      | .unfinished => .unfinished

variable {next}

/-! ## The order that a search leaves -/

variable (next) in
/-- Every vertex of the list comes before all of its successors. -/
def Ordered : List α → Prop
  | [] => True
  | a :: l => next a ⊆ l ∧ Ordered l

omit [DecidableEq α] in
/-- An ordered list has all that its vertices lead to. -/
theorem Ordered.mem_of_leads {l : List α} (h : Ordered next l) {a b : α} (ha : a ∈ l)
    (hab : Leads next a b) : b ∈ l := by
  have hclosed : ∀ c ∈ l, next c ⊆ l := by
    clear ha hab
    induction l with
    | nil => exact fun _ h => (by cases h)
    | cons d l ih =>
      intro c hc
      rcases List.mem_cons.mp hc with rfl | hc
      · exact List.Subset.trans h.1 (List.subset_cons_self _ _)
      · exact List.Subset.trans (ih h.2 c hc) (List.subset_cons_self _ _)
  induction hab with
  | single hedge => exact hclosed a ha hedge
  | tail _ hedge ih => exact hclosed _ ih hedge

omit [DecidableEq α] in
/-- No cycle goes through a vertex of an ordered list. -/
theorem Ordered.not_cyclic {l : List α} (h : Ordered next l) {a : α} (ha : a ∈ l) :
    ¬ Leads next a a := by
  induction l with
  | nil => cases ha
  | cons c l ih =>
    intro hcycle
    by_cases hl : a ∈ l
    · exact ih h.2 hl hcycle
    · obtain rfl : a = c := (List.mem_cons.mp ha).resolve_right hl
      -- The first step leads into the rest, and nothing leads out of the rest again.
      obtain ⟨b, hedge, hback⟩ := Relation.TransGen.head'_iff.mp hcycle
      have hb : b ∈ l := h.1 hedge
      rcases Relation.reflTransGen_iff_eq_or_transGen.mp hback with rfl | hback
      · exact hl hb
      · exact hl (h.2.mem_of_leads hb hback)

/-- What a search from `a` adds to the vertices that were done. -/
structure Extends (next : α → List α) (seen seen' : List α) (a : α) : Prop where
  kept : seen ⊆ seen'
  ordered : Ordered next seen'
  mem : a ∈ seen'

omit [DecidableEq α] in
/-- Searches that each extend what is done extend it one after the other. -/
theorem searchAll_ordered {f : List α → α → Outcome α} {l seen seen' : List α}
    (hf : ∀ seen seen' a, f seen a = .visited seen' → Ordered next seen →
      Extends next seen seen' a)
    (h : searchAll f seen l = .visited seen') (hseen : Ordered next seen) :
    seen ⊆ seen' ∧ Ordered next seen' ∧ l ⊆ seen' := by
  induction l generalizing seen with
  | nil =>
    obtain rfl := Outcome.visited.inj h
    exact ⟨List.Subset.refl _, hseen, List.nil_subset _⟩
  | cons a l ih =>
    unfold searchAll at h
    split at h
    case h_1 seen₁ hfirst =>
      have hext := hf seen seen₁ a hfirst hseen
      obtain ⟨hkept, hordered, hl⟩ := ih h hext.ordered
      exact ⟨List.Subset.trans hext.kept hkept, hordered, List.cons_subset.mpr ⟨hkept hext.mem, hl⟩⟩
    all_goals cases h

/-- A search that succeeds extends what is done, in order, by the vertex that it starts from. -/
theorem search_ordered {depth : ℕ} {path seen seen' : List α} {a : α}
    (h : search next depth path seen a = .visited seen') (hseen : Ordered next seen) :
    Extends next seen seen' a := by
  induction depth generalizing path seen seen' a with
  | zero => cases h
  | succ depth ih =>
    unfold search at h
    split_ifs at h with hpath hmem
    · obtain rfl := Outcome.visited.inj h
      exact ⟨List.Subset.refl _, hseen, hmem⟩
    split at h
    case h_1 seen₁ hall =>
      obtain rfl := Outcome.visited.inj h
      obtain ⟨hkept, hordered, hnext⟩ := searchAll_ordered (fun _ _ _ => ih) hall hseen
      exact ⟨List.Subset.trans hkept (List.subset_cons_self _ _), ⟨hnext, hordered⟩, List.mem_cons_self⟩
    all_goals cases h

/-! ## The cycle that a search meets -/

omit [DecidableEq α] in
/-- One of several searches has failed. -/
theorem exists_of_searchAll_cycle {f : List α → α → Outcome α} {l seen : List α}
    (h : searchAll f seen l = .cycle) : ∃ a ∈ l, ∃ seen, f seen a = .cycle := by
  induction l generalizing seen with
  | nil => cases h
  | cons a l ih =>
    unfold searchAll at h
    split at h
    case h_1 seen₁ hfirst =>
      obtain ⟨b, hb, hcycle⟩ := ih h
      exact ⟨b, List.mem_cons_of_mem _ hb, hcycle⟩
    case h_2 hfirst => exact ⟨a, List.mem_cons_self, seen, hfirst⟩
    case h_3 => cases h

/-- A search that fails has met a cycle, if its path leads to where it starts. -/
theorem exists_cycle_of_search {depth : ℕ} {path seen : List α} {a : α}
    (hpath : ∀ p ∈ path, Leads next p a) (h : search next depth path seen a = .cycle) :
    ∃ c, Leads next c c := by
  induction depth generalizing path seen a with
  | zero => cases h
  | succ depth ih =>
    unfold search at h
    split_ifs at h with hmem
    · exact ⟨a, hpath a hmem⟩
    split at h
    case h_2 hall =>
      obtain ⟨b, hb, seen₁, hcycle⟩ := exists_of_searchAll_cycle hall
      refine ih (fun p hp => ?_) hcycle
      rcases List.mem_cons.mp hp with rfl | hp
      · exact .single hb
      · exact (hpath p hp).tail hb
    all_goals cases h

/-! ## The depth of the recursion -/

omit [DecidableEq α] in
/-- A search over a list ends if each search of an item does. -/
theorem searchAll_finishes {f : List α → α → Outcome α} {l : List α}
    (hf : ∀ a ∈ l, ∀ seen, f seen a ≠ .unfinished) (seen : List α) :
    searchAll f seen l ≠ .unfinished := by
  induction l generalizing seen with
  | nil => exact fun h => (by cases h)
  | cons a l ih =>
    unfold searchAll
    split
    case h_1 seen₁ _ => exact ih (fun b hb => hf b (List.mem_cons_of_mem _ hb)) seen₁
    case h_2 => exact fun h => (by cases h)
    case h_3 hfirst => exact absurd hfirst (hf a List.mem_cons_self seen)

/-- A path has every vertex once, so it is not longer than the list of the vertices that have
successors, and a bound beyond that is not met. -/
theorem search_finishes {vertices : List α} (hnext : ∀ a, a ∉ vertices → next a = []) {depth : ℕ}
    {path seen : List α} {a : α} (hnodup : path.Nodup) (hsub : path ⊆ vertices)
    (hdepth : vertices.length < depth + path.length) :
    search next depth path seen a ≠ .unfinished := by
  induction depth generalizing path seen a with
  | zero =>
    have hlength := (List.subperm_of_subset hnodup hsub).length_le
    omega
  | succ depth ih =>
    unfold search
    split_ifs with hpath hmem
    · intro h
      cases h
    · intro h
      cases h
    have hall : searchAll (search next depth (a :: path)) seen (next a) ≠ .unfinished := by
      by_cases ha : a ∈ vertices
      · refine searchAll_finishes (fun b _ seen => ?_) seen
        refine ih (List.nodup_cons.mpr ⟨hpath, hnodup⟩) (List.cons_subset.mpr ⟨ha, hsub⟩) ?_
        rw [List.length_cons]
        omega
      · rw [hnext a ha]
        intro h
        cases h
    split
    case h_1 => exact fun h => (by cases h)
    case h_2 => exact fun h => (by cases h)
    case h_3 hunfinished => exact absurd hunfinished hall

omit [DecidableEq α] in
/-- Searches that agree wherever the first one ends agree over a list. -/
theorem searchAll_congr {f g : List α → α → Outcome α} {l seen : List α}
    (hfg : ∀ a seen, f seen a ≠ .unfinished → g seen a = f seen a)
    (h : searchAll f seen l ≠ .unfinished) : searchAll g seen l = searchAll f seen l := by
  induction l generalizing seen with
  | nil => rfl
  | cons a l ih =>
    have hfirst : f seen a ≠ .unfinished := by
      intro hunfinished
      rw [searchAll, hunfinished] at h
      exact h rfl
    have heq := hfg a seen hfirst
    unfold searchAll at h ⊢
    rw [heq]
    split
    case h_1 seen₁ hvisited =>
      rw [hvisited] at h
      exact ih h
    all_goals rfl

/-- A larger bound makes no difference to a search that has finished. -/
theorem search_of_le {depth depth' : ℕ} (hle : depth ≤ depth') {path seen : List α} {a : α}
    (h : search next depth path seen a ≠ .unfinished) :
    search next depth' path seen a = search next depth path seen a := by
  induction depth generalizing depth' path seen a with
  | zero => exact absurd rfl h
  | succ depth ih =>
    obtain ⟨depth', rfl⟩ : ∃ n, depth' = n + 1 := ⟨depth' - 1, by omega⟩
    unfold search at h ⊢
    split_ifs with hpath hmem
    · rfl
    · rfl
    rw [if_neg hpath, if_neg hmem] at h
    have hall : searchAll (search next depth (a :: path)) seen (next a) ≠ .unfinished := by
      intro hunfinished
      rw [hunfinished] at h
      exact h rfl
    rw [searchAll_congr (fun _ _ => ih (by omega)) hall]

end OsAgent.Library.DepthFirst
