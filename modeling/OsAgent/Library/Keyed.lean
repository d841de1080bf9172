import Mathlib.Data.List.Perm.Basic
import Mathlib.Data.List.Nodup

/-!
# Lists whose elements have keys

Queues whose elements are known by a key. `newIn key before after` are the elements of `after` whose
keys are not among those of `before`: what a queue gained, read one way, and what is left of it, read
the other way.
-/

namespace OsAgent.Library

variable {α κ : Type*} [DecidableEq κ] (key : α → κ)

/-- The elements of a list whose keys are not among those of another. -/
def newIn (before after : List α) : List α := after.filter fun a => key a ∉ before.map key

/-- What is new is in the list afterwards, and its key was not there before. -/
theorem mem_newIn {before after : List α} {a : α} :
    a ∈ newIn key before after ↔ a ∈ after ∧ key a ∉ before.map key := by
  simp [newIn]

/-- What is new is a part of the list, in its order. -/
theorem newIn_sublist (before after : List α) : (newIn key before after).Sublist after :=
  List.filter_sublist

/-- Nothing of a part of a list is new in it. -/
theorem newIn_eq_nil {before after : List α} (h : ∀ a ∈ after, a ∈ before) :
    newIn key before after = [] := by
  rw [newIn, List.filter_eq_nil_iff]
  intro a ha
  simpa using ⟨a, h a ha, rfl⟩

/-- What is appended under new keys is new. -/
theorem newIn_append {l more : List α} (h : ∀ a ∈ more, key a ∉ l.map key) :
    newIn key l (l ++ more) = more := by
  have hold : newIn key l l = [] := newIn_eq_nil key fun _ h => h
  have hnew : newIn key l more = more := by
    rw [newIn, List.filter_eq_self]
    intro a ha
    simpa using h a ha
  rw [newIn, List.filter_append]
  exact (congrArg₂ (· ++ ·) hold hnew).trans (List.nil_append more)

/-- An element of a list with one more at its end is that one or was there. -/
theorem eq_append_cons_of_concat {l before after : List α} {a b : α}
    (h : l ++ [a] = before ++ b :: after) :
    (l = before ∧ a = b ∧ after = []) ∨ ∃ rest, l = before ++ b :: rest := by
  rcases after.eq_nil_or_concat with rfl | ⟨rest, c, rfl⟩
  · obtain ⟨hl, hb⟩ := List.append_inj' h rfl
    exact .inl ⟨hl, by simpa using hb, rfl⟩
  · rw [List.concat_eq_append, ← List.cons_append, ← List.append_assoc] at h
    exact .inr ⟨rest, (List.append_inj' h rfl).1⟩

/-- If no key is on more than `n` elements, a list has at most `n` elements for each of its keys. -/
theorem length_le_mul_of_keys {l : List α} {keys : List κ} {n : ℕ} (hkeys : ∀ a ∈ l, key a ∈ keys)
    (hn : ∀ k, (l.filter fun a => key a = k).length ≤ n) : l.length ≤ n * keys.length := by
  induction keys generalizing l with
  | nil =>
    have hl : l = [] := List.eq_nil_iff_forall_not_mem.mpr fun a ha => by simpa using hkeys a ha
    rw [hl]
    simp
  | cons k keys ih =>
    -- The elements that have the first key, and the others.
    have hsplit := List.length_eq_length_filter_add (l := l) fun a => decide (key a = k)
    have hfirst := hn k
    have hrest : (l.filter fun a => !decide (key a = k)).length ≤ n * keys.length := by
      apply ih
      · intro a ha
        obtain ⟨hmem, hne⟩ := List.mem_filter.mp ha
        have hcons := hkeys a hmem
        simp_all
      · intro k'
        have hsub := List.filter_sublist (l := l) (p := fun a => !decide (key a = k))
        exact Nat.le_trans (hsub.filter _).length_le (hn k')
    rw [List.length_cons, Nat.mul_add, Nat.mul_one]
    omega

/-- If what the elements hold is distinct, at most one of them holds a given thing. -/
theorem length_filter_le_one {β : Type*} {l : List α} {holds : α → List β}
    (h : (l.flatMap holds).Nodup) {p : α → Bool} {b : β} (hp : ∀ a ∈ l, p a = true → b ∈ holds a) :
    (l.filter p).length ≤ 1 := by
  induction l with
  | nil => simp
  | cons a l ih =>
    rw [List.flatMap_cons, List.nodup_append] at h
    have hrest := ih h.2.1 fun c hc => hp c (List.mem_cons_of_mem a hc)
    by_cases ha : p a = true
    · have hnone : l.filter p = [] := by
        rw [List.filter_eq_nil_iff]
        intro c hc hpc
        have hleft := hp a List.mem_cons_self ha
        have hright := List.mem_flatMap.mpr ⟨c, hc, hp c (List.mem_cons_of_mem a hc) hpc⟩
        exact h.2.2 b hleft b hright rfl
      rw [List.filter_cons_of_pos ha, hnone]
      simp
    · rwa [List.filter_cons_of_neg ha]

section Distinct

variable {l taken : List α}

/-- With distinct keys, the elements with the keys of a sublist are those of the sublist. -/
theorem filter_key_mem (hl : (l.map key).Nodup) (hs : taken.Sublist l) :
    l.filter (fun a => key a ∈ taken.map key) = taken := by
  induction hs with
  | slnil => rfl
  | @cons taken l a hs ih =>
    rw [List.map_cons, List.nodup_cons] at hl
    have hnot : key a ∉ taken.map key := fun h => hl.1 ((hs.map key).subset h)
    rw [List.filter_cons_of_neg (by simpa using hnot), ih hl.2]
  | @cons_cons taken l a hs ih =>
    rw [List.map_cons, List.nodup_cons] at hl
    rw [List.filter_cons_of_pos (by simp)]
    refine congrArg (a :: ·) ((List.filter_congr fun b hb => ?_).trans (ih hl.2))
    have hne : key b ≠ key a := fun h => hl.1 (h ▸ List.mem_map_of_mem hb)
    simp [hne]

/-- What is not among the rest is what was taken. -/
theorem newIn_newIn (hl : (l.map key).Nodup) (hs : taken.Sublist l) :
    newIn key (newIn key taken l) l = taken := by
  have hsame : ∀ a ∈ l, (key a ∉ (newIn key taken l).map key ↔ key a ∈ taken.map key) := by
    intro a ha
    constructor
    · intro h
      by_contra hnot
      exact h (List.mem_map_of_mem ((mem_newIn key).mpr ⟨ha, hnot⟩))
    · intro h hmem
      obtain ⟨b, hb, hkey⟩ := List.mem_map.mp hmem
      exact ((mem_newIn key).mp hb).2 (hkey ▸ h)
  calc newIn key (newIn key taken l) l
      = l.filter (fun a => key a ∈ taken.map key) :=
        List.filter_congr fun a ha => decide_eq_decide.mpr (hsame a ha)
    _ = taken := filter_key_mem key hl hs

/-- A list is what was taken from it and the rest. -/
theorem perm_append_newIn (hl : (l.map key).Nodup) (hs : taken.Sublist l) :
    l.Perm (taken ++ newIn key taken l) := by
  have h := (List.filter_append_perm (fun a => decide (key a ∈ taken.map key)) l).symm
  rw [filter_key_mem key hl hs] at h
  refine h.trans (List.Perm.append_left taken (List.Perm.of_eq ?_))
  exact List.filter_congr fun a _ => by rw [decide_not]

/-- If the first elements with a property are taken, the others with it are left. -/
theorem filter_newIn {p : α → Bool} {rest : List α} (hl : (l.map key).Nodup)
    (h : l.filter p = taken ++ rest) : (newIn key taken l).filter p = rest := by
  have hnodup : ((taken ++ rest).map key).Nodup := by
    rw [← h]
    exact hl.sublist (List.filter_sublist.map key)
  have hcomm : (newIn key taken l).filter p = newIn key taken (l.filter p) := by
    rw [newIn, newIn, List.filter_filter, List.filter_filter]
    exact List.filter_congr fun a _ => Bool.and_comm _ _
  have hrest : ∀ a ∈ rest, key a ∉ taken.map key := by
    rw [List.map_append, List.nodup_append] at hnodup
    intro a ha hmem
    exact hnodup.2.2 _ hmem _ (List.mem_map_of_mem ha) rfl
  rw [hcomm, h]
  exact newIn_append key hrest

end Distinct

end OsAgent.Library
