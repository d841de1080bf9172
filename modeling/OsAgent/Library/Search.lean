import Mathlib.Data.List.Basic

/-!
# Changing an element that was searched for

A program searches a list for an object and changes the object in place. Here the change replaces
the element that the search finds. Both searches split the list at that element
(`exists_modifyFirst`, `exists_modifyLast`).
-/

namespace OsAgent.Library

variable {α : Type*} {p : α → Bool} {f : α → α} {l : List α} {a : α}

/-- `Array.prototype.findLast`. -/
def findLast? (p : α → Bool) (l : List α) : Option α := l.reverse.find? p

/-- Changes the first element that satisfies `p`. -/
def modifyFirst (p : α → Bool) (f : α → α) : List α → List α
  | [] => []
  | a :: l => if p a then f a :: l else a :: modifyFirst p f l

/-- Changes the last element that satisfies `p`. -/
def modifyLast (p : α → Bool) (f : α → α) (l : List α) : List α :=
  (modifyFirst p f l.reverse).reverse

/-- Where the search finds an element, and what is there when it has been changed. -/
theorem exists_modifyFirst (h : l.find? p = some a) :
    ∃ before after, p a = true ∧ l = before ++ a :: after ∧ (∀ b ∈ before, p b = false) ∧
      modifyFirst p f l = before ++ f a :: after := by
  induction l with
  | nil => cases h
  | cons b l ih =>
    by_cases hb : p b = true
    · rw [List.find?_cons_of_pos hb] at h
      obtain rfl := Option.some.inj h
      refine ⟨[], l, hb, rfl, by simp, ?_⟩
      rw [modifyFirst, if_pos hb]
      rfl
    · rw [List.find?_cons_of_neg hb] at h
      obtain ⟨before, after, ha, rfl, hbefore, hchanged⟩ := ih h
      refine ⟨b :: before, after, ha, rfl, ?_, ?_⟩
      · intro c hc
        rcases List.mem_cons.mp hc with rfl | hc
        · simpa using hb
        · exact hbefore c hc
      · rw [modifyFirst, if_neg hb, hchanged]
        rfl

/-- Where the search from the end finds an element, and what is there when it has been changed. -/
theorem exists_modifyLast (h : findLast? p l = some a) :
    ∃ before after, p a = true ∧ l = before ++ a :: after ∧ (∀ b ∈ after, p b = false) ∧
      modifyLast p f l = before ++ f a :: after := by
  obtain ⟨after, before, ha, hl, hafter, hchanged⟩ := exists_modifyFirst (f := f) h
  refine ⟨before.reverse, after.reverse, ha, ?_, ?_, ?_⟩
  · rw [← l.reverse_reverse, hl]
    simp
  · intro b hb
    exact hafter b (List.mem_reverse.mp hb)
  · unfold modifyLast
    rw [hchanged]
    simp

/-- If the last element satisfies `p`, it is the one that is changed. -/
theorem modifyLast_concat (h : p a = true) : modifyLast p f (l ++ [a]) = l ++ [f a] := by
  unfold modifyLast
  rw [List.reverse_append, List.reverse_singleton, List.singleton_append, modifyFirst, if_pos h,
    List.reverse_cons, List.reverse_reverse]

/-- The search from the end finds nothing when no element satisfies `p`. -/
theorem findLast?_eq_none : findLast? p l = none ↔ ∀ a ∈ l, p a = false := by
  unfold findLast?
  simp

/-- What the search from the end finds is an element of the list. -/
theorem mem_of_findLast? (h : findLast? p l = some a) : a ∈ l ∧ p a = true := by
  unfold findLast? at h
  exact ⟨List.mem_reverse.mp (List.mem_of_find?_eq_some h), List.find?_some h⟩

/-! ## Maps -/

section Maps

variable {κ β : Type*} [DecidableEq κ] {entries : List (κ × β)} {key : κ} {value : β}

/-- `new Map(entries).get(key)`: a later entry replaces an earlier one. -/
def mapGet (entries : List (κ × β)) (key : κ) : Option β :=
  (findLast? (fun e => e.1 = key) entries).map Prod.snd

/-- A value that is got from a map is one of its entries. -/
theorem mapGet_eq_some (h : mapGet entries key = some value) : (key, value) ∈ entries := by
  unfold mapGet at h
  obtain ⟨entry, hentry, rfl⟩ := Option.map_eq_some_iff.mp h
  obtain ⟨hmem, hkey⟩ := mem_of_findLast? hentry
  rw [decide_eq_true_eq] at hkey
  rw [← hkey]
  exact hmem

/-- A key of an entry gets a value. -/
theorem exists_mapGet (h : (key, value) ∈ entries) : ∃ found, mapGet entries key = some found := by
  unfold mapGet
  cases hfound : findLast? (fun e : κ × β => e.1 = key) entries with
  | none =>
    have hnone := findLast?_eq_none.mp hfound (key, value) h
    simp at hnone
  | some entry => exact ⟨entry.2, rfl⟩

/-- `map.set(key, value)` after which another key is looked up. -/
theorem mapGet_append (entries : List (κ × β)) (key : κ) (value : β) (other : κ) :
    mapGet (entries ++ [(key, value)]) other = if key = other then some value else mapGet entries other := by
  unfold mapGet findLast?
  rw [List.reverse_append, List.reverse_singleton, List.singleton_append, List.find?_cons]
  by_cases h : key = other
  · simp [h]
  · simp [h]

end Maps

end OsAgent.Library
