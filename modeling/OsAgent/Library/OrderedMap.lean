import Mathlib.Data.List.Basic
import Mathlib.Data.List.Nodup
import Mathlib.Data.List.Perm.Basic

/-!
# Maps that remember the order of insertion

A map whose entries carry their own key and are kept in the order in which the keys were first
inserted. Inserting an entry whose key is present replaces that entry in place; an entry with a new
key goes to the end. This is the order that a program sees when it spreads the values of such a map
into an array, so the entries are a list, and the keys' being distinct is part of the structure.

`get?_insert_self`, `get?_insert_of_ne`, `get?_delete_self`, and `get?_delete_of_ne` determine a map
by its lookups. `entries_perm_delete` and `entries_insert_perm` say what an operation does to the
entries as a multiset, which is what a proof that nothing is lost or duplicated needs.
-/

namespace OsAgent.Library

/-- A finite map from keys to the entries that carry them, in insertion order. -/
structure OrderedMap {E K : Type*} (key : E → K) where
  /-- The entries, oldest key first. -/
  entries : List E
  /-- No key occurs twice. -/
  nodup : (entries.map key).Nodup
deriving DecidableEq

namespace OrderedMap

variable {E K : Type*} {key : E → K}

/-- The map without entries. -/
def empty : OrderedMap key := ⟨[], List.nodup_nil⟩

instance : Inhabited (OrderedMap key) := ⟨empty⟩

/-- The number of entries. -/
def size (m : OrderedMap key) : ℕ := m.entries.length

/-- The keys, oldest first. -/
def keys (m : OrderedMap key) : List K := m.entries.map key

/-- Applies a function that keeps the keys to every entry. -/
def map (m : OrderedMap key) (f : E → E) (hf : ∀ e, key (f e) = key e) : OrderedMap key :=
  ⟨m.entries.map f, by
    rw [List.map_map, show key ∘ f = key from funext hf]
    exact m.nodup⟩

/-- Drops the oldest entries until at most `limit` are left. -/
def dropOldest (m : OrderedMap key) (limit : ℕ) : OrderedMap key :=
  ⟨m.entries.drop (m.entries.length - limit), ((List.drop_sublist _ _).map key).nodup m.nodup⟩

/-- Maps with the same entries are equal. -/
@[ext]
theorem ext {m m' : OrderedMap key} (h : m.entries = m'.entries) : m = m' := by
  cases m; cases m'; simp_all

/-- The empty map has no entries. -/
@[simp]
theorem entries_empty : (empty : OrderedMap key).entries = [] := rfl

/-- The empty map has size zero. -/
@[simp]
theorem size_empty : (empty : OrderedMap key).size = 0 := rfl

/-- The entries of a changed map are the changed entries. -/
@[simp]
theorem entries_map (m : OrderedMap key) (f : E → E) (hf : ∀ e, key (f e) = key e) :
    (m.map f hf).entries = m.entries.map f := rfl

/-- A map without entries is the empty map. -/
theorem entries_eq_nil_iff {m : OrderedMap key} : m.entries = [] ↔ m = empty := by
  constructor
  · intro h; exact ext h
  · rintro rfl; rfl

/-- A map of size zero is the empty map. -/
theorem size_eq_zero_iff {m : OrderedMap key} : m.size = 0 ↔ m = empty := by
  rw [size, List.length_eq_zero_iff, entries_eq_nil_iff]

variable [DecidableEq K]

/-- Replaces the entry that has the key of `e`, or appends `e`. -/
def upsert (key : E → K) (e : E) : List E → List E
  | [] => [e]
  | e' :: es => if key e' = key e then e :: es else e' :: upsert key e es

/-- Replacing or appending an entry adds no other key. -/
theorem mem_map_upsert {e : E} {k : K} {es : List E} :
    k ∈ (upsert key e es).map key ↔ k = key e ∨ k ∈ es.map key := by
  induction es with
  | nil => simp [upsert]
  | cons e' es ih =>
    unfold upsert
    split_ifs with h
    · simp [h]
    · simp only [List.map_cons, List.mem_cons, ih]
      tauto

/-- Replacing or appending an entry keeps the keys distinct. -/
theorem nodup_upsert {e : E} {es : List E} (h : (es.map key).Nodup) :
    ((upsert key e es).map key).Nodup := by
  induction es with
  | nil => simp [upsert]
  | cons e' es ih =>
    rw [List.map_cons, List.nodup_cons] at h
    unfold upsert
    split_ifs with hk
    · rw [List.map_cons, List.nodup_cons, ← hk]
      exact h
    · rw [List.map_cons, List.nodup_cons, mem_map_upsert]
      exact ⟨fun hm => hm.elim hk h.1, ih h.2⟩

/-- The entry with key `k`. -/
def get? (m : OrderedMap key) (k : K) : Option E := m.entries.find? (fun e => key e = k)

/-- Whether `k` is a key. -/
def has (m : OrderedMap key) (k : K) : Bool := (m.get? k).isSome

/-- Inserts an entry under its key. -/
def insert (m : OrderedMap key) (e : E) : OrderedMap key :=
  ⟨upsert key e m.entries, nodup_upsert m.nodup⟩

/-- Removes the entry with key `k`, if there is one. -/
def delete (m : OrderedMap key) (k : K) : OrderedMap key :=
  ⟨m.entries.filter (fun e => key e ≠ k), (List.filter_sublist.map key).nodup m.nodup⟩

/-- Inserts a list of entries in order. -/
def insertAll (m : OrderedMap key) (es : List E) : OrderedMap key := es.foldl insert m

/-- The map that a list of entries builds. -/
def ofList (es : List E) : OrderedMap key := empty.insertAll es

/-! ## Lookups -/

/-- The empty map has nothing under any key. -/
@[simp]
theorem get?_empty (k : K) : (empty : OrderedMap key).get? k = none := rfl

/-- Looking up a key of a list after `upsert`. -/
theorem find?_upsert (e : E) (k : K) (es : List E) :
    (upsert key e es).find? (fun e => key e = k) =
      if k = key e then some e else es.find? (fun e => key e = k) := by
  induction es with
  | nil =>
    unfold upsert
    split_ifs with h
    · simp [h]
    · simp [Ne.symm h]
  | cons e' es ih =>
    unfold upsert
    split_ifs with h1 h2 h2
    · simp [h2]
    · simp [h1, Ne.symm h2]
    · rw [List.find?_cons]
      simpa [h2, h1] using ih
    · rw [List.find?_cons, List.find?_cons]
      by_cases he : key e' = k
      · simp [he]
      · simpa [he, h2] using ih

/-- Looking up any key after an insertion. -/
theorem get?_insert (m : OrderedMap key) (e : E) (k : K) :
    (m.insert e).get? k = if k = key e then some e else m.get? k := find?_upsert e k m.entries

/-- An entry that was inserted is found. -/
@[simp]
theorem get?_insert_self (m : OrderedMap key) (e : E) : (m.insert e).get? (key e) = some e := by
  simp [get?_insert]

/-- To insert an entry leaves the other keys alone. -/
@[simp]
theorem get?_insert_of_ne (m : OrderedMap key) {e : E} {k : K} (h : k ≠ key e) :
    (m.insert e).get? k = m.get? k := by
  simp [get?_insert, h]

/-- An entry found under a key has that key. -/
theorem key_of_get? {m : OrderedMap key} {k : K} {e : E} (h : m.get? k = some e) : key e = k := by
  simpa using List.find?_some h

/-- An entry found by a lookup is an entry of the map. -/
theorem mem_of_get? {m : OrderedMap key} {k : K} {e : E} (h : m.get? k = some e) :
    e ∈ m.entries := List.mem_of_find?_eq_some h

/-- An entry of the map is found under its key. -/
theorem get?_of_mem {m : OrderedMap key} {e : E} (h : e ∈ m.entries) : m.get? (key e) = some e := by
  obtain ⟨es, hnd⟩ := m
  simp only [get?] at *
  induction es with
  | nil => simp at h
  | cons e' es ih =>
    rw [List.map_cons, List.nodup_cons] at hnd
    rcases List.mem_cons.mp h with rfl | h
    · simp
    · have hne : key e' ≠ key e := fun he => hnd.1 (he ▸ List.mem_map_of_mem h)
      rw [List.find?_cons]
      simp only [hne, decide_false]
      exact ih hnd.2 h

/-- Lookups and entries agree. -/
theorem get?_eq_some_iff {m : OrderedMap key} {k : K} {e : E} :
    m.get? k = some e ↔ e ∈ m.entries ∧ key e = k := by
  constructor
  · intro h; exact ⟨mem_of_get? h, key_of_get? h⟩
  · rintro ⟨h, rfl⟩; exact get?_of_mem h

/-- A key has an entry when it is among the keys. -/
theorem get?_isSome_iff {m : OrderedMap key} {k : K} : (m.get? k).isSome ↔ k ∈ m.keys := by
  simp [get?, keys, List.find?_isSome]

/-- A key without an entry is not among the keys. -/
theorem get?_eq_none_iff {m : OrderedMap key} {k : K} : m.get? k = none ↔ k ∉ m.keys := by
  rw [← get?_isSome_iff]; simp

/-- A key that was removed is not found. -/
@[simp]
theorem get?_delete_self (m : OrderedMap key) (k : K) : (m.delete k).get? k = none := by
  simp [get?, delete, List.find?_filter]

/-- Looking up any key after a removal. -/
theorem get?_delete (m : OrderedMap key) (k k' : K) :
    (m.delete k).get? k' = if k' = k then none else m.get? k' := by
  split_ifs with h
  · subst h; simp
  · simp only [get?, delete, List.find?_filter]
    congr 1
    funext e
    by_cases he : key e = k' <;> simp [he, h]

/-- To remove a key leaves the other keys alone. -/
@[simp]
theorem get?_delete_of_ne (m : OrderedMap key) {k k' : K} (h : k' ≠ k) :
    (m.delete k).get? k' = m.get? k' := by
  simp [get?_delete, h]

/-- Looking up a key after a function that keeps the keys was applied. -/
theorem get?_map (m : OrderedMap key) (f : E → E) (hf : ∀ e, key (f e) = key e) (k : K) :
    (m.map f hf).get? k = (m.get? k).map f := by
  simp only [get?, entries_map, List.find?_map]
  congr 2
  funext e
  simp [hf]

/-! ## Keys, sizes, and entries -/

/-- The keys after an insertion. -/
theorem mem_keys_insert {m : OrderedMap key} {e : E} {k : K} :
    k ∈ (m.insert e).keys ↔ k = key e ∨ k ∈ m.keys := mem_map_upsert

/-- The entries after a removal. -/
theorem mem_entries_delete {m : OrderedMap key} {k : K} {e : E} :
    e ∈ (m.delete k).entries ↔ e ∈ m.entries ∧ key e ≠ k := by
  simp [delete]

/-- The later of two insertions under a key stands. -/
theorem insert_insert (m : OrderedMap key) {e e' : E} (h : key e = key e') :
    (m.insert e).insert e' = m.insert e' := by
  obtain ⟨es, hnd⟩ := m
  apply ext
  simp only [insert]
  clear hnd
  induction es with
  | nil => simp [upsert, h]
  | cons e'' es ih =>
    by_cases hk : key e'' = key e'
    · simp [upsert, hk, h]
    · simp [upsert, hk, h, ih]

/-- Inserting the entry that is there changes nothing. -/
theorem insert_of_get? {m : OrderedMap key} {e : E} (h : m.get? (key e) = some e) :
    m.insert e = m := by
  replace h := mem_of_get? h
  obtain ⟨es, hnd⟩ := m
  apply ext
  simp only [insert] at *
  induction es with
  | nil => simp at h
  | cons e' es ih =>
    rw [List.map_cons, List.nodup_cons] at hnd
    rcases List.mem_cons.mp h with rfl | h
    · simp [upsert]
    · have hne : key e' ≠ key e := fun he => hnd.1 (he ▸ List.mem_map_of_mem h)
      rw [upsert, if_neg hne, ih hnd.2 h]

/-- An entry with a new key goes to the end. -/
theorem entries_insert_of_get?_eq_none {m : OrderedMap key} {e : E} (h : m.get? (key e) = none) :
    (m.insert e).entries = m.entries ++ [e] := by
  obtain ⟨es, hnd⟩ := m
  rw [get?_eq_none_iff] at h
  simp only [insert, keys] at *
  clear hnd
  induction es with
  | nil => simp [upsert]
  | cons e' es ih =>
    simp only [List.map_cons, List.mem_cons, not_or] at h
    rw [upsert, if_neg (Ne.symm h.1), ih h.2, List.cons_append]

/-- A map into which something was inserted has an entry. -/
theorem size_insert_pos (m : OrderedMap key) (e : E) : 0 < (m.insert e).size := by
  have hm := mem_of_get? (get?_insert_self m e)
  exact List.length_pos_of_mem hm

/-- Removing a key does not add entries. -/
theorem size_delete_le (m : OrderedMap key) (k : K) : (m.delete k).size ≤ m.size :=
  List.length_filter_le _ _

/-- The entry of a key that is present, apart from the others. -/
theorem entries_perm_delete {m : OrderedMap key} {k : K} {e : E} (h : m.get? k = some e) :
    m.entries.Perm (e :: (m.delete k).entries) := by
  obtain ⟨hm, rfl⟩ := get?_eq_some_iff.mp h
  clear h
  obtain ⟨es, hnd⟩ := m
  simp only [delete] at *
  induction es with
  | nil => simp at hm
  | cons e' es ih =>
    rw [List.map_cons, List.nodup_cons] at hnd
    rcases List.mem_cons.mp hm with rfl | h
    · have hf : es.filter (fun e' => key e' ≠ key e) = es := by
        apply List.filter_eq_self.mpr
        intro e' he'
        have hne : key e' ≠ key e := fun hk => hnd.1 (List.mem_map.mpr ⟨e', he', hk⟩)
        simpa using hne
      rw [List.filter_cons_of_neg (by simp), hf]
    · have hne : key e' ≠ key e := fun he => hnd.1 (he ▸ List.mem_map_of_mem h)
      rw [List.filter_cons_of_pos (by simpa using hne)]
      exact ((ih hnd.2 h).cons e').trans (List.Perm.swap _ _ _)

/-- What an insertion does to the other keys' entries. -/
theorem delete_insert (m : OrderedMap key) (e : E) :
    (m.insert e).delete (key e) = m.delete (key e) := by
  obtain ⟨es, hnd⟩ := m
  apply ext
  simp only [insert, delete]
  clear hnd
  induction es with
  | nil => simp [upsert]
  | cons e' es ih =>
    by_cases he : key e' = key e
    · simp [upsert, he]
    · rw [upsert, if_neg he, List.filter_cons_of_pos (by simpa using he),
        List.filter_cons_of_pos (by simpa using he), ih]

/-- The entries after an insertion, as a multiset. -/
theorem entries_insert_perm (m : OrderedMap key) (e : E) :
    (m.insert e).entries.Perm (e :: (m.delete (key e)).entries) := by
  simpa [delete_insert] using entries_perm_delete (get?_insert_self m e)

/-- What an insertion over an entry does to a count. -/
theorem countP_insert {m : OrderedMap key} {e e' : E} (p : E → Bool)
    (h : m.get? (key e) = some e') :
    (m.insert e).entries.countP p + (if p e' then 1 else 0) =
      m.entries.countP p + (if p e then 1 else 0) := by
  rw [(entries_insert_perm m e).countP_eq, (entries_perm_delete h).countP_eq,
    List.countP_cons, List.countP_cons]
  omega

/-! ## Lists of insertions -/

/-- To insert no entries changes nothing. -/
@[simp]
theorem insertAll_nil (m : OrderedMap key) : m.insertAll [] = m := rfl

/-- A list of entries is inserted one by one. -/
@[simp]
theorem insertAll_cons (m : OrderedMap key) (e : E) (es : List E) :
    m.insertAll (e :: es) = (m.insert e).insertAll es := rfl

/-- The keys after a list of insertions. -/
theorem mem_keys_insertAll {es : List E} {m : OrderedMap key} {k : K} :
    k ∈ (m.insertAll es).keys ↔ k ∈ m.keys ∨ k ∈ es.map key := by
  induction es generalizing m with
  | nil => simp
  | cons e es ih =>
    rw [insertAll_cons, ih, mem_keys_insert, List.map_cons, List.mem_cons]
    tauto

/-- An entry after an insertion is the new one or was there. -/
theorem mem_entries_insert {m : OrderedMap key} {e e' : E} (h : e' ∈ (m.insert e).entries) :
    e' = e ∨ e' ∈ m.entries := by
  rw [(entries_insert_perm m e).mem_iff, List.mem_cons, mem_entries_delete] at h
  exact h.imp_right And.left

/-- The entries after a list of insertions are among the old and the inserted ones. -/
theorem mem_entries_insertAll {es : List E} {m : OrderedMap key} {e : E}
    (h : e ∈ (m.insertAll es).entries) : e ∈ m.entries ∨ e ∈ es := by
  induction es generalizing m with
  | nil => exact Or.inl h
  | cons e' es ih =>
    rcases ih h with hm | hes
    · rcases mem_entries_insert hm with rfl | hm
      · exact Or.inr List.mem_cons_self
      · exact Or.inl hm
    · exact Or.inr (List.mem_cons_of_mem _ hes)

/-- The map that a list of entries builds has only entries of the list. -/
theorem mem_of_mem_entries_ofList {es : List E} {e : E}
    (h : e ∈ (ofList es : OrderedMap key).entries) : e ∈ es :=
  (mem_entries_insertAll h).resolve_left (by simp)

/-- A key that a list of entries has not is not in the map that the list builds. -/
theorem get?_ofList_eq_none_iff {es : List E} {k : K} :
    (ofList es : OrderedMap key).get? k = none ↔ k ∉ es.map key := by
  rw [get?_eq_none_iff, ofList, mem_keys_insertAll]
  simp [keys]

/-- Entries with new keys, distinct among themselves, are appended in order. -/
theorem entries_insertAll {es : List E} {m : OrderedMap key} (hnd : (es.map key).Nodup)
    (hd : ∀ e ∈ es, m.get? (key e) = none) : (m.insertAll es).entries = m.entries ++ es := by
  induction es generalizing m with
  | nil => simp
  | cons e es ih =>
    rw [List.map_cons, List.nodup_cons] at hnd
    have hrest : ∀ e' ∈ es, (m.insert e).get? (key e') = none := by
      intro e' he'
      have hne : key e' ≠ key e := fun h => hnd.1 (h ▸ List.mem_map_of_mem he')
      rw [get?_insert_of_ne _ hne]
      exact hd e' (List.mem_cons_of_mem _ he')
    rw [insertAll_cons, ih hnd.2 hrest, entries_insert_of_get?_eq_none (hd e List.mem_cons_self)]
    simp

/-- A list of entries with distinct keys is the map's entries. -/
theorem entries_ofList {es : List E} (hnd : (es.map key).Nodup) :
    (ofList es : OrderedMap key).entries = es := by
  simpa [ofList] using entries_insertAll (m := (empty : OrderedMap key)) hnd (by simp)

/-- Reading a map's entries back gives the map. -/
@[simp]
theorem ofList_entries (m : OrderedMap key) : ofList m.entries = m :=
  ext (entries_ofList m.nodup)

end OrderedMap

end OsAgent.Library
