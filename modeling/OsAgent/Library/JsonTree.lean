import OsAgent.Library.JsonParse

/-!
# JSON data up to the order of properties

Two objects are the same up to the order of their properties if each name has the same value in both.
`JsonTree` is JSON data in which an object is what its names have as values, so that data are equal up to
the order, at any depth, if they have the same tree.
-/

namespace OsAgent.Library

/-! ## Properties -/

/-- The value of a property. -/
def property? (key : String) (ps : List (String × JsonValue)) : Option JsonValue :=
  (ps.find? fun p => p.1 = key).map Prod.snd

/-- Removes a property. -/
def deleteProperty (key : String) (ps : List (String × JsonValue)) : List (String × JsonValue) :=
  ps.filter fun p => p.1 ≠ key

/-- The names of the properties. -/
def keysOf (ps : List (String × JsonValue)) : List String := ps.map Prod.fst

section Properties

variable {key k : String} {v : JsonValue} {ps : List (String × JsonValue)}

/-- Without properties none is found. -/
@[simp]
theorem property?_nil : property? key [] = none := rfl

/-- The first property that has the name is found. -/
theorem property?_cons (p : String × JsonValue) (ps : List (String × JsonValue)) :
    property? key (p :: ps) = if p.1 = key then some p.2 else property? key ps := by
  unfold property?
  rw [List.find?_cons]
  split_ifs with h
  · rw [decide_eq_true h]
    rfl
  · rw [decide_eq_false h]

/-- A property that is found is there. -/
theorem mem_of_property? (h : property? key ps = some v) : (key, v) ∈ ps := by
  unfold property? at h
  obtain ⟨p, hp, rfl⟩ := Option.map_eq_some_iff.mp h
  have hkey := List.find?_some hp
  rw [decide_eq_true_eq] at hkey
  rw [← hkey]
  exact List.mem_of_find?_eq_some hp

/-- No property is found exactly if the name is no key. -/
theorem property?_eq_none : property? key ps = none ↔ key ∉ keysOf ps := by
  induction ps with
  | nil => simp [keysOf]
  | cons p ps ih =>
    rw [property?_cons]
    unfold keysOf at ih ⊢
    rw [List.map_cons, List.mem_cons, not_or]
    split_ifs with h
    · exact iff_of_false (by simp) fun hnot => hnot.1 h.symm
    · rw [ih]
      exact ⟨fun hps => ⟨fun heq => h heq.symm, hps⟩, And.right⟩

/-- Under every key a property is found. -/
theorem exists_property? (h : key ∈ keysOf ps) : ∃ v, property? key ps = some v := by
  cases hproperty : property? key ps with
  | none => exact absurd h (property?_eq_none.mp hproperty)
  | some v => exact ⟨v, rfl⟩

/-- A property whose name no other one has is found. -/
theorem property?_of_mem {qs : List (String × JsonValue)} (h : (keysOf qs).Nodup)
    {q : String × JsonValue} (hq : q ∈ qs) : property? q.1 qs = some q.2 := by
  induction qs with
  | nil => cases hq
  | cons p qs ih =>
    unfold keysOf at h ih
    rw [List.map_cons, List.nodup_cons] at h
    rw [property?_cons]
    rcases List.mem_cons.mp hq with rfl | hq
    · rw [if_pos rfl]
    · have hne : p.1 ≠ q.1 := by
        intro heq
        rw [heq] at h
        exact h.1 (List.mem_map_of_mem hq)
      rw [if_neg hne]
      exact ih h.2 hq

/-- Behind properties that lack the name, those that follow are searched alone. -/
theorem property?_append_of_not_mem {qs : List (String × JsonValue)} (h : key ∉ keysOf ps) :
    property? key (ps ++ qs) = property? key qs := by
  induction ps with
  | nil => rfl
  | cons p ps ih =>
    have hne : p.1 ≠ key := fun heq => h (heq ▸ List.mem_cons_self)
    have hrest := ih fun hmem => h (List.mem_cons_of_mem _ hmem)
    rw [List.cons_append, property?_cons, if_neg hne, hrest]

/-- After a property was set it has the new value, and the others theirs. -/
theorem property?_setProperty (k key : String) (v : JsonValue) (ps : List (String × JsonValue)) :
    property? k (setProperty key v ps) = if key = k then some v else property? k ps := by
  induction ps with
  | nil => exact property?_cons _ _
  | cons p ps ih =>
    unfold setProperty
    split_ifs with hp hk hk
    · rw [property?_cons, if_pos (hp.trans hk)]
    · rw [property?_cons, property?_cons, hp, if_neg hk, if_neg hk]
    · rw [property?_cons, ih, if_pos hk, if_neg (fun h => hp (h.trans hk.symm))]
    · rw [property?_cons, property?_cons, ih, if_neg hk]

/-- After a property was set it is the only one that is new. -/
theorem mem_of_mem_setProperty {p : String × JsonValue} (h : p ∈ setProperty key v ps) :
    p ∈ ps ∨ p = (key, v) := by
  induction ps with
  | nil => exact .inr (List.mem_singleton.mp h)
  | cons q ps ih =>
    unfold setProperty at h
    split_ifs at h with hkey
    · rcases List.mem_cons.mp h with h | h
      · rw [hkey] at h
        exact .inr h
      · exact .inl (List.mem_cons_of_mem _ h)
    · rcases List.mem_cons.mp h with h | h
      · exact .inl (h ▸ List.mem_cons_self)
      · exact (ih h).imp_left (List.mem_cons_of_mem _)

/-- To set a property adds its key if it is missing. -/
theorem keysOf_setProperty (key : String) (v : JsonValue) (ps : List (String × JsonValue)) :
    keysOf (setProperty key v ps) = if key ∈ keysOf ps then keysOf ps else keysOf ps ++ [key] := by
  induction ps with
  | nil => rfl
  | cons q ps ih =>
    unfold keysOf at ih ⊢
    unfold setProperty
    rw [List.map_cons]
    split_ifs with hq h h
    · rfl
    · exact absurd (List.mem_cons.mpr (.inl hq.symm)) h
    · have hmem : key ∈ ps.map Prod.fst := (List.mem_cons.mp h).resolve_left fun heq => hq heq.symm
      rw [List.map_cons, ih, if_pos hmem]
    · have hnot : key ∉ ps.map Prod.fst := fun hmem => h (List.mem_cons_of_mem _ hmem)
      rw [List.map_cons, ih, if_neg hnot, List.cons_append]

/-- An object is readable if its keys are distinct and its values are readable. -/
theorem readable_object {numbers : List Char → Option String} :
    (JsonValue.object ps).Readable numbers ↔ (keysOf ps).Nodup ∧ ∀ p ∈ ps, p.2.Readable numbers := by
  constructor
  · intro h
    cases h with
    | object hnodup hproperties => exact ⟨hnodup, hproperties⟩
  · rintro ⟨hnodup, hproperties⟩
    exact .object hnodup hproperties

/-- A readable object with a readable property set is readable. -/
theorem readable_setProperty {numbers : List Char → Option String} (hv : v.Readable numbers)
    (h : (JsonValue.object ps).Readable numbers) :
    (JsonValue.object (setProperty key v ps)).Readable numbers := by
  cases h with
  | object hnodup hproperties =>
    apply JsonValue.Readable.object
    · show (keysOf (setProperty key v ps)).Nodup
      rw [keysOf_setProperty]
      split_ifs with hmem
      · exact hnodup
      · exact List.nodup_append.mpr ⟨hnodup, List.nodup_cons.mpr ⟨List.not_mem_nil, List.nodup_nil⟩,
          fun a ha b hb heq => hmem (by rw [← List.mem_singleton.mp hb, ← heq]; exact ha)⟩
    · intro p hp
      rcases mem_of_mem_setProperty hp with hp | rfl
      · exact hproperties p hp
      · exact hv

/-- A property that was deleted is not found, and the others are as before. -/
theorem property?_deleteProperty (k key : String) (ps : List (String × JsonValue)) :
    property? k (deleteProperty key ps) = if key = k then none else property? k ps := by
  induction ps with
  | nil => exact (ite_self none).symm
  | cons p ps ih =>
    unfold deleteProperty at ih ⊢
    rw [List.filter_cons]
    by_cases hp : p.1 = key
    · rw [if_neg (by simp [hp]), ih, property?_cons]
      split_ifs with hk h
      · rfl
      · exact absurd (hp.symm.trans h) hk
      · rfl
    · rw [if_pos (by simp [hp]), property?_cons, property?_cons, ih]
      split_ifs with h hk
      · exact absurd (h.trans hk.symm) hp
      · rfl
      · rfl
      · rfl

end Properties

/-- Every key of every object in the data satisfies a condition. -/
inductive JsonValue.Named (P : String → Prop) : JsonValue → Prop
  | null : Named P .null
  | boolean (b : Bool) : Named P (.boolean b)
  | number (literal : String) : Named P (.number literal)
  | string (s : String) : Named P (.string s)
  | array {items : List JsonValue} (hitems : ∀ v ∈ items, Named P v) : Named P (.array items)
  | object {properties : List (String × JsonValue)} (hkeys : ∀ p ∈ properties, P p.1)
      (hproperties : ∀ p ∈ properties, Named P p.2) : Named P (.object properties)

/-! ## Trees -/

/-- JSON data up to the order of the properties of objects. -/
inductive JsonTree where
  /-- What has no parts. -/
  | leaf (v : JsonValue)
  | array (items : List JsonTree)
  | object (property : String → Option JsonTree)

mutual

/-- The value without the order of its properties. -/
def JsonValue.tree : JsonValue → JsonTree
  | .array vs => .array (trees vs)
  | .object ps => .object fun key => branch ps key
  | v => .leaf v

/-- The trees of the items of an array. -/
def trees : List JsonValue → List JsonTree
  | [] => []
  | v :: vs => v.tree :: trees vs

/-- The tree of a property of an object. -/
def branch : List (String × JsonValue) → String → Option JsonTree
  | [], _ => none
  | (k, v) :: ps, key => if k = key then some v.tree else branch ps key

end

/-- The trees of items are those of each. -/
theorem trees_eq (vs : List JsonValue) : trees vs = vs.map JsonValue.tree := by
  induction vs with
  | nil => rfl
  | cons v vs ih =>
    unfold trees
    rw [ih]
    rfl

/-- A branch is the tree of the property. -/
theorem branch_eq (ps : List (String × JsonValue)) (key : String) :
    branch ps key = (property? key ps).map JsonValue.tree := by
  induction ps with
  | nil => rfl
  | cons p ps ih =>
    obtain ⟨k, v⟩ := p
    unfold branch
    rw [property?_cons, ih]
    split_ifs <;> rfl

/-- The tree of an array has those of its items. -/
theorem tree_array (vs : List JsonValue) :
    (JsonValue.array vs).tree = .array (vs.map JsonValue.tree) := by
  rw [← trees_eq]
  rfl

/-- The tree of an object has under each key that of its property. -/
theorem tree_object (ps : List (String × JsonValue)) :
    (JsonValue.object ps).tree = .object fun key => (property? key ps).map JsonValue.tree := by
  show JsonTree.object (fun key => branch ps key) = _
  rw [funext (branch_eq ps)]

/-- What has the tree of an object is an object. -/
theorem eq_object_of_tree {v : JsonValue} {f : String → Option JsonTree} (h : v.tree = .object f) :
    ∃ ps, v = .object ps ∧ ∀ key, (property? key ps).map JsonValue.tree = f key := by
  cases v with
  | object ps =>
    rw [tree_object] at h
    exact ⟨ps, rfl, fun key => congrFun (JsonTree.object.inj h) key⟩
  | array vs =>
    rw [tree_array] at h
    cases h
  | _ => cases h

/-- What has the tree of an array is an array. -/
theorem eq_array_of_tree {v : JsonValue} {items : List JsonTree} (h : v.tree = .array items) :
    ∃ vs, v = .array vs ∧ vs.map JsonValue.tree = items := by
  cases v with
  | array vs =>
    rw [tree_array] at h
    exact ⟨vs, rfl, JsonTree.array.inj h⟩
  | object ps =>
    rw [tree_object] at h
    cases h
  | _ => cases h

/-- A value with the tree of a leaf is that leaf. -/
theorem eq_of_tree_leaf {v w : JsonValue} (h : v.tree = .leaf w) : v = w := by
  cases v with
  | array vs =>
    rw [tree_array] at h
    cases h
  | object ps =>
    rw [tree_object] at h
    cases h
  | _ => exact JsonTree.leaf.inj h

/-- The names in a value are those in its tree, if no object has a name twice. -/
theorem named_of_tree {numbers : List Char → Option String} {P : String → Prop} {v w : JsonValue}
    (hv : v.Readable numbers) (hw : w.Named P) (h : v.tree = w.tree) : v.Named P := by
  induction hw generalizing v with
  -- The items of two arrays with the same tree have the same trees.
  | @array items _ ih =>
    rw [tree_array] at h
    obtain ⟨vs, rfl, hvs⟩ := eq_array_of_tree h
    cases hv with
    | array hitems =>
      apply JsonValue.Named.array
      intro x hx
      have hmem : x.tree ∈ vs.map JsonValue.tree := List.mem_map_of_mem hx
      rw [hvs] at hmem
      obtain ⟨y, hy, htree⟩ := List.mem_map.mp hmem
      exact ih y hy (hitems x hx) htree.symm
  -- Two objects with the same tree have the same names, and the same tree at each.
  | @object qs hkeys _ ih =>
    rw [tree_object] at h
    obtain ⟨ps, rfl, hps⟩ := eq_object_of_tree h
    cases hv with
    | object hnodup hproperties =>
      have hfound : ∀ p ∈ ps, ∃ y, (p.1, y) ∈ qs ∧ y.tree = p.2.tree := by
        intro p hp
        have hsame := hps p.1
        rw [property?_of_mem hnodup hp, Option.map_some] at hsame
        obtain ⟨y, hy, htree⟩ := Option.map_eq_some_iff.mp hsame.symm
        exact ⟨y, mem_of_property? hy, htree⟩
      apply JsonValue.Named.object
      · intro p hp
        obtain ⟨y, hy, -⟩ := hfound p hp
        exact hkeys (p.1, y) hy
      · intro p hp
        obtain ⟨y, hy, htree⟩ := hfound p hp
        exact ih _ hy (hproperties p hp) htree.symm
  | null => rw [eq_of_tree_leaf h]; exact .null
  | boolean b => rw [eq_of_tree_leaf h]; exact .boolean b
  | number literal => rw [eq_of_tree_leaf h]; exact .number literal
  | string s => rw [eq_of_tree_leaf h]; exact .string s

/-- Names that satisfy a condition satisfy every weaker one. -/
theorem JsonValue.Named.imp {P Q : String → Prop} (himp : ∀ key, P key → Q key) {v : JsonValue}
    (h : v.Named P) : v.Named Q := by
  induction h with
  | null => exact .null
  | boolean b => exact .boolean b
  | number literal => exact .number literal
  | string s => exact .string s
  | array _ ih => exact .array fun v hv => ih v hv
  | object hkeys _ ih => exact .object (fun p hp => himp _ (hkeys p hp)) fun p hp => ih p hp

end OsAgent.Library
