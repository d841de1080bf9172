import OsAgent.AgentRuntime.RequestView

/-!
# Applying what was found as changes

The changes from one value to another are applied at their paths. `applies` says what they leave of any
value that equals the first one up to the order of properties. What a change does is said of the slot at
which its path starts, and what it does within an object or an array follows from that.
-/

namespace OsAgent.AgentRuntime

open OsAgent.Library

/-! ## Changes as they are decoded -/

/-- What a change does. -/
def RequestChange.operation (change : RequestChange) : Operation :=
  if change.remove then .remove
  else
    match change.append with
    | some items => .append items
    | none =>
      match change.value with
      | .value v => .assign v
      | _ => .nothing

/-- A change is read as it was written. -/
theorem decodeOperation_toJson (change : RequestChange) :
    decodeOperation change.toJson = change.operation := by
  obtain ⟨path, value, append, remove⟩ := change
  cases value <;> cases append <;> cases remove <;> rfl

/-- A path is read as it was written. -/
theorem asString?_strings (path : List String) :
    (path.map JsonValue.string).mapM JsonValue.asString? = some path := by
  induction path with
  | nil => rfl
  | cons key path ih =>
    rw [List.map_cons, List.mapM_cons, ih]
    rfl

/-- A change that was written is applied at its path. -/
theorem applyChange_toJson (view : JsonValue) (change : RequestChange) :
    applyChange view change.toJson = changeAt change.operation change.path view := by
  have hpath : change.toJson.get? "path" = some (.array (change.path.map .string)) := by
    obtain ⟨path, value, append, remove⟩ := change
    rfl
  unfold applyChange
  rw [hpath, decodeOperation_toJson]
  dsimp only
  rw [asString?_strings]

/-! ## Changes within an object or an array -/

/-- A position below the bound is read from its numeral. -/
theorem itemIndex_toString {i bound : ℕ} (h : i < bound) :
    itemIndex bound (toString i) = some i := by
  unfold itemIndex
  rw [List.find?_range_eq_some]
  refine ⟨decide_eq_true rfl, List.mem_range.mpr h, ?_⟩
  intro j hj
  rw [Bool.not_eq_true', decide_eq_false_iff_not]
  intro heq
  have := toString_inj heq
  omega

/-- What a change does to the value at its path, when the path is the empty one. -/
def Operation.onSlot : Operation → Option JsonValue → Except ReadError (Option JsonValue)
  | .remove, _ => .ok none
  | .append items, some (.array current) => .ok (some (.array (current ++ items)))
  | .append _, _ => .error invalidAppend
  | .assign v, _ => .ok (some v)
  | .nothing, slot => .ok slot

/-- The object or the array that there is. -/
def asTarget : Option JsonValue → Except ReadError JsonValue
  | some (.object ps) => .ok (.object ps)
  | some (.array vs) => .ok (.array vs)
  | _ => .error invalidTarget

/-- What a change does to a value that may be absent, where its path starts from that value. -/
def RequestChange.onSlot (change : RequestChange) (slot : Option JsonValue) :
    Except ReadError (Option JsonValue) :=
  if change.path = [] then change.operation.onSlot slot
  else do
    let target ← asTarget slot
    let target ← changeAt change.operation change.path target
    pure (some target)

/-- A change as it is seen from the object or the array above. -/
def RequestChange.under (key : String) (change : RequestChange) : RequestChange :=
  { change with path := key :: change.path }

/-- All changes, one after the other. -/
def changeSlot (changes : List RequestChange) (slot : Option JsonValue) :
    Except ReadError (Option JsonValue) :=
  changes.foldlM (fun slot change => change.onSlot slot) slot

/-- Applies changes one after the other. -/
def changeTarget (changes : List RequestChange) (target : JsonValue) : Except ReadError JsonValue :=
  changes.foldlM (fun target change => changeAt change.operation change.path target) target

/-- The child of a value is its own property, if it can be a target. -/
theorem child_eq (parent : JsonValue) (key : String) : child parent key = asTarget (getOwn parent key) := by
  unfold child asTarget
  rfl

/-- A change further below changes what the parent has there, and the parent gets the result. -/
theorem changeAt_below {change : RequestChange} {parent : JsonValue} {key : String}
    {slot : Option JsonValue} (hpath : change.path ≠ [])
    (h : change.onSlot (getOwn parent key) = .ok slot) :
    ∃ target, slot = some target ∧ ∀ parent', define parent key target = .ok parent' →
      changeAt change.operation (key :: change.path) parent = .ok parent' := by
  unfold RequestChange.onSlot at h
  rw [if_neg hpath, bind_eq_ok] at h
  obtain ⟨target, htarget, h⟩ := h
  obtain ⟨target', htarget', h⟩ := bind_eq_ok.mp h
  cases h
  refine ⟨target', rfl, fun parent' hparent => ?_⟩
  obtain ⟨next, rest, hcons⟩ := List.exists_cons_of_ne_nil hpath
  rw [hcons] at htarget' ⊢
  have hchild : child parent key = .ok target := by
    rw [child_eq]
    exact htarget
  unfold changeAt
  rw [hchild]
  show (changeAt change.operation (next :: rest) target).bind _ = _
  rw [htarget']
  exact hparent

/-- A change below a property of an object changes the property. -/
theorem changeAt_property {change : RequestChange} {key : String} {ps : List (String × JsonValue)}
    {slot : Option JsonValue} (h : change.onSlot (property? key ps) = .ok slot) :
    ∃ qs, changeAt change.operation (key :: change.path) (.object ps) = .ok (.object qs) ∧
      property? key qs = slot ∧ ∀ k, k ≠ key → property? k qs = property? k ps := by
  -- To set the property leaves the others.
  have hset : ∀ v, property? key (setProperty key v ps) = some v ∧
      ∀ k, k ≠ key → property? k (setProperty key v ps) = property? k ps := by
    intro v
    constructor
    · rw [property?_setProperty, if_pos rfl]
    · intro k hk
      rw [property?_setProperty, if_neg (Ne.symm hk)]
  -- The change is of the property itself, or of something below it.
  cases hpath : change.path with
  | nil =>
    unfold RequestChange.onSlot at h
    rw [if_pos hpath] at h
    unfold changeAt
    cases hoperation : change.operation with
    | remove =>
      rw [hoperation] at h
      cases h
      refine ⟨_, rfl, ?_, ?_⟩
      · rw [property?_deleteProperty, if_pos rfl]
      · intro k hk
        rw [property?_deleteProperty, if_neg (Ne.symm hk)]
    | append items =>
      rw [hoperation] at h
      -- Items are added to a list only.
      unfold Operation.onSlot at h
      split at h
      · next heq => cases heq
      · next items' current heq hslot =>
        cases heq
        cases h
        refine ⟨setProperty key (.array (current ++ items)) ps, ?_, hset _⟩
        unfold Operation.perform getOwn
        dsimp only
        rw [hslot]
        rfl
      · cases h
      · next heq => cases heq
      · next heq => cases heq
    | assign v =>
      rw [hoperation] at h
      cases h
      exact ⟨_, rfl, hset v⟩
    | nothing =>
      rw [hoperation] at h
      cases h
      exact ⟨ps, rfl, rfl, fun _ _ => rfl⟩
  | cons next rest =>
    have hne : change.path ≠ [] := by
      rw [hpath]
      exact List.cons_ne_nil _ _
    -- Below it, what the path leads to is changed first and put back.
    obtain ⟨target, rfl, hbelow⟩ := @changeAt_below _ (.object ps) _ _ hne h
    refine ⟨setProperty key target ps, ?_, hset target⟩
    rw [← hpath]
    exact hbelow _ rfl

/-- Changes below a property of an object change the property. -/
theorem changeTarget_property {changes : List RequestChange} {key : String}
    {ps : List (String × JsonValue)} {slot : Option JsonValue}
    (h : changeSlot changes (property? key ps) = .ok slot) :
    ∃ qs, changeTarget (changes.map (RequestChange.under key)) (.object ps) = .ok (.object qs) ∧
      property? key qs = slot ∧ ∀ k, k ≠ key → property? k qs = property? k ps := by
  induction changes generalizing ps with
  | nil =>
    cases h
    exact ⟨ps, rfl, rfl, fun _ _ => rfl⟩
  | cons change changes ih =>
    unfold changeSlot at h
    rw [List.foldlM_cons] at h
    obtain ⟨first, hfirst, h⟩ := bind_eq_ok.mp h
    obtain ⟨qs, hqs, hkey, hframe⟩ := changeAt_property hfirst
    rw [← hkey] at h
    obtain ⟨qs', hqs', hkey', hframe'⟩ := ih h
    refine ⟨qs', ?_, hkey', ?_⟩
    · unfold changeTarget
      rw [List.map_cons, List.foldlM_cons]
      show (changeAt change.operation (key :: change.path) (.object ps)).bind _ = _
      rw [hqs]
      exact hqs'
    · intro k hk
      rw [hframe' k hk, hframe k hk]

/-- A change that does not remove a value leaves one. -/
theorem exists_of_onSlot {change : RequestChange} {v : JsonValue} {slot : Option JsonValue}
    (hremove : change.path = [] → change.remove = false) (h : change.onSlot (some v) = .ok slot) :
    ∃ w, slot = some w := by
  unfold RequestChange.onSlot at h
  split_ifs at h with hpath
  · have hkeeps : change.operation ≠ .remove := by
      unfold RequestChange.operation
      rw [hremove hpath]
      split
      · rename_i hfalse
        cases hfalse
      · split
        · exact fun heq => by cases heq
        · split <;> exact fun heq => by cases heq
    unfold Operation.onSlot at h
    split at h
    · next heq => exact absurd heq hkeeps
    · cases h
      exact ⟨_, rfl⟩
    · cases h
    · cases h
      exact ⟨_, rfl⟩
    · cases h
      exact ⟨_, rfl⟩
  · obtain ⟨target, -, h⟩ := bind_eq_ok.mp h
    obtain ⟨target', -, h⟩ := bind_eq_ok.mp h
    cases h
    exact ⟨target', rfl⟩

/-- A change below an item of an array changes the item. -/
theorem changeAt_item {change : RequestChange} {i : ℕ} {vs : List JsonValue} {w : JsonValue}
    (hi : i < vs.length) (h : change.onSlot vs[i]? = .ok (some w)) :
    changeAt change.operation (toString i :: change.path) (.array vs) = .ok (.array (vs.set i w)) := by
  -- A text of an index names the item at it.
  have hget : getOwn (.array vs) (toString i) = vs[i]? := by
    unfold getOwn
    dsimp only
    rw [itemIndex_toString hi]
    rfl
  have hdefine : ∀ v, define (.array vs) (toString i) v = .ok (.array (vs.set i v)) := by
    intro v
    unfold define
    dsimp only
    rw [itemIndex_toString (Nat.lt_succ_of_lt hi)]
    dsimp only
    rw [if_pos hi]
  -- The change is of the item itself, or of something below it.
  cases hpath : change.path with
  | nil =>
    unfold RequestChange.onSlot at h
    rw [if_pos hpath] at h
    unfold changeAt Operation.perform
    unfold Operation.onSlot at h
    split at h
    · cases h
    · next items current hoperation hslot =>
      cases h
      rw [hoperation]
      dsimp only
      rw [hget, hslot]
      exact hdefine _
    · cases h
    · next hoperation =>
      cases h
      rw [hoperation]
      exact hdefine _
    · next hoperation =>
      rw [Except.ok.injEq] at h
      rw [hoperation]
      dsimp only
      rw [List.getElem?_eq_some_iff] at h
      obtain ⟨hlt, hw⟩ := h
      rw [← hw, List.set_getElem_self]
  | cons next rest =>
    have hne : change.path ≠ [] := by
      rw [hpath]
      exact List.cons_ne_nil _ _
    rw [← hget] at h
    obtain ⟨target, hsome, hbelow⟩ := changeAt_below hne h
    obtain rfl := Option.some.inj hsome
    rw [← hpath]
    exact hbelow _ (hdefine w)

/-- Changes below an item of an array change the item, if they do not remove it. -/
theorem changeTarget_item {changes : List RequestChange} {i : ℕ} {vs : List JsonValue}
    {slot : Option JsonValue} (hi : i < vs.length)
    (hremove : ∀ change ∈ changes, change.path = [] → change.remove = false)
    (h : changeSlot changes vs[i]? = .ok slot) :
    ∃ w, slot = some w ∧ changeTarget (changes.map (RequestChange.under (toString i))) (.array vs) =
      .ok (.array (vs.set i w)) := by
  -- Along the changes: each leaves the item in its place.
  induction changes generalizing vs with
  | nil =>
    cases h
    refine ⟨vs[i], List.getElem?_eq_getElem hi, ?_⟩
    rw [List.set_getElem_self]
    rfl
  | cons change changes ih =>
    unfold changeSlot at h
    rw [List.foldlM_cons] at h
    obtain ⟨first, hfirst, h⟩ := bind_eq_ok.mp h
    have hitem := hfirst
    rw [List.getElem?_eq_getElem hi] at hitem
    obtain ⟨w, rfl⟩ := exists_of_onSlot (hremove change List.mem_cons_self) hitem
    have hset : (vs.set i w)[i]? = some w := by
      rw [List.getElem?_set_self hi]
    rw [← hset] at h
    obtain ⟨w', hw', hrest⟩ := ih (by rw [List.length_set]; exact hi)
      (fun c hc => hremove c (List.mem_cons_of_mem _ hc)) h
    refine ⟨w', hw', ?_⟩
    rw [List.set_set] at hrest
    unfold changeTarget
    rw [List.map_cons, List.foldlM_cons]
    show (changeAt change.operation (toString i :: change.path) (.array vs)).bind _ = _
    rw [changeAt_item hi hfirst]
    exact hrest

/-- What is changed stays an object or an array. -/
theorem asTarget_changeAt {operation : Operation} {path : List String} {v w : JsonValue}
    (hv : asTarget (some v) = .ok v) (h : changeAt operation path v = .ok w) :
    asTarget (some w) = .ok w := by
  -- To define a property or an item keeps the kind of the value.
  have hdefine : ∀ {key : String} {x : JsonValue}, define v key x = .ok w → asTarget (some w) = .ok w := by
    intro key x hd
    unfold define at hd
    split at hd
    · cases hd
      rfl
    · split at hd
      · cases hd
        rfl
      · cases hd
    · cases hd
  unfold changeAt at h
  split at h
  · cases h
  · unfold Operation.perform at h
    split at h
    · unfold delete at h
      split at h
      · cases h
        rfl
      · split_ifs at h
        cases h
        rfl
      · cases h
    · split at h
      · exact hdefine h
      · cases h
    · exact hdefine h
    · cases h
      exact hv
  · obtain ⟨_, -, h⟩ := bind_eq_ok.mp h
    obtain ⟨_, -, h⟩ := bind_eq_ok.mp h
    exact hdefine h

/-- Where no path is empty, changes of a value are changes of the target that it is. -/
theorem changeSlot_of_below {changes : List RequestChange} {v w : JsonValue}
    (hpath : ∀ change ∈ changes, change.path ≠ []) (hv : asTarget (some v) = .ok v)
    (h : changeTarget changes v = .ok w) : changeSlot changes (some v) = .ok (some w) := by
  induction changes generalizing v with
  | nil =>
    cases h
    rfl
  | cons change changes ih =>
    unfold changeTarget at h
    rw [List.foldlM_cons] at h
    obtain ⟨v', hv', h⟩ := bind_eq_ok.mp h
    have hslot : change.onSlot (some v) = .ok (some v') := by
      unfold RequestChange.onSlot
      rw [if_neg (hpath change List.mem_cons_self), hv]
      show (changeAt change.operation change.path v).bind _ = _
      rw [hv']
      rfl
    unfold changeSlot
    rw [List.foldlM_cons, hslot]
    exact ih (fun c hc => hpath c (List.mem_cons_of_mem _ hc)) (asTarget_changeAt hv hv') h

/-! ## What is read -/

mutual

/-- What is read of a value when the changes from another one are applied to that one. -/
def kept (old : JsonValue) : JsonValue → JsonTree
  | .object qs =>
    match old with
    | .object ps => .object fun key => keptProperty ps qs key
    | _ => (JsonValue.object qs).tree
  | .array ws =>
    match old with
    | .array vs => if vs.length = ws.length then .array (keptItems vs ws) else (JsonValue.array ws).tree
    | _ => (JsonValue.array ws).tree
  | w => w.tree

/-- What is kept of the items. -/
def keptItems : List JsonValue → List JsonValue → List JsonTree
  | v :: vs, w :: ws => kept v w :: keptItems vs ws
  | _, _ => []

/-- A property that is not there any more is read all the same if every object inherits a function of
its name. -/
def keptProperty (ps : List (String × JsonValue)) : List (String × JsonValue) → String → Option JsonTree
  | [], key => if key ∈ inheritedNames then (property? key ps).map JsonValue.tree else none
  | (k, w) :: qs, key =>
    if k = key then
      some (match property? k ps with
        | some v => kept v w
        | none => w.tree)
    else keptProperty ps qs key

end

/-- What is kept of a property is what is kept of its value. -/
theorem keptProperty_eq (ps qs : List (String × JsonValue)) (key : String) :
    keptProperty ps qs key =
      match property? key qs with
      | some w => some (match property? key ps with
        | some v => kept v w
        | none => w.tree)
      | none => if key ∈ inheritedNames then (property? key ps).map JsonValue.tree else none := by
  induction qs with
  | nil => rfl
  | cons q qs ih =>
    obtain ⟨k, w⟩ := q
    unfold keptProperty
    rw [property?_cons]
    by_cases hk : k = key
    · rw [if_pos hk, if_pos hk, hk]
    · rw [if_neg hk, if_neg hk]
      exact ih

/-- What is kept of the items is kept of each. -/
theorem keptItems_eq (vs ws : List JsonValue) : keptItems vs ws = List.zipWith kept vs ws := by
  induction vs generalizing ws with
  | nil => cases ws <;> rfl
  | cons v vs ih =>
    cases ws with
    | nil => rfl
    | cons w ws =>
      unfold keptItems
      rw [ih]
      rfl

/-- The tree of what is there. -/
def Read.tree? : Read → Option JsonTree
  | .value v => some v.tree
  | _ => none

/-- What is read where something was read before. -/
def Read.kept (old value : Read) : Option JsonTree :=
  match value with
  | .undefined => none
  | .inherited => old.tree?
  | .value w =>
    match old with
    | .value v => some (AgentRuntime.kept v w)
    | _ => some w.tree

/-- What is kept of a property that was read. -/
theorem kept_readKey (ps qs : List (String × JsonValue)) (key : String) :
    (readKey ps key).kept (readKey qs key) = keptProperty ps qs key := by
  rw [keptProperty_eq]
  unfold readKey
  cases hq : property? key qs with
  | none =>
    dsimp only
    split_ifs with hinherited
    · cases property? key ps <;> rfl
    · rfl
  | some w =>
    dsimp only
    cases property? key ps with
    | some v => rfl
    | none =>
      dsimp only
      split_ifs <;> rfl

mutual

/-- A value that does not change is read as it is. -/
theorem kept_self (v : JsonValue) : kept v v = v.tree := by
  match v with
  | .object ps =>
    show JsonTree.object (fun key => keptProperty ps ps key) = _
    rw [tree_object]
    congr 1
    funext key
    rw [keptProperty_eq]
    cases hproperty : property? key ps with
    | none =>
      dsimp only
      split_ifs <;> rfl
    | some w =>
      have hmem := mem_of_property? hproperty
      show some (kept w w) = some w.tree
      rw [kept_self_property ps (key, w) hmem]
  | .array vs =>
    show (if vs.length = vs.length then JsonTree.array (keptItems vs vs) else _) = _
    rw [if_pos rfl, tree_array, kept_self_items]
  | .null => rfl
  | .boolean _ => rfl
  | .number _ => rfl
  | .string _ => rfl

/-- Of the same items everything is kept. -/
theorem kept_self_items (vs : List JsonValue) : keptItems vs vs = vs.map JsonValue.tree := by
  match vs with
  | [] => rfl
  | v :: vs =>
    unfold keptItems
    rw [kept_self v, kept_self_items vs]
    rfl

/-- Of the same properties everything is kept. -/
theorem kept_self_property (ps : List (String × JsonValue)) :
    ∀ p ∈ ps, kept p.2 p.2 = p.2.tree := by
  match ps with
  | [] =>
    intro p hp
    cases hp
  | (k, v) :: ps =>
    intro p hp
    rcases List.mem_cons.mp hp with rfl | hp
    · exact kept_self v
    · exact kept_self_property ps p hp

end

/-! ## The changes of a value -/

/-- What has the same text is not changed. -/
theorem visit_of_text {old value : Read} (h : old.text = value.text) (path : List String) :
    visit old value path = [] := by
  rw [visit.eq_def, if_pos h]

/-- What is undefined is removed. -/
theorem visit_undefined {old : Read} (h : old.text ≠ Read.undefined.text) (path : List String) :
    visit old .undefined path = [{ path, remove := true }] := by
  rw [visit.eq_def, if_neg h]

/-- What is inherited is written. -/
theorem visit_inherited {old : Read} (h : old.text ≠ Read.inherited.text) (path : List String) :
    visit old .inherited path = [{ path, value := .inherited }] := by
  rw [visit.eq_def, if_neg h]

/-- Two objects are changed property by property. -/
theorem visit_objects {ps qs : List (String × JsonValue)}
    (h : (Read.value (.object ps)).text ≠ (Read.value (.object qs)).text) (path : List String) :
    visit (.value (.object ps)) (.value (.object qs)) path =
      (unionKeys ps qs).flatMap fun key =>
        visit (readKey ps key) (readKey qs key) (path ++ [key]) := by
  rw [visit.eq_def, if_neg h]

/-- Two lists are changed by what is appended, or item by item. -/
theorem visit_arrays {vs ws : List JsonValue}
    (h : (Read.value (.array vs)).text ≠ (Read.value (.array ws)).text) (path : List String) :
    visit (.value (.array vs)) (.value (.array ws)) path =
      if appends vs ws then [{ path, append := some (ws.drop vs.length) }]
      else if vs.length = ws.length then
        (List.range ws.length).flatMap fun i =>
          visit (readIndex vs i) (readIndex ws i) (path ++ [toString i])
      else [{ path, value := .value (.array ws) }] := by
  rw [visit.eq_def, if_neg h]

/-- A value replaces what is neither an object nor an array as itself is. -/
theorem visit_value {old : Read} {w : JsonValue} (h : old.text ≠ (Read.value w).text)
    (hobject : ∀ ps qs, old = .value (.object ps) → w ≠ .object qs)
    (harray : ∀ vs ws, old = .value (.array vs) → w ≠ .array ws) (path : List String) :
    visit old (.value w) path = [{ path, value := .value w }] := by
  rw [visit.eq_def, if_neg h]
  cases w with
  | object qs =>
    dsimp only
    split
    · next ps => exact absurd rfl (hobject ps qs rfl)
    · rfl
  | array ws =>
    dsimp only
    split
    · next vs => exact absurd rfl (harray vs ws rfl)
    · rfl
  | _ => rfl

/-- The path is only put before the paths of the changes. -/
theorem visit_append (old value : Read) (base path : List String) :
    visit old value (base ++ path) =
      (visit old value path).map fun change => { change with path := base ++ change.path } := by
  -- Along the comparison of the two values, case by case as `visit` decides.
  induction old, value, path using visit.induct with
  | case1 old value path htext =>
    rw [visit_of_text htext, visit_of_text htext]
    rfl
  | case2 old path htext =>
    rw [visit_undefined htext, visit_undefined htext]
    rfl
  | case3 old path htext =>
    rw [visit_inherited htext, visit_inherited htext]
    rfl
  | case4 path qs ps htext ih =>
    rw [visit_objects htext, visit_objects htext, List.map_flatMap]
    congr 1
    funext key
    rw [List.append_assoc, ih key]
  | case6 path ws vs happends htext =>
    rw [visit_arrays htext, visit_arrays htext, if_pos happends, if_pos happends]
    rfl
  | case7 path ws vs happends hlength htext ih =>
    rw [visit_arrays htext, visit_arrays htext, if_neg happends, if_neg happends, if_pos hlength,
      if_pos hlength, List.map_flatMap]
    congr 1
    funext i
    rw [List.append_assoc, ih i]
  | case8 path ws vs happends hlength htext =>
    rw [visit_arrays htext, visit_arrays htext, if_neg happends, if_neg happends, if_neg hlength,
      if_neg hlength]
    rfl
  | case5 old path qs hold htext =>
    have hreplace := visit_value htext (fun ps _ hps => (hold ps hps).elim) (fun _ _ _ heq => by cases heq)
    rw [hreplace, hreplace]
    rfl
  | case9 old path ws hold htext =>
    have hreplace := visit_value htext (fun _ _ _ heq => by cases heq) (fun vs _ hvs => (hold vs hvs).elim)
    rw [hreplace, hreplace]
    rfl
  | case10 old path v hobject harray htext =>
    have hreplace := visit_value htext (fun _ qs _ heq => hobject qs heq) (fun _ ws _ heq => harray ws heq)
    rw [hreplace, hreplace]
    rfl

/-- The changes of a property or an item are those of its value, below its key. -/
theorem visit_singleton (old value : Read) (key : String) :
    visit old value [key] = (visit old value []).map (RequestChange.under key) :=
  visit_append old value [key] []

/-- A value that is there is not removed. -/
theorem remove_of_visit (old : Read) (w : JsonValue) :
    ∀ change ∈ visit old (.value w) [], change.path = [] → change.remove = false := by
  -- What is changed below a key has a path that begins with the key.
  have hbelow : ∀ (a b : Read) (key : String), ∀ change ∈ visit a b ([] ++ [key]),
      change.path = [] → change.remove = false := by
    intro a b key change hchange hpath
    rw [List.nil_append, visit_singleton] at hchange
    obtain ⟨_, -, rfl⟩ := List.mem_map.mp hchange
    cases hpath
  have hone : ∀ (a : RequestChange), a.remove = false → ∀ change ∈ [a], change.path = [] →
      change.remove = false := by
    intro a ha change hchange _
    rwa [List.mem_singleton.mp hchange]
  by_cases htext : old.text = (Read.value w).text
  · rw [visit_of_text htext]
    intro change hchange
    cases hchange
  by_cases hobject : ∀ ps qs, old = .value (.object ps) → w ≠ .object qs
  · by_cases harray : ∀ vs ws, old = .value (.array vs) → w ≠ .array ws
    · rw [visit_value htext hobject harray]
      exact hone _ rfl
    · push Not at harray
      obtain ⟨vs, ws, rfl, rfl⟩ := harray
      rw [visit_arrays htext]
      split_ifs
      · exact hone _ rfl
      · intro change hchange
        obtain ⟨i, -, hi⟩ := List.mem_flatMap.mp hchange
        exact hbelow _ _ _ change hi
      · exact hone _ rfl
  · push Not at hobject
    obtain ⟨ps, qs, rfl, rfl⟩ := hobject
    rw [visit_objects htext]
    intro change hchange
    obtain ⟨key, -, hkey⟩ := List.mem_flatMap.mp hchange
    exact hbelow _ _ _ change hkey

/-! ## Applying the changes -/

/-- What was read can be written and read again. -/
def Read.Readable (numbers : List Char → Option String) : Read → Prop
  | .value v => v.Readable numbers
  | _ => True

/-- Applying the changes of a value gives what is read of it. -/
def Applies (old value : Read) : Prop :=
  ∀ slot : Option JsonValue, slot.map JsonValue.tree = old.tree? →
    ∃ slot', changeSlot (visit old value []) slot = .ok slot' ∧
      slot'.map JsonValue.tree = old.kept value

/-- What is read of a property is its tree. -/
theorem tree?_readKey (ps : List (String × JsonValue)) (key : String) :
    (readKey ps key).tree? = (property? key ps).map JsonValue.tree := by
  unfold readKey
  cases property? key ps with
  | some v => rfl
  | none =>
    dsimp only
    split_ifs <;> rfl

/-- What is read of an item is its tree. -/
theorem tree?_readIndex (vs : List JsonValue) (i : ℕ) :
    (readIndex vs i).tree? = vs[i]?.map JsonValue.tree := by
  unfold readIndex
  cases vs[i]? <;> rfl

/-- Changes are applied one list after the other. -/
theorem changeTarget_append (changes more : List RequestChange) (v : JsonValue) :
    changeTarget (changes ++ more) v = (changeTarget changes v).bind (changeTarget more) :=
  List.foldlM_append

/-- The changes of an object, key by key. -/
theorem changeTarget_keys {ps qs : List (String × JsonValue)}
    (h : ∀ key, Applies (readKey ps key) (readKey qs key)) {keys : List String} (hkeys : keys.Nodup)
    {rs : List (String × JsonValue)}
    (hrs : ∀ key ∈ keys, (property? key rs).map JsonValue.tree = (property? key ps).map JsonValue.tree) :
    ∃ rs', changeTarget (keys.flatMap fun key => visit (readKey ps key) (readKey qs key) ([] ++ [key]))
        (.object rs) = .ok (.object rs') ∧
      (∀ key ∈ keys, (property? key rs').map JsonValue.tree = keptProperty ps qs key) ∧
      ∀ key, key ∉ keys → property? key rs' = property? key rs := by
  -- Along the keys: a change of one leaves what is read at the others.
  induction keys generalizing rs with
  | nil =>
    refine ⟨rs, rfl, ?_, fun _ _ => rfl⟩
    intro key hkey
    cases hkey
  | cons key keys ih =>
    rw [List.nodup_cons] at hkeys
    have hslot := hrs key List.mem_cons_self
    rw [← tree?_readKey ps] at hslot
    obtain ⟨slot', hchanges, htree⟩ := h key _ hslot
    obtain ⟨rs₁, hrs₁, hkey, hframe⟩ := changeTarget_property hchanges
    have hothers : ∀ k ∈ keys,
        (property? k rs₁).map JsonValue.tree = (property? k ps).map JsonValue.tree := by
      intro k hk
      have hne : k ≠ key := fun heq => hkeys.1 (heq ▸ hk)
      rw [hframe k hne]
      exact hrs k (List.mem_cons_of_mem _ hk)
    -- The rest is applied to what the first key's changes gave.
    obtain ⟨rs', hrs', hdone, hrest⟩ := ih hkeys.2 hothers
    refine ⟨rs', ?_, ?_, ?_⟩
    · rw [List.flatMap_cons, changeTarget_append, List.nil_append, visit_singleton, hrs₁]
      exact hrs'
    · intro k hk
      rcases List.mem_cons.mp hk with rfl | hk
      · rw [hrest k hkeys.1, hkey, htree, kept_readKey]
      · exact hdone k hk
    · intro k hk
      rw [List.mem_cons, not_or] at hk
      rw [hrest k hk.2, hframe k hk.1]

/-- The changes of an array, item by item. -/
theorem changeTarget_items {vs ws us : List JsonValue}
    (h : ∀ i, Applies (readIndex vs i) (readIndex ws i)) (hlength : us.length = ws.length)
    (htrees : us.map JsonValue.tree = vs.map JsonValue.tree) {n : ℕ} (hn : n ≤ ws.length) :
    ∃ us', changeTarget ((List.range n).flatMap fun i =>
        visit (readIndex vs i) (readIndex ws i) ([] ++ [toString i])) (.array us) = .ok (.array us') ∧
      us'.length = us.length ∧
      (∀ i < n, us'[i]?.map JsonValue.tree = (readIndex vs i).kept (readIndex ws i)) ∧
      ∀ i, n ≤ i → us'[i]? = us[i]? := by
  -- Along the indices: a change of one item leaves the others and the length.
  induction n with
  | zero => exact ⟨us, rfl, rfl, fun i hi => absurd hi (Nat.not_lt_zero i), fun _ _ => rfl⟩
  | succ n ih =>
    obtain ⟨us₁, hus₁, hlength₁, hdone, hrest⟩ := ih (by omega)
    have hslot : us₁[n]?.map JsonValue.tree = (readIndex vs n).tree? := by
      rw [hrest n (Nat.le_refl n), tree?_readIndex, ← List.getElem?_map, htrees, List.getElem?_map]
    obtain ⟨slot', hchanges, htree⟩ := h n _ hslot
    have hvalue : readIndex ws n = .value ws[n] := by
      unfold readIndex
      rw [List.getElem?_eq_getElem (by omega)]
    -- An item is never removed: both lists have it.
    have hremove : ∀ change ∈ visit (readIndex vs n) (readIndex ws n) [], change.path = [] →
        change.remove = false := by
      rw [hvalue]
      exact remove_of_visit _ _
    obtain ⟨w, rfl, hw⟩ := changeTarget_item (by omega) hremove hchanges
    refine ⟨us₁.set n w, ?_, ?_, ?_, ?_⟩
    · rw [List.range_succ, List.flatMap_append, List.flatMap_singleton, changeTarget_append, hus₁,
        List.nil_append, visit_singleton]
      exact hw
    · rw [List.length_set, hlength₁]
    · intro i hi
      by_cases hin : i = n
      · rw [hin, List.getElem?_set_self (by omega)]
        exact htree
      · rw [List.getElem?_set_ne (Ne.symm hin)]
        exact hdone i (by omega)
    · intro i hi
      rw [List.getElem?_set_ne (by omega)]
      exact hrest i (by omega)

/-- Where no path is empty, changes of a target are changes of the value that it is. -/
theorem changeTarget_of_slot {changes : List RequestChange} {v : JsonValue} {slot : Option JsonValue}
    (hpath : ∀ change ∈ changes, change.path ≠ []) (hv : asTarget (some v) = .ok v)
    (h : changeSlot changes (some v) = .ok slot) :
    ∃ w, slot = some w ∧ changeTarget changes v = .ok w := by
  induction changes generalizing v with
  | nil =>
    cases h
    exact ⟨v, rfl, rfl⟩
  | cons change changes ih =>
    unfold changeSlot at h
    rw [List.foldlM_cons] at h
    obtain ⟨first, hfirst, h⟩ := bind_eq_ok.mp h
    unfold RequestChange.onSlot at hfirst
    rw [if_neg (hpath change List.mem_cons_self), bind_eq_ok] at hfirst
    obtain ⟨target, htarget, hfirst⟩ := hfirst
    rw [hv, Except.ok.injEq] at htarget
    obtain ⟨v', hv', hfirst⟩ := bind_eq_ok.mp hfirst
    cases hfirst
    rw [← htarget] at hv'
    obtain ⟨w, hw, hrest⟩ := ih (fun c hc => hpath c (List.mem_cons_of_mem _ hc))
      (asTarget_changeAt hv hv') h
    refine ⟨w, hw, ?_⟩
    unfold changeTarget
    rw [List.foldlM_cons]
    show (changeAt change.operation change.path v).bind _ = _
    rw [hv']
    exact hrest

/-- A property of a readable object is readable. -/
theorem readable_readKey {numbers : List Char → Option String} {ps : List (String × JsonValue)}
    (h : (JsonValue.object ps).Readable numbers) (key : String) : (readKey ps key).Readable numbers := by
  unfold readKey
  cases hproperty : property? key ps with
  | some v =>
    cases h with
    | object _ hproperties => exact hproperties _ (mem_of_property? hproperty)
  | none =>
    dsimp only
    split_ifs <;> trivial

/-- An item of a readable list is readable. -/
theorem readable_readIndex {numbers : List Char → Option String} {vs : List JsonValue}
    (h : (JsonValue.array vs).Readable numbers) (i : ℕ) : (readIndex vs i).Readable numbers := by
  unfold readIndex
  cases hitem : vs[i]? with
  | some v =>
    cases h with
    | array hitems => exact hitems _ (List.mem_of_getElem? hitem)
  | none => trivial

section Applies

variable {numbers : List Char → Option String}

/-- Where nothing has changed, nothing is read anew. -/
theorem applies_of_text {old value : Read} (hold : old.Readable numbers)
    (hvalue : value.Readable numbers) (htext : old.text = value.text) : Applies old value := by
  intro slot hslot
  rw [visit_of_text htext]
  refine ⟨slot, rfl, ?_⟩
  rw [hslot]
  cases value with
  | undefined =>
    cases old with
    | value v => cases htext
    | _ => rfl
  | inherited => rfl
  | value w =>
    cases old with
    | value v =>
      have hsame : v = w := stringify_injective hold hvalue (Option.some.inj htext)
      show some v.tree = some (kept v w)
      rw [hsame, kept_self]
    | _ => cases htext

/-- A value that takes the place of another one is read as it is, if it is not taken apart. -/
theorem applies_value {old : Read} {w : JsonValue}
    (hvisit : visit old (.value w) [] = [{ path := [], value := .value w }])
    (hkept : old.kept (.value w) = some w.tree) : Applies old (.value w) := by
  intro slot _
  rw [hvisit, hkept]
  exact ⟨some w, rfl, rfl⟩

/-- The changes of an object apply, if those of its properties do. -/
theorem applies_objects {ps qs : List (String × JsonValue)}
    (hps : (keysOf ps).Nodup) (hqs : (keysOf qs).Nodup)
    (htext : (Read.value (.object ps)).text ≠ (Read.value (.object qs)).text)
    (h : ∀ key, Applies (readKey ps key) (readKey qs key)) :
    Applies (.value (.object ps)) (.value (.object qs)) := by
  intro slot hslot
  obtain ⟨v, rfl, hv⟩ := Option.map_eq_some_iff.mp hslot
  rw [tree_object] at hv
  obtain ⟨rs, rfl, hrs⟩ := eq_object_of_tree hv
  -- The keys of both are listed once.
  have hunion : (unionKeys ps qs).Nodup := by
    refine List.nodup_append.mpr ⟨hps, hqs.filter _, ?_⟩
    rintro key hmem _ hfilter rfl
    have hnot := (List.mem_filter.mp hfilter).2
    rw [decide_eq_true_eq] at hnot
    exact hnot hmem
  obtain ⟨rs', hrs', hdone, hrest⟩ := changeTarget_keys h hunion fun key _ => hrs key
  rw [visit_objects htext]
  refine ⟨some (.object rs'), changeSlot_of_below ?_ rfl hrs', ?_⟩
  · -- Every change is below a key, so the object itself stays.
    intro change hchange
    obtain ⟨key, -, hkey⟩ := List.mem_flatMap.mp hchange
    rw [List.nil_append, visit_singleton] at hkey
    obtain ⟨_, -, rfl⟩ := List.mem_map.mp hkey
    exact List.cons_ne_nil _ _
  · show some (JsonValue.object rs').tree = some (JsonTree.object fun key => keptProperty ps qs key)
    rw [tree_object]
    congr 2
    funext key
    by_cases hkey : key ∈ unionKeys ps qs
    · exact hdone key hkey
    · -- Neither object has the key.
      unfold unionKeys at hkey
      rw [List.mem_append, not_or] at hkey
      have hp : property? key ps = none := property?_eq_none.mpr hkey.1
      have hq : property? key qs = none := by
        rw [property?_eq_none]
        intro hmem
        exact hkey.2 (List.mem_filter.mpr ⟨hmem, decide_eq_true hkey.1⟩)
      rw [hrest key (by unfold unionKeys; rw [List.mem_append, not_or]; exact hkey), hrs key, hp,
        keptProperty_eq, hq, hp]
      dsimp only
      split_ifs <;> rfl

/-- An array that goes on begins with the other one. -/
theorem eq_of_appends {vs ws : List JsonValue} (hvs : (JsonValue.array vs).Readable numbers)
    (hws : (JsonValue.array ws).Readable numbers) (h : appends vs ws = true) :
    ws = vs ++ ws.drop vs.length := by
  unfold appends at h
  rw [Bool.and_eq_true, decide_eq_true_eq, List.all_eq_true] at h
  obtain ⟨hle, hall⟩ := h
  have htake : vs = ws.take vs.length := by
    apply List.ext_getElem
    · rw [List.length_take]
      omega
    · intro i hi hi'
      rw [List.getElem_take]
      have hiw : i < ws.length := by omega
      have hmem : (vs[i], ws[i]) ∈ vs.zip ws := by
        rw [List.mem_iff_getElem]
        refine ⟨i, by rw [List.length_zip]; omega, ?_⟩
        rw [List.getElem_zip]
      have htext := hall _ hmem
      dsimp only at htext
      rw [decide_eq_true_eq] at htext
      cases hvs with
      | array hitems =>
        cases hws with
        | array hitems' =>
          exact stringify_injective (hitems _ (List.getElem_mem _)) (hitems' _ (List.getElem_mem _)) htext
  calc
    ws = ws.take vs.length ++ ws.drop vs.length := (List.take_append_drop _ _).symm
    _ = vs ++ ws.drop vs.length := by rw [← htake]

/-- What is appended to a list applies. -/
theorem applies_appended {vs ws : List JsonValue} (hvs : (JsonValue.array vs).Readable numbers)
    (hws : (JsonValue.array ws).Readable numbers)
    (htext : (Read.value (.array vs)).text ≠ (Read.value (.array ws)).text)
    (happends : appends vs ws = true) : Applies (.value (.array vs)) (.value (.array ws)) := by
  have hsplit := eq_of_appends hvs hws happends
  have hlength : vs.length ≠ ws.length := by
    intro hlength
    rw [hlength, List.drop_length, List.append_nil] at hsplit
    rw [hsplit] at htext
    exact htext rfl
  intro slot hslot
  obtain ⟨v, rfl, hv⟩ := Option.map_eq_some_iff.mp hslot
  rw [tree_array] at hv
  obtain ⟨us, rfl, hus⟩ := eq_array_of_tree hv
  rw [visit_arrays htext, if_pos happends]
  refine ⟨some (.array (us ++ ws.drop vs.length)), rfl, ?_⟩
  show some (JsonValue.array (us ++ ws.drop vs.length)).tree =
    some (if vs.length = ws.length then JsonTree.array (keptItems vs ws) else (JsonValue.array ws).tree)
  rw [if_neg hlength, tree_array, tree_array, List.map_append, hus, ← List.map_append, ← hsplit]

/-- The changes of a list apply, if those of its items do. -/
theorem applies_items {vs ws : List JsonValue}
    (htext : (Read.value (.array vs)).text ≠ (Read.value (.array ws)).text)
    (happends : ¬ appends vs ws = true) (hlength : vs.length = ws.length)
    (h : ∀ i, Applies (readIndex vs i) (readIndex ws i)) :
    Applies (.value (.array vs)) (.value (.array ws)) := by
  intro slot hslot
  obtain ⟨v, rfl, hv⟩ := Option.map_eq_some_iff.mp hslot
  rw [tree_array] at hv
  obtain ⟨us, rfl, hus⟩ := eq_array_of_tree hv
  -- The change is applied to a list of the same length.
  have hsame : us.length = ws.length := by
    have hmap := congrArg List.length hus
    rw [List.length_map, List.length_map] at hmap
    omega
  obtain ⟨us', hus', hlength', hdone, -⟩ := changeTarget_items h hsame hus (Nat.le_refl _)
  rw [visit_arrays htext, if_neg happends, if_pos hlength]
  refine ⟨some (.array us'), changeSlot_of_below ?_ rfl hus', ?_⟩
  · -- Every change is below an index, so the list itself stays.
    intro change hchange
    obtain ⟨i, -, hi⟩ := List.mem_flatMap.mp hchange
    rw [List.nil_append, visit_singleton] at hi
    obtain ⟨_, -, rfl⟩ := List.mem_map.mp hi
    exact List.cons_ne_nil _ _
  · show some (JsonValue.array us').tree =
      some (if vs.length = ws.length then JsonTree.array (keptItems vs ws) else (JsonValue.array ws).tree)
    rw [if_pos hlength, tree_array, keptItems_eq]
    congr 2
    apply List.ext_getElem?
    intro i
    rw [List.getElem?_map]
    by_cases hi : i < ws.length
    · rw [hdone i hi, List.getElem?_zipWith]
      unfold readIndex
      rw [List.getElem?_eq_getElem hi, List.getElem?_eq_getElem (show i < vs.length by omega)]
      rfl
    · rw [List.getElem?_eq_none (by omega), List.getElem?_eq_none (by rw [List.length_zipWith]; omega)]
      rfl

/-- Applying the changes gives what is read of the value. -/
theorem applies (old value : Read) (hold : old.Readable numbers) (hvalue : value.Readable numbers) :
    Applies old value := by
  -- Along the comparison of the two values, case by case as `visit` decides.
  induction old, value, ([] : List String) using visit.induct with
  | case1 old value path htext => exact applies_of_text hold hvalue htext
  | case2 old path htext =>
    intro slot _
    rw [visit_undefined htext]
    exact ⟨none, rfl, rfl⟩
  | case3 old path htext =>
    intro slot hslot
    rw [visit_inherited htext]
    exact ⟨slot, rfl, hslot⟩
  | case4 path qs ps htext ih =>
    have hps : (keysOf ps).Nodup := by
      cases hold with
      | object hnodup _ => exact hnodup
    have hqs : (keysOf qs).Nodup := by
      cases hvalue with
      | object hnodup _ => exact hnodup
    exact applies_objects hps hqs htext fun key =>
      ih key (readable_readKey hold key) (readable_readKey hvalue key)
  | case6 path ws vs happends htext => exact applies_appended hold hvalue htext happends
  | case7 path ws vs happends hlength htext ih =>
    exact applies_items htext happends hlength fun i =>
      ih i (readable_readIndex hold i) (readable_readIndex hvalue i)
  -- Two lists of different lengths: the new one replaces the old.
  | case8 path ws vs happends hlength htext =>
    apply applies_value
    · rw [visit_arrays htext, if_neg happends, if_neg hlength]
    · show some (if vs.length = ws.length then _ else (JsonValue.array ws).tree) = _
      rw [if_neg hlength]
  -- Something else was there before: the object replaces it.
  | case5 old path qs hnot htext =>
    apply applies_value
    · exact visit_value htext (fun ps _ hps => (hnot ps hps).elim) (fun _ _ _ heq => by cases heq) []
    · cases old with
      | value v =>
        cases v with
        | object ps => exact (hnot ps rfl).elim
        | _ => rfl
      | _ => rfl
  -- Something else was there before: the list replaces it.
  | case9 old path ws hnot htext =>
    apply applies_value
    · exact visit_value htext (fun _ _ _ heq => by cases heq) (fun vs _ hvs => (hnot vs hvs).elim) []
    · cases old with
      | value v =>
        cases v with
        | array vs => exact (hnot vs rfl).elim
        | _ => rfl
      | _ => rfl
  -- A plain value replaces what was there.
  | case10 old path w hobject harray htext =>
    apply applies_value
    · exact visit_value htext (fun _ qs _ heq => hobject qs heq) (fun _ ws _ heq => harray ws heq) []
    · cases w with
      | object qs => exact (hobject qs rfl).elim
      | array ws => exact (harray ws rfl).elim
      | _ => cases old <;> rfl

end Applies

end OsAgent.AgentRuntime
