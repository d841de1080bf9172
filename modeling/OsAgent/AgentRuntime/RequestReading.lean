import OsAgent.AgentRuntime.RequestDeltas

/-!
# Requests as they are read

The changes from one state to another are read back as the other one, unless a property is removed whose
name is that of a function every object inherits: such a removal is taken for a value that is a function,
and a function is not written. `read_changes_iff` says so exactly.
-/

namespace OsAgent.AgentRuntime

open OsAgent.Library

/-! ## The condition -/

mutual

/-- No property is removed whose name is that of a function that every object inherits. -/
def Covered (old : JsonValue) : JsonValue → Prop
  | .object qs =>
    match old with
    | .object ps =>
      (∀ key ∈ inheritedNames, key ∈ keysOf ps → key ∈ keysOf qs) ∧ CoveredProperties ps qs
    | _ => True
  | .array ws =>
    match old with
    | .array vs => vs.length = ws.length → CoveredItems vs ws
    | _ => True
  | _ => True

/-- So it is for the items of arrays. -/
def CoveredItems : List JsonValue → List JsonValue → Prop
  | v :: vs, w :: ws => Covered v w ∧ CoveredItems vs ws
  | _, _ => True

/-- So it is for the properties that both objects have. -/
def CoveredProperties (ps : List (String × JsonValue)) : List (String × JsonValue) → Prop
  | [] => True
  | (k, w) :: qs => (∀ v, property? k ps = some v → Covered v w) ∧ CoveredProperties ps qs

end

/-- The properties are covered, if each that both have is. -/
theorem coveredProperties_iff (ps qs : List (String × JsonValue)) :
    CoveredProperties ps qs ↔ ∀ q ∈ qs, ∀ v, property? q.1 ps = some v → Covered v q.2 := by
  induction qs with
  | nil =>
    unfold CoveredProperties
    simp
  | cons q qs ih =>
    obtain ⟨k, w⟩ := q
    unfold CoveredProperties
    rw [ih, List.forall_mem_cons]

/-- An object is covered, if no inherited name is removed and its properties are covered. -/
theorem covered_object (ps qs : List (String × JsonValue)) :
    Covered (.object ps) (.object qs) ↔
      (∀ key ∈ inheritedNames, key ∈ keysOf ps → key ∈ keysOf qs) ∧
        ∀ q ∈ qs, ∀ v, property? q.1 ps = some v → Covered v q.2 := by
  rw [← coveredProperties_iff]
  rfl

/-- All of the items is kept exactly if the items are covered. -/
theorem keptItems_eq_iff {vs ws : List JsonValue} (hlength : vs.length = ws.length)
    (h : ∀ w ∈ ws, ∀ v, kept v w = w.tree ↔ Covered v w) :
    keptItems vs ws = ws.map JsonValue.tree ↔ CoveredItems vs ws := by
  induction vs generalizing ws with
  | nil =>
    cases ws with
    | nil => exact iff_of_true rfl trivial
    | cons w ws => cases hlength
  | cons v vs ih =>
    cases ws with
    | nil => cases hlength
    | cons w ws =>
      have hrest := ih (Nat.succ.inj hlength) fun x hx => h x (List.mem_cons_of_mem _ hx)
      unfold keptItems CoveredItems
      rw [List.map_cons, List.cons.injEq, h w List.mem_cons_self v, hrest]

/-- What is read is the new value, if and only if nothing of such a name is removed. -/
theorem kept_eq_iff {numbers : List Char → Option String} {w : JsonValue} (hw : w.Readable numbers)
    (v : JsonValue) : kept v w = w.tree ↔ Covered v w := by
  -- Along the new value: what is kept of an object is compared key by key.
  induction hw generalizing v with
  | @array ws _ ih =>
    cases v with
    | array vs =>
      show (if vs.length = ws.length then JsonTree.array (keptItems vs ws) else _) = _ ↔
        (vs.length = ws.length → CoveredItems vs ws)
      -- Lists of different lengths are replaced, so nothing is lost there.
      split_ifs with hlength
      · rw [tree_array, JsonTree.array.injEq, keptItems_eq_iff hlength ih]
        exact ⟨fun h _ => h, fun h => h hlength⟩
      · exact iff_of_true rfl fun h => absurd h hlength
    | _ => exact iff_of_true rfl trivial
  | @object qs hqs _ ih =>
    cases v with
    | object ps =>
      rw [covered_object]
      show JsonTree.object (fun key => keptProperty ps qs key) = _ ↔ _
      rw [tree_object, JsonTree.object.injEq, funext_iff]
      constructor
      · intro hsame
        constructor
        · -- A removed key of an inherited name would still be read as a value.
          intro key hinherited hmem
          by_contra hnot
          have hkey := hsame key
          rw [keptProperty_eq, property?_eq_none.mpr hnot] at hkey
          dsimp only at hkey
          rw [if_pos hinherited] at hkey
          obtain ⟨x, hx⟩ := exists_property? hmem
          rw [hx] at hkey
          cases hkey
        · intro q hq x hx
          have hkey := hsame q.1
          rw [keptProperty_eq, property?_of_mem hqs hq, hx] at hkey
          exact (ih q hq x).mp (Option.some.inj hkey)
      · rintro ⟨hremoved, hcommon⟩ key
        rw [keptProperty_eq]
        -- A key of both is by induction, one of neither is read as nothing.
        cases hproperty : property? key qs with
        | some y =>
          have hmem := mem_of_property? hproperty
          cases hold : property? key ps with
          | some x => exact congrArg some ((ih _ hmem x).mpr (hcommon _ hmem x hold))
          | none => rfl
        | none =>
          dsimp only
          split_ifs with hinherited
          · have hnot : key ∉ keysOf ps := fun hmem =>
              property?_eq_none.mp hproperty (hremoved key hinherited hmem)
            rw [property?_eq_none.mpr hnot]
          · rfl
    | _ => exact iff_of_true rfl trivial
  | _ => exact iff_of_true (by cases v <;> rfl) trivial

/-- Nothing of such a name is removed from a value without such names. -/
theorem covered_of_named {v : JsonValue} (h : v.Named (· ∉ inheritedNames)) (w : JsonValue) :
    Covered v w := by
  -- Along the value: without such names there is none to remove.
  induction h generalizing w with
  | @array vs _ ih =>
    cases w with
    | array ws =>
      have hitems : ∀ ws, CoveredItems vs ws := by
        clear * - ih
        induction vs with
        | nil => intro ws; cases ws <;> trivial
        | cons v vs ihvs =>
          intro ws
          cases ws with
          | nil => trivial
          | cons w ws =>
            exact ⟨ih v List.mem_cons_self w, ihvs (fun x hx => ih x (List.mem_cons_of_mem _ hx)) ws⟩
      exact fun _ => hitems ws
    | _ => trivial
  | @object ps hkeys _ ih =>
    cases w with
    | object qs =>
      rw [covered_object]
      constructor
      · intro key hinherited hmem
        obtain ⟨p, hp, rfl⟩ := List.mem_map.mp hmem
        exact absurd hinherited (hkeys p hp)
      · intro q _ v hv
        exact ih _ (mem_of_property? hv) q.2
    | _ => trivial
  | _ => cases w <;> trivial

/-! ## What the changes carry -/

/-- What the values that a change carries satisfy. -/
structure Carries (P : JsonValue → Prop) (change : RequestChange) : Prop where
  value : ∀ w, change.value = .value w → P w
  append : ∀ items, change.append = some items → ∀ v ∈ items, P v

/-- The values that a change carries are in the values between which it was found. -/
theorem carried_of_visit {P : JsonValue → Prop} (hobject : ∀ ps, P (.object ps) → ∀ p ∈ ps, P p.2)
    (harray : ∀ vs, P (.array vs) → ∀ v ∈ vs, P v) (old value : Read) (path : List String)
    (h : ∀ w, value = .value w → P w) : ∀ change ∈ visit old value path, Carries P change := by
  have hnone : ∀ change ∈ ([] : List RequestChange), Carries P change := by
    intro change hchange
    cases hchange
  -- A change that carries the whole value carries nothing else.
  have hplain : ∀ (path : List String) (value : Read) (remove : Bool), (∀ w, value = .value w → P w) →
      ∀ change ∈ [({ path, value, remove } : RequestChange)], Carries P change := by
    intro path value remove hvalue change hchange
    rw [List.mem_singleton.mp hchange]
    refine ⟨hvalue, ?_⟩
    intro items hitems
    cases hitems
  -- Along the comparison of the two values, case by case as `visit` decides.
  induction old, value, path using visit.induct with
  | case1 old value path htext =>
    rw [visit_of_text htext]
    exact hnone
  | case2 old path htext =>
    rw [visit_undefined htext]
    exact hplain path .undefined true h
  | case3 old path htext =>
    rw [visit_inherited htext]
    exact hplain path .inherited false h
  | case4 path qs ps htext ih =>
    rw [visit_objects htext]
    intro change hchange
    obtain ⟨key, -, hkey⟩ := List.mem_flatMap.mp hchange
    refine ih key ?_ change hkey
    intro w hw
    unfold readKey at hw
    split at hw
    · next v hv =>
      cases hw
      exact hobject qs (h _ rfl) _ (mem_of_property? hv)
    · split_ifs at hw
  | case6 path ws vs happends htext =>
    rw [visit_arrays htext, if_pos happends]
    intro change hchange
    rw [List.mem_singleton.mp hchange]
    constructor
    · intro w hw
      cases hw
    · intro items hitems v hv
      cases hitems
      exact harray ws (h _ rfl) v (List.mem_of_mem_drop hv)
  | case7 path ws vs happends hlength htext ih =>
    rw [visit_arrays htext, if_neg happends, if_pos hlength]
    intro change hchange
    obtain ⟨i, -, hi⟩ := List.mem_flatMap.mp hchange
    refine ih i ?_ change hi
    intro w hw
    unfold readIndex at hw
    split at hw
    · next v hv =>
      cases hw
      exact harray ws (h _ rfl) _ (List.mem_of_getElem? hv)
    · cases hw
  | case8 path ws vs happends hlength htext =>
    rw [visit_arrays htext, if_neg happends, if_neg hlength]
    exact hplain path _ false h
  | case5 old path qs hnot htext =>
    rw [visit_value htext (fun ps _ hps => (hnot ps hps).elim) (fun _ _ _ heq => by cases heq)]
    exact hplain path _ false h
  | case9 old path ws hnot htext =>
    rw [visit_value htext (fun _ _ _ heq => by cases heq) (fun vs _ hvs => (hnot vs hvs).elim)]
    exact hplain path _ false h
  | case10 old path w hobject' harray' htext =>
    rw [visit_value htext (fun _ qs _ heq => hobject' qs heq) (fun _ ws _ heq => harray' ws heq)]
    exact hplain path _ false h

/-- Data without a key `__proto__` pass the check as they are. -/
theorem jsonSchema_eq {v : JsonValue} (h : v.Named (· ≠ "__proto__")) : jsonSchema v = v := by
  induction h with
  | @array items _ ih =>
    have hitems : schemaItems items = items := by
      clear * - ih
      induction items with
      | nil => rfl
      | cons v vs ihvs =>
        unfold schemaItems
        rw [ih v List.mem_cons_self, ihvs fun w hw => ih w (List.mem_cons_of_mem _ hw)]
    show JsonValue.array (schemaItems items) = _
    rw [hitems]
  | @object properties hkeys _ ih =>
    have hproperties : schemaProperties properties = properties := by
      clear * - hkeys ih
      induction properties with
      | nil => rfl
      | cons p ps ihps =>
        obtain ⟨k, v⟩ := p
        have hk : k ≠ "__proto__" := hkeys (k, v) List.mem_cons_self
        have hv : jsonSchema v = v := ih (k, v) List.mem_cons_self
        unfold schemaProperties
        rw [if_neg hk, hv, ihps (fun q hq => hkeys q (List.mem_cons_of_mem _ hq))
          fun q hq => ih q (List.mem_cons_of_mem _ hq)]
    show JsonValue.object (schemaProperties properties) = _
    rw [hproperties]
  | _ => rfl

section Messages

variable {numbers : List Char → Option String}

/-- A path is readable. -/
theorem readable_strings (path : List String) : (JsonValue.strings path).Readable numbers := by
  apply JsonValue.Readable.array
  intro v hv
  obtain ⟨s, -, rfl⟩ := List.mem_map.mp hv
  exact .string s

/-- The names in a path satisfy everything, since there are none. -/
theorem named_strings {P : String → Prop} (path : List String) : (JsonValue.strings path).Named P := by
  apply JsonValue.Named.array
  intro v hv
  obtain ⟨s, -, rfl⟩ := List.mem_map.mp hv
  exact .string s

/-- A change can be written and read again if its values can. -/
theorem readable_toJson {change : RequestChange} (h : Carries (·.Readable numbers) change) :
    change.toJson.Readable numbers := by
  obtain ⟨path, value, append, remove⟩ := change
  obtain ⟨hvalue, happend⟩ := h
  dsimp only at hvalue happend
  have hpath : (JsonValue.strings path).Readable numbers := readable_strings path
  have htrue : (JsonValue.boolean true).Readable numbers := .boolean true
  apply JsonValue.Readable.object
  · cases value <;> cases append <;> cases remove <;> simp [JsonValue.optional]
  · have hitems : ∀ items, append = some items → (JsonValue.array items).Readable numbers :=
      fun items hitems => .array (happend items hitems)
    cases value <;> cases append <;> cases remove <;> simp_all [JsonValue.optional]

/-- A change has no key `__proto__` if its values have none. -/
theorem named_toJson {change : RequestChange} (h : Carries (·.Named (· ≠ "__proto__")) change) :
    change.toJson.Named (· ≠ "__proto__") := by
  obtain ⟨path, value, append, remove⟩ := change
  obtain ⟨hvalue, happend⟩ := h
  dsimp only at hvalue happend
  have hpath : (JsonValue.strings path).Named (· ≠ "__proto__") := named_strings path
  have htrue : (JsonValue.boolean true).Named (· ≠ "__proto__") := .boolean true
  apply JsonValue.Named.object
  · cases value <;> cases append <;> cases remove <;> simp [JsonValue.optional]
  · have hitems : ∀ items, append = some items → (JsonValue.array items).Named (· ≠ "__proto__") :=
      fun items hitems => .array (happend items hitems)
    cases value <;> cases append <;> cases remove <;> simp_all [JsonValue.optional]

/-! ## The messages as they are read -/

/-- What a message of the user carries is read as it was written. -/
theorem data?_stringify {ps : List (String × JsonValue)} (h : (JsonValue.object ps).Readable numbers)
    (hnamed : (JsonValue.object ps).Named (· ≠ "__proto__")) :
    (ModelMessage.user (String.ofList (stringify (.object ps)))).data? numbers = some ps := by
  unfold ModelMessage.data?
  dsimp only
  rw [String.toList_ofList, parse_stringify h, Option.map_some, jsonSchema_eq hnamed]

/-- The context message is read as the view. -/
theorem data?_contextMessage {ps : List (String × JsonValue)}
    (h : (JsonValue.object ps).Readable numbers)
    (hnamed : (JsonValue.object ps).Named (· ≠ "__proto__")) :
    (contextMessage (.object ps)).data? numbers =
      some [("kind", .string "runtime_context"), ("view", .object ps)] := by
  apply data?_stringify
  · apply JsonValue.Readable.object
    · simp
    · simp [h, JsonValue.Readable.string]
  · apply JsonValue.Named.object
    · simp
    · simp [hnamed, JsonValue.Named.string]

/-- The update message is read as its changes. -/
theorem data?_updateMessage {changes : List RequestChange}
    (h : ∀ change ∈ changes, Carries (·.Readable numbers) change)
    (hnamed : ∀ change ∈ changes, Carries (·.Named (· ≠ "__proto__")) change) :
    (updateMessage changes).data? numbers =
      some [("kind", .string "runtime_update"), ("changes", .array (changes.map RequestChange.toJson))] := by
  have hreadable : (JsonValue.array (changes.map RequestChange.toJson)).Readable numbers := by
    apply JsonValue.Readable.array
    intro v hv
    obtain ⟨change, hchange, rfl⟩ := List.mem_map.mp hv
    exact readable_toJson (h change hchange)
  have hkeys : (JsonValue.array (changes.map RequestChange.toJson)).Named (· ≠ "__proto__") := by
    apply JsonValue.Named.array
    intro v hv
    obtain ⟨change, hchange, rfl⟩ := List.mem_map.mp hv
    exact named_toJson (hnamed change hchange)
  apply data?_stringify
  · apply JsonValue.Readable.object
    · simp
    · simp [hreadable, JsonValue.Readable.string]
  · apply JsonValue.Named.object
    · simp
    · simp [hkeys, JsonValue.Named.string]

/-- A message with the whole state replaces the state. -/
theorem readMessage_context {ps : List (String × JsonValue)}
    (h : (JsonValue.object ps).Readable numbers) (hnamed : (JsonValue.object ps).Named (· ≠ "__proto__"))
    (view : JsonValue) : readMessage numbers view (contextMessage (.object ps)) = .ok (.object ps) := by
  unfold readMessage
  rw [data?_contextMessage h hnamed]
  rfl

/-- A message with changes applies them. -/
theorem readMessage_update {changes : List RequestChange}
    (h : ∀ change ∈ changes, Carries (·.Readable numbers) change)
    (hnamed : ∀ change ∈ changes, Carries (·.Named (· ≠ "__proto__")) change) (view : JsonValue) :
    readMessage numbers view (updateMessage changes) = changeTarget changes view := by
  unfold readMessage
  rw [data?_updateMessage h hnamed]
  show (changes.map RequestChange.toJson).foldlM applyChange view = _
  unfold changeTarget
  rw [List.foldlM_map]
  congr 1
  funext target change
  exact applyChange_toJson target change

/-- The properties of an object keep what all of it satisfies. -/
theorem forall_of_readable {ps : List (String × JsonValue)} (h : (JsonValue.object ps).Readable numbers) :
    ∀ p ∈ ps, p.2.Readable numbers := by
  cases h with
  | object _ hproperties => exact hproperties

/-- The items of a readable list are readable. -/
theorem forall_of_readable_array {vs : List JsonValue} (h : (JsonValue.array vs).Readable numbers) :
    ∀ v ∈ vs, v.Readable numbers := by
  cases h with
  | array hitems => exact hitems

/-- The names in the properties of an object satisfy what all do. -/
theorem forall_of_named {P : String → Prop} {ps : List (String × JsonValue)}
    (h : (JsonValue.object ps).Named P) : ∀ p ∈ ps, p.2.Named P := by
  cases h with
  | object _ hproperties => exact hproperties

/-- The names in the items of a list satisfy what all do. -/
theorem forall_of_named_array {P : String → Prop} {vs : List JsonValue}
    (h : (JsonValue.array vs).Named P) : ∀ v ∈ vs, v.Named P := by
  cases h with
  | array hitems => exact hitems

/-- The changes between two objects start below a property of them. -/
theorem path_of_requestChanges {ps qs : List (String × JsonValue)} {change : RequestChange}
    (h : change ∈ requestChanges (.object ps) (.object qs)) : change.path ≠ [] := by
  unfold requestChanges at h
  by_cases htext : (Read.value (.object ps)).text = (Read.value (.object qs)).text
  · rw [visit_of_text htext] at h
    cases h
  · rw [visit_objects htext] at h
    obtain ⟨key, -, hkey⟩ := List.mem_flatMap.mp h
    rw [List.nil_append, visit_singleton] at hkey
    obtain ⟨_, -, rfl⟩ := List.mem_map.mp hkey
    exact List.cons_ne_nil _ _

/-- The changes carry what is in the values between which they were found. -/
theorem readable_requestChanges {v w : JsonValue} (hw : w.Readable numbers) :
    ∀ change ∈ requestChanges v w, Carries (·.Readable numbers) change := by
  apply carried_of_visit (fun _ => forall_of_readable) fun _ => forall_of_readable_array
  intro w' hw'
  cases hw'
  exact hw

/-- The names in the changes are those of the new view. -/
theorem named_requestChanges {v w : JsonValue} (hw : w.Named (· ≠ "__proto__")) :
    ∀ change ∈ requestChanges v w, Carries (·.Named (· ≠ "__proto__")) change := by
  apply carried_of_visit (fun _ => forall_of_named) fun _ => forall_of_named_array
  intro w' hw'
  cases hw'
  exact hw

/-- The changes from a state are read after it as what is kept of the other one. -/
theorem readMessage_requestChanges {ps qs : List (String × JsonValue)}
    (hps : (JsonValue.object ps).Readable numbers) (hqs : (JsonValue.object qs).Readable numbers)
    (hnamed : (JsonValue.object qs).Named (· ≠ "__proto__")) :
    ∃ view, readMessage numbers (.object ps)
        (updateMessage (requestChanges (.object ps) (.object qs))) = .ok view ∧
      view.tree = kept (.object ps) (.object qs) := by
  rw [readMessage_update (readable_requestChanges hqs) (named_requestChanges hnamed)]
  obtain ⟨slot, hslot, htree⟩ := applies (.value (.object ps)) (.value (.object qs)) hps hqs
    (some (.object ps)) rfl
  obtain ⟨view, rfl, hview⟩ := changeTarget_of_slot (fun _ => path_of_requestChanges) rfl hslot
  exact ⟨view, hview, Option.some.inj htree⟩

/-- A message without data does not change the state. -/
theorem readRuntimeRequest_filter (messages : List ModelMessage) :
    readRuntimeRequest numbers (messages.filter fun message => (message.data? numbers).isSome) =
      readRuntimeRequest numbers messages := by
  unfold readRuntimeRequest
  rw [List.foldlM_filter]
  congr 1
  funext view message
  split_ifs with hdata
  · rfl
  · rw [Bool.not_eq_true, Option.isSome_eq_false_iff, Option.isNone_iff_eq_none] at hdata
    unfold readMessage
    rw [hdata]
    rfl

/-- A request that carries a state, and then the changes from it to another one, is read as what is kept of
the other one. -/
theorem read_changes {ps qs : List (String × JsonValue)} {messages : List ModelMessage}
    (hps : (JsonValue.object ps).Readable numbers) (hqs : (JsonValue.object qs).Readable numbers)
    (hps' : (JsonValue.object ps).Named (· ≠ "__proto__"))
    (hqs' : (JsonValue.object qs).Named (· ≠ "__proto__"))
    (hmessages : messages.filter (fun message => (message.data? numbers).isSome) =
      [contextMessage (.object ps), updateMessage (requestChanges (.object ps) (.object qs))]) :
    ∃ view, readRuntimeRequest numbers messages = .ok view ∧
      view.tree = kept (.object ps) (.object qs) := by
  obtain ⟨view, hview, htree⟩ := readMessage_requestChanges hps hqs hqs'
  refine ⟨view, ?_, htree⟩
  rw [← readRuntimeRequest_filter, hmessages]
  unfold readRuntimeRequest
  rw [List.foldlM_cons, readMessage_context hps hps']
  show List.foldlM (readMessage numbers) _ [_] = _
  rw [List.foldlM_cons, hview]
  rfl

/-- It is read as the other one if and only if no property with the name of an inherited function is
removed. -/
theorem read_changes_iff {ps qs : List (String × JsonValue)} {messages : List ModelMessage}
    (hps : (JsonValue.object ps).Readable numbers) (hqs : (JsonValue.object qs).Readable numbers)
    (hps' : (JsonValue.object ps).Named (· ≠ "__proto__"))
    (hqs' : (JsonValue.object qs).Named (· ≠ "__proto__"))
    (hmessages : messages.filter (fun message => (message.data? numbers).isSome) =
      [contextMessage (.object ps), updateMessage (requestChanges (.object ps) (.object qs))]) :
    (∃ view, readRuntimeRequest numbers messages = .ok view ∧
      view.tree = (JsonValue.object qs).tree) ↔ Covered (.object ps) (.object qs) := by
  obtain ⟨view, hread, htree⟩ := read_changes hps hqs hps' hqs' hmessages
  rw [hread, ← kept_eq_iff hqs, ← htree]
  constructor
  · rintro ⟨view', hview', htree'⟩
    cases hview'
    exact htree'
  · intro hsame
    exact ⟨view, rfl, hsame⟩

end Messages

/-- Numerals are taken as they are. -/
def plainNumbers (text : List Char) : Option String := some (String.ofList text)

/-- The messages of a request with a state and the changes from it to another one. -/
theorem filter_messages {ps qs : List (String × JsonValue)} (system : String)
    (hps : (JsonValue.object ps).Readable plainNumbers) (hqs : (JsonValue.object qs).Readable plainNumbers)
    (hps' : (JsonValue.object ps).Named (· ≠ "__proto__"))
    (hqs' : (JsonValue.object qs).Named (· ≠ "__proto__")) :
    [.system system, contextMessage (.object ps),
      updateMessage (requestChanges (.object ps) (.object qs))].filter
        (fun message => (message.data? plainNumbers).isSome) =
      [contextMessage (.object ps), updateMessage (requestChanges (.object ps) (.object qs))] := by
  have hsystem : (ModelMessage.system system).data? plainNumbers = none := rfl
  rw [List.filter_cons, List.filter_cons, List.filter_cons, hsystem, data?_contextMessage hps hps',
    data?_updateMessage (readable_requestChanges hqs) (named_requestChanges hqs')]
  rfl

/-- A state with one property. -/
theorem readable_single {numbers : List Char → Option String} (key : String) {v : JsonValue}
    (h : v.Readable numbers) : (JsonValue.object [(key, v)]).Readable numbers := by
  apply JsonValue.Readable.object
  · exact List.nodup_cons.mpr ⟨List.not_mem_nil, List.nodup_nil⟩
  · simpa using h

/-- The names in an object with one property. -/
theorem named_single {P : String → Prop} {key : String} (hkey : P key) {v : JsonValue} (h : v.Named P) :
    (JsonValue.object [(key, v)]).Named P := by
  apply JsonValue.Named.object
  · simpa using hkey
  · simpa using h

/-- A property with an inherited name is read back, where it is not removed. -/
theorem read_changes_iff_flag : ∃ view, readRuntimeRequest plainNumbers
    [.system "", contextMessage (.object [("toString", .boolean true)]),
      updateMessage (requestChanges (.object [("toString", .boolean true)])
        (.object [("toString", .boolean false)]))] = .ok view ∧
    view.tree = (JsonValue.object [("toString", .boolean false)]).tree := by
  have hps : (JsonValue.object [("toString", .boolean true)]).Readable plainNumbers :=
    readable_single "toString" (.boolean true)
  have hqs : (JsonValue.object [("toString", .boolean false)]).Readable plainNumbers :=
    readable_single "toString" (.boolean false)
  have hps' : (JsonValue.object [("toString", .boolean true)]).Named (· ≠ "__proto__") :=
    named_single (by decide) (.boolean true)
  have hqs' : (JsonValue.object [("toString", .boolean false)]).Named (· ≠ "__proto__") :=
    named_single (by decide) (.boolean false)
  apply (read_changes_iff hps hqs hps' hqs' (filter_messages "" hps hqs hps' hqs')).mpr
  rw [covered_object]
  constructor
  · intro key _ hmem
    exact hmem
  · intro q hq v hv
    rw [List.mem_singleton.mp hq]
    trivial

/-- The removal of a property `toString` is not read. -/
theorem not_read_toString : ¬ ∃ view, readRuntimeRequest plainNumbers
    [.system "", contextMessage (.object [("toString", .boolean true)]),
      updateMessage (requestChanges (.object [("toString", .boolean true)]) (.object []))] = .ok view ∧
    view.tree = (JsonValue.object []).tree := by
  have hps : (JsonValue.object [("toString", .boolean true)]).Readable plainNumbers :=
    readable_single "toString" (.boolean true)
  have hqs : (JsonValue.object []).Readable plainNumbers := .object List.nodup_nil (by simp)
  have hps' : (JsonValue.object [("toString", .boolean true)]).Named (· ≠ "__proto__") :=
    named_single (by decide) (.boolean true)
  have hqs' : (JsonValue.object []).Named (· ≠ "__proto__") := .object (by simp) (by simp)
  obtain ⟨view, hread, htree⟩ := read_changes hps hqs hps' hqs' (filter_messages "" hps hqs hps' hqs')
  rintro ⟨view', hread', htree'⟩
  rw [hread] at hread'
  cases hread'
  rw [htree, kept_eq_iff hqs] at htree'
  have hmem : "toString" ∈ keysOf ([] : List (String × JsonValue)) :=
    htree'.1 "toString" (by decide) (by decide)
  cases hmem

end OsAgent.AgentRuntime
