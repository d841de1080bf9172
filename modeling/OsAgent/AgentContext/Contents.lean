import OsAgent.AgentContext.Decisions
import OsAgent.Library.JsonParse

/-!
# The content of a delivery

Whether two deliveries are the same is asked of the texts that `JSON.stringify` writes of them.
`sameDelivery_iff` says that this is equality: the text says which delivery it is, as long as the values
in it are JSON data (`JsonValue.Readable`), and so each field of the delivery can be read off it. The
lemmas below say so for each type that a delivery is made of.
-/

namespace OsAgent.Context

open OsAgent.Library

/-- An array says which list it is of, if each item says what it is of. -/
theorem jsonArray_inj {α : Type} {toJson : α → JsonValue} (hinj : Function.Injective toJson)
    {l l' : List α} (h : jsonArray toJson l = jsonArray toJson l') : l = l' :=
  List.map_injective_iff.mpr hinj (JsonValue.array.inj h)

/-- An array of texts says which texts they are. -/
theorem strings_inj {l l' : List String} (h : JsonValue.strings l = JsonValue.strings l') : l = l' :=
  List.map_injective_iff.mpr (fun _ _ h => JsonValue.string.inj h) (JsonValue.array.inj h)

/-- The value of a number says which one it is. -/
theorem ofNat_inj {n m : ℕ} (h : JsonValue.ofNat n = JsonValue.ofNat m) : n = m :=
  toString_inj (JsonValue.number.inj h)

/-- A role is written as its name. -/
theorem ContextRole.toJson_inj {a b : ContextRole} (h : a.toJson = b.toJson) : a = b := by
  cases a <;> cases b <;> first
    | rfl
    | exact absurd (JsonValue.string.inj h) (by decide)

/-- A kind of observation is written as its name. -/
theorem ContextObservationKind.toJson_inj {a b : ContextObservationKind} (h : a.toJson = b.toJson) :
    a = b := by
  cases a <;> cases b <;> first
    | rfl
    | exact absurd (JsonValue.string.inj h) (by decide)

/-- An observation is written with all its fields. -/
theorem ContextObservation.toJson_inj {a b : ContextObservation} (h : a.toJson = b.toJson) : a = b := by
  obtain ⟨kind, statement, sourceRefs⟩ := a
  obtain ⟨kind', statement', sourceRefs'⟩ := b
  simp only [ContextObservation.toJson, JsonValue.object.injEq, List.cons.injEq, Prod.mk.injEq,
    JsonValue.string.injEq, true_and, and_true] at h
  obtain ⟨hkind, hstatement, hrefs⟩ := h
  rw [ContextObservationKind.toJson_inj hkind, hstatement, strings_inj hrefs]

/-- A cursor is written with both its fields. -/
theorem ContextCursor.toJson_inj {a b : ContextCursor} (h : a.toJson = b.toJson) : a = b := by
  obtain ⟨frameId, planRevision⟩ := a
  obtain ⟨frameId', planRevision'⟩ := b
  simp only [ContextCursor.toJson, JsonValue.object.injEq, List.cons.injEq, Prod.mk.injEq,
    JsonValue.string.injEq, true_and, and_true] at h
  obtain ⟨hframe, hplan⟩ := h
  rw [hframe, ofNat_inj hplan]

/-- A property that may be left out says whether it is there, and with which value. -/
theorem optional_inj {α : Type} {toJson : α → JsonValue} (hinj : ∀ a b, toJson a = toJson b → a = b)
    {name : String} {a b : Option α}
    (h : JsonValue.optional name (a.map toJson) = JsonValue.optional name (b.map toJson)) : a = b := by
  cases a with
  | none =>
    cases b with
    | none => rfl
    | some b => cases h
  | some a =>
    cases b with
    | none => cases h
    | some b =>
      have hvalue : toJson a = toJson b := congrArg Prod.snd (List.cons.inj h).1
      rw [hinj a b hvalue]

/-- What an entry records is written with its kind, and the kinds have names of their own. -/
theorem ContextEntryContent.properties_inj {a b : ContextEntryContent}
    (h : a.properties = b.properties) : a = b := by
  cases a <;> cases b <;>
    simp only [ContextEntryContent.properties, List.cons_append, List.nil_append, List.cons.injEq,
      Prod.mk.injEq, JsonValue.string.injEq, true_and, and_true, String.reduceEq, false_and] at h
  · obtain ⟨hrole, hcontent, hrefs⟩ := h
    rw [ContextRole.toJson_inj hrole, hcontent, optional_inj (fun _ _ => strings_inj) hrefs]
  · rw [h.1, h.2]
  · rw [h.1, h.2.1, h.2.2]
  · rw [h.1, h.2.1, h.2.2]
  · rw [ContextObservation.toJson_inj h]

/-- An entry is written with all its fields. -/
theorem ContextEntry.toJson_inj {a b : ContextEntry} (h : a.toJson = b.toJson) : a = b := by
  obtain ⟨id, createdAt, content⟩ := a
  obtain ⟨id', createdAt', content'⟩ := b
  simp only [ContextEntry.toJson, List.cons_append, List.nil_append, JsonValue.object.injEq,
    List.cons.injEq, Prod.mk.injEq, JsonValue.string.injEq, true_and] at h
  obtain ⟨hid, hcreated, hcontent⟩ := h
  rw [hid, ofNat_inj hcreated, ContextEntryContent.properties_inj hcontent]

/-- A delivery is written with all its fields. -/
theorem ContextDelivery.toJson_inj {a b : ContextDelivery} (h : a.toJson = b.toJson) : a = b := by
  obtain ⟨key, entries, target⟩ := a
  obtain ⟨key', entries', target'⟩ := b
  simp only [ContextDelivery.toJson, List.cons_append, List.nil_append, JsonValue.object.injEq,
    List.cons.injEq, Prod.mk.injEq, JsonValue.string.injEq, true_and] at h
  obtain ⟨hkey, hentries, htarget⟩ := h
  rw [hkey, jsonArray_inj (fun _ _ => ContextEntry.toJson_inj) hentries,
    optional_inj (fun _ _ => ContextCursor.toJson_inj) htarget]

/-- The comparison of two deliveries is equality, if what they carry is JSON data. -/
theorem sameDelivery_iff {numbers : List Char → Option String} {a b : ContextDelivery}
    (ha : a.toJson.Readable numbers) (hb : b.toJson.Readable numbers) :
    sameDelivery a b = true ↔ a = b := by
  unfold sameDelivery
  rw [decide_eq_true_eq]
  constructor
  · intro htext
    exact ContextDelivery.toJson_inj (stringify_injective ha hb htext)
  · intro h
    rw [h]

/-- The comparison tells keys apart, whatever else the deliveries carry. -/
theorem key_of_sameDelivery {a b : ContextDelivery} (h : sameDelivery a b = true) : a.key = b.key := by
  unfold sameDelivery at h
  rw [decide_eq_true_eq] at h
  -- The text of a delivery begins with its key.
  have hbegin (d : ContextDelivery) : ∃ rest,
      stringify d.toJson = '\x7b' :: (quote "key" ++ (':' :: (quote d.key ++ rest))) := ⟨_, rfl⟩
  obtain ⟨rest, hleft⟩ := hbegin a
  obtain ⟨rest', hright⟩ := hbegin b
  rw [hleft, hright] at h
  have htail := List.append_cancel_left (List.cons.inj h).2
  exact quote_append_inj (List.cons.inj htail).2

/-- Two deliveries have the same key, and they are equal if what they carry is JSON data. The text that is
written of other values need not tell them apart. -/
def ContextDelivery.SameContent (a b : ContextDelivery) : Prop :=
  a.key = b.key ∧ ∀ numbers, a.toJson.Readable numbers → b.toJson.Readable numbers → a = b

/-- What is the same by the comparison has the same content. -/
theorem sameContent_of_sameDelivery {a b : ContextDelivery} (h : sameDelivery a b = true) :
    a.SameContent b :=
  ⟨key_of_sameDelivery h, fun _ ha hb => (sameDelivery_iff ha hb).mp h⟩

/-- What has not the same content is told apart by the comparison. -/
theorem sameDelivery_eq_false {a b : ContextDelivery} (h : ¬ a.SameContent b) :
    sameDelivery a b = false := by
  rw [Bool.eq_false_iff]
  intro hsame
  exact h (sameContent_of_sameDelivery hsame)

end OsAgent.Context
