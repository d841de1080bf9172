import OsAgent.Library.Check
import OsAgent.Library.JsonParse
import OsAgent.Library.JsonTree

/-!
# Schemas that read data as data

A schema reads JSON data, or finds that it has not the form, and what it reads is JSON data again: texts
may be trimmed, properties may be left out, filled in or put in order. A schema carries that it reads what
it has read as it is, so that data can be checked again wherever it comes back from.
-/

namespace OsAgent.Library

/-- A way to read data. -/
structure Schema where
  read : JsonValue → Option JsonValue
  /-- What was read is read as it is. -/
  read_read {v w : JsonValue} : read v = some w → read w = some w
  /-- A key `__proto__` is not read. -/
  named {v w : JsonValue} : read v = some w → w.Named (· ≠ "__proto__")
  /-- What is read of data that can be written and read again is such data. A zero may be filled in. -/
  readable {numbers : List Char → Option String} {v w : JsonValue} (hzero : numbers ['0'] = some "0") :
    v.Readable numbers → read v = some w → w.Readable numbers

namespace Schema

/-- Data that a schema reads as they are. -/
structure Data (schema : Schema) where
  value : JsonValue
  read_value : schema.read value = some value

/-- Reads data, which are then known to have the form. -/
def parse (schema : Schema) (v : JsonValue) : Option schema.Data :=
  match h : schema.read v with
  | some w => some ⟨w, schema.read_read h⟩
  | none => none

/-- A schema parses a value exactly if it reads it, and then has the data in its own form. -/
theorem parse_eq_some {schema : Schema} {v : JsonValue} {data : schema.Data} :
    schema.parse v = some data ↔ schema.read v = some data.value := by
  unfold parse
  split
  · rename_i w h
    constructor
    · intro hdata
      rw [h, ← Option.some.inj hdata]
    · intro hread
      obtain ⟨x, hx⟩ := data
      have heq : w = x := Option.some.inj (h.symm.trans hread)
      subst heq
      rfl
  · rename_i h
    rw [h]
    simp

/-- Data in their own form are parsed as they are. -/
theorem parse_value {schema : Schema} (data : schema.Data) : schema.parse data.value = some data :=
  parse_eq_some.mpr data.read_value

end Schema

/-! ## Data without parts -/

section

variable {change : String → String} {check : String → Bool} {v w : JsonValue}

/-- A text, changed, if it then passes a check. -/
def readText (change : String → String) (check : String → Bool) : JsonValue → Option JsonValue
  | .string s => if check (change s) then some (.string (change s)) else none
  | _ => none

/-- What is read as a text is a text, changed and then checked. -/
theorem readText_eq_some :
    readText change check v = some w ↔ ∃ s, v = .string s ∧ check (change s) ∧ w = .string (change s) := by
  cases v with
  | string s =>
    unfold readText
    dsimp only
    split_ifs with hs
    · constructor
      · intro h
        exact ⟨s, rfl, hs, (Option.some.inj h).symm⟩
      · rintro ⟨t, heq, -, rfl⟩
        rw [JsonValue.string.inj heq]
    · constructor
      · intro h
        cases h
      · rintro ⟨t, heq, ht, -⟩
        rw [← JsonValue.string.inj heq] at ht
        exact absurd ht hs
  | _ => simp [readText]

/-- A number whose text passes a check. -/
def readNumeral (check : String → Bool) : JsonValue → Option JsonValue
  | .number literal => if check literal then some (.number literal) else none
  | _ => none

/-- What is read as a numeral is a number whose literal passes the check. -/
theorem readNumeral_eq_some :
    readNumeral check v = some w ↔ ∃ literal, v = .number literal ∧ check literal ∧ w = v := by
  cases v with
  | number literal =>
    unfold readNumeral
    dsimp only
    split_ifs with hs
    · constructor
      · intro h
        exact ⟨literal, rfl, hs, (Option.some.inj h).symm⟩
      · rintro ⟨_, _, _, rfl⟩
        rfl
    · constructor
      · intro h
        cases h
      · rintro ⟨t, heq, ht, -⟩
        rw [← JsonValue.number.inj heq] at ht
        exact absurd ht hs
  | _ => simp [readNumeral]

/-- Reads a boolean. -/
def readBoolean : JsonValue → Option JsonValue
  | .boolean b => some (.boolean b)
  | _ => none

/-- What is read as a boolean is one. -/
theorem readBoolean_eq_some : readBoolean v = some w ↔ ∃ b, v = .boolean b ∧ w = v := by
  cases v with
  | boolean b => simp [readBoolean, eq_comm]
  | _ => simp [readBoolean]

end

namespace Schema

/-- A text, after a change that does nothing the second time. -/
def changedText (change : String → String) (hchange : ∀ s, change (change s) = change s)
    (check : String → Bool) : Schema where
  read := readText change check
  read_read h := by
    obtain ⟨s, -, hs, rfl⟩ := readText_eq_some.mp h
    exact readText_eq_some.mpr ⟨_, rfl, by rwa [hchange], by rw [hchange]⟩
  named h := by
    obtain ⟨s, -, -, rfl⟩ := readText_eq_some.mp h
    exact .string _
  readable _ _ h := by
    obtain ⟨s, -, -, rfl⟩ := readText_eq_some.mp h
    exact .string _

/-- A text that passes a check. -/
def text (check : String → Bool) : Schema := changedText id (fun _ => rfl) check

/-- A certain text. -/
def literal (s : String) : Schema := text fun t => t = s

/-- Numbers whose literal passes a check. -/
def number (check : String → Bool) : Schema where
  read := readNumeral check
  read_read h := by
    obtain ⟨literal, rfl, hs, rfl⟩ := readNumeral_eq_some.mp h
    exact readNumeral_eq_some.mpr ⟨_, rfl, hs, rfl⟩
  named h := by
    obtain ⟨literal, rfl, -, rfl⟩ := readNumeral_eq_some.mp h
    exact .number _
  readable _ hv h := by
    obtain ⟨literal, -, -, rfl⟩ := readNumeral_eq_some.mp h
    exact hv

/-- Booleans. -/
def boolean : Schema where
  read := readBoolean
  read_read h := by
    obtain ⟨b, rfl, rfl⟩ := readBoolean_eq_some.mp h
    exact h
  named h := by
    obtain ⟨b, rfl, rfl⟩ := readBoolean_eq_some.mp h
    exact .boolean b
  readable _ hv h := by
    obtain ⟨b, -, rfl⟩ := readBoolean_eq_some.mp h
    exact hv

/-- A literal reads itself alone. -/
theorem literal_read {s : String} {v w : JsonValue} :
    (literal s).read v = some w ↔ v = .string s ∧ w = .string s := by
  show readText id (fun t => decide (t = s)) v = some w ↔ _
  rw [readText_eq_some]
  simp

end Schema

/-! ## Arrays -/

section

variable {read : JsonValue → Option JsonValue} {sizes : ℕ → Bool} {v w : JsonValue}

/-- An array of a size that passes a check. -/
def readArray (sizes : ℕ → Bool) (read : JsonValue → Option JsonValue) : JsonValue → Option JsonValue
  | .array vs => if sizes vs.length then (vs.mapM read).map .array else none
  | _ => none

/-- An array of an allowed size is read item by item. -/
theorem readArray_eq_some :
    readArray sizes read v = some w ↔ ∃ vs ws, v = .array vs ∧ sizes vs.length ∧
      List.Forall₂ (fun v w => read v = some w) vs ws ∧ w = .array ws := by
  cases v with
  | array vs =>
    unfold readArray
    dsimp only
    constructor
    · intro h
      split_ifs at h with hs
      obtain ⟨ws, hws, rfl⟩ := Option.map_eq_some_iff.mp h
      exact ⟨vs, ws, rfl, hs, forall₂_of_mapM hws, rfl⟩
    · rintro ⟨vs', ws, heq, hs, hws, rfl⟩
      rw [← JsonValue.array.inj heq] at hs hws
      rw [if_pos hs, mapM_of_forall₂ hws]
      rfl
  | _ => simp [readArray]

end

/-- An array of a size that passes a check. -/
def Schema.array (sizes : ℕ → Bool) (item : Schema) : Schema where
  read := readArray sizes item.read
  read_read h := by
    obtain ⟨vs, ws, rfl, hs, hws, rfl⟩ := readArray_eq_some.mp h
    have hsize : sizes ws.length = true := by rwa [← hws.length_eq]
    have hagain : List.Forall₂ (fun v w => item.read v = some w) ws ws :=
      List.forall₂_same.mpr fun w hw => by
        obtain ⟨v, -, hv⟩ := exists_left_of_mem hws hw
        exact item.read_read hv
    exact readArray_eq_some.mpr ⟨ws, ws, rfl, hsize, hagain, rfl⟩
  named h := by
    obtain ⟨vs, ws, rfl, -, hws, rfl⟩ := readArray_eq_some.mp h
    apply JsonValue.Named.array
    intro w hw
    obtain ⟨v, -, hv⟩ := exists_left_of_mem hws hw
    exact item.named hv
  readable hzero hv h := by
    obtain ⟨vs, ws, rfl, -, hws, rfl⟩ := readArray_eq_some.mp h
    apply JsonValue.Readable.array
    intro w hw
    obtain ⟨v, hmem, hv'⟩ := exists_left_of_mem hws hw
    cases hv with
    | array hitems => exact item.readable hzero (hitems v hmem) hv'

/-! ## Objects -/

/-- What a schema makes of a property that is not there. -/
inductive Absence where
  | invalid
  | leftOut
  | filledIn (value : JsonValue)

/-- A property of an object. A value that is filled in is a zero, or has no number. -/
structure SchemaField where
  name : String
  item : Schema
  absence : Absence
  zero {numbers : List Char → Option String} (hzero : numbers ['0'] = some "0") :
    ∀ value, absence = .filledIn value → value.Readable numbers

/-- What is read of the properties of an object: a value for the property, or that it is left out. -/
def SchemaField.read (f : SchemaField) (ps : List (String × JsonValue)) : Option (Option JsonValue) :=
  match property? f.name ps, f.absence with
  | some v, _ => (f.item.read v).map some
  | none, .invalid => none
  | none, .leftOut => some none
  | none, .filledIn v => (f.item.read v).map some

/-- Reads the fields of an object in their order. The properties that have a value are kept. -/
def readFields : List SchemaField → List (String × JsonValue) → Option (List (String × JsonValue))
  | [], _ => some []
  | f :: fs, ps => do
    let value ← f.read ps
    let qs ← readFields fs ps
    pure (JsonValue.optional f.name value ++ qs)

section

variable {f : SchemaField} {fs : List SchemaField} {ps qs : List (String × JsonValue)}

/-- The fields are read one after the other. -/
theorem readFields_cons :
    readFields (f :: fs) ps = some qs ↔ ∃ value rest, f.read ps = some value ∧
      readFields fs ps = some rest ∧ qs = JsonValue.optional f.name value ++ rest := by
  show ((f.read ps).bind fun value => (readFields fs ps).bind fun rest =>
    some (JsonValue.optional f.name value ++ rest)) = some qs ↔ _
  constructor
  · intro h
    obtain ⟨value, hvalue, h⟩ := Option.bind_eq_some_iff.mp h
    obtain ⟨rest, hrest, h⟩ := Option.bind_eq_some_iff.mp h
    exact ⟨value, rest, hvalue, hrest, (Option.some.inj h).symm⟩
  · rintro ⟨value, rest, hvalue, hrest, rfl⟩
    rw [hvalue, hrest]
    rfl

/-- Nothing is read but the properties. -/
theorem mem_names_of_readFields (h : readFields fs ps = some qs) :
    ∀ q ∈ qs, q.1 ∈ fs.map SchemaField.name := by
  induction fs generalizing qs with
  | nil =>
    obtain rfl := Option.some.inj h
    intro q hq
    cases hq
  | cons f fs ih =>
    obtain ⟨value, rest, -, hrest, rfl⟩ := readFields_cons.mp h
    intro q hq
    rcases List.mem_append.mp hq with hq | hq
    · obtain ⟨v, -, rfl⟩ := List.mem_map.mp hq
      exact List.mem_cons_self
    · exact List.mem_cons_of_mem _ (ih hrest q hq)

/-- The value of a property is what was read of it. -/
theorem read_of_readFields (hnodup : (fs.map SchemaField.name).Nodup) (h : readFields fs ps = some qs) :
    ∀ f ∈ fs, f.read ps = some (property? f.name qs) := by
  -- By induction on the fields, with the names of the fields different.
  induction fs generalizing qs with
  | nil =>
    intro f hf
    cases hf
  | cons g fs ih =>
    rw [List.map_cons, List.nodup_cons] at hnodup
    obtain ⟨hfresh, hnodup⟩ := hnodup
    obtain ⟨value, rest, hvalue, hrest, rfl⟩ := readFields_cons.mp h
    intro f hf
    -- The first field is the first property, if it was there.
    rcases List.mem_cons.mp hf with rfl | hf
    · rw [hvalue]
      congr 1
      cases value with
      | some v =>
        show some v = property? f.name ((f.name, v) :: rest)
        rw [property?_cons, if_pos rfl]
      | none =>
        have hnone : f.name ∉ keysOf rest := by
          intro hmem
          obtain ⟨q, hq, heq⟩ := List.mem_map.mp hmem
          exact hfresh (heq ▸ mem_names_of_readFields hrest q hq)
        exact (property?_eq_none.mpr hnone).symm
    · -- A later field has another name, so the properties of the first do not hide it.
      have hne : f.name ∉ keysOf (JsonValue.optional g.name value) := by
        intro hmem
        obtain ⟨q, hq, heq⟩ := List.mem_map.mp hmem
        obtain ⟨v, -, rfl⟩ := List.mem_map.mp hq
        exact hfresh (List.mem_map.mpr ⟨f, hf, heq.symm⟩)
      rw [property?_append_of_not_mem hne, ih hnodup hrest f hf]

/-- Fields that find the same in two objects read the same of them. -/
theorem readFields_congr (h : ∀ f ∈ fs, f.read ps = f.read qs) : readFields fs ps = readFields fs qs := by
  induction fs with
  | nil => rfl
  | cons f fs ih =>
    have hrest := ih fun g hg => h g (List.mem_cons_of_mem _ hg)
    unfold readFields
    rw [h f List.mem_cons_self, hrest]

/-- What was read of a property is read as it is. -/
theorem SchemaField.read_read {value : Option JsonValue} (h : f.read ps = some value)
    (hvalue : property? f.name qs = value) : f.read qs = some value := by
  unfold SchemaField.read at h ⊢
  rw [hvalue]
  cases value with
  | some w =>
    have hw : ∃ v, f.item.read v = some w := by
      split at h
      · obtain ⟨w', hw', heq⟩ := Option.map_eq_some_iff.mp h
        exact ⟨_, Option.some.inj heq ▸ hw'⟩
      · cases h
      · cases h
      · obtain ⟨w', hw', heq⟩ := Option.map_eq_some_iff.mp h
        exact ⟨_, Option.some.inj heq ▸ hw'⟩
    obtain ⟨v, hv⟩ := hw
    dsimp only
    rw [f.item.read_read hv]
    rfl
  | none =>
    split at h
    · obtain ⟨w', -, heq⟩ := Option.map_eq_some_iff.mp h
      cases heq
    · cases h
    · rename_i habsence
      rw [habsence]
    · obtain ⟨w', -, heq⟩ := Option.map_eq_some_iff.mp h
      cases heq

/-- The value that is read of a property is read by the schema of the property. -/
theorem SchemaField.exists_read {w : JsonValue} (h : f.read ps = some (some w)) :
    ∃ v, f.item.read v = some w ∧ ((f.name, v) ∈ ps ∨ f.absence = .filledIn v) := by
  unfold SchemaField.read at h
  split at h
  · rename_i v hv
    obtain ⟨w', hw', heq⟩ := Option.map_eq_some_iff.mp h
    exact ⟨v, Option.some.inj heq ▸ hw', .inl (mem_of_property? hv)⟩
  · cases h
  · cases h
  · rename_i v _ habsence
    obtain ⟨w', hw', heq⟩ := Option.map_eq_some_iff.mp h
    exact ⟨v, Option.some.inj heq ▸ hw', .inr habsence⟩

/-- Each property is read by its schema. -/
theorem exists_field_of_mem (h : readFields fs ps = some qs) :
    ∀ q ∈ qs, ∃ f ∈ fs, q.1 = f.name ∧ f.read ps = some (some q.2) := by
  induction fs generalizing qs with
  | nil =>
    obtain rfl := Option.some.inj h
    intro q hq
    cases hq
  | cons f fs ih =>
    obtain ⟨value, rest, hvalue, hrest, rfl⟩ := readFields_cons.mp h
    intro q hq
    rcases List.mem_append.mp hq with hq | hq
    · obtain ⟨v, hv, rfl⟩ := List.mem_map.mp hq
      rw [Option.mem_toList.mp hv] at hvalue
      exact ⟨f, List.mem_cons_self, rfl, hvalue⟩
    · obtain ⟨g, hg, hread⟩ := ih hrest q hq
      exact ⟨g, List.mem_cons_of_mem _ hg, hread⟩

/-- No property is read twice. -/
theorem keysOf_nodup_of_readFields (hnodup : (fs.map SchemaField.name).Nodup)
    (h : readFields fs ps = some qs) : (keysOf qs).Nodup := by
  induction fs generalizing qs with
  | nil =>
    obtain rfl := Option.some.inj h
    exact List.nodup_nil
  | cons f fs ih =>
    rw [List.map_cons, List.nodup_cons] at hnodup
    obtain ⟨hfresh, hnodup⟩ := hnodup
    obtain ⟨value, rest, -, hrest, rfl⟩ := readFields_cons.mp h
    have hrest' := ih hnodup hrest
    cases value with
    | none => exact hrest'
    | some v =>
      show (f.name :: keysOf rest).Nodup
      rw [List.nodup_cons]
      constructor
      · intro hmem
        obtain ⟨q, hq, heq⟩ := List.mem_map.mp hmem
        exact hfresh (heq ▸ mem_names_of_readFields hrest q hq)
      · exact hrest'

end

/-- The properties of an object. -/
structure Shape where
  fields : List SchemaField
  /-- Whether an object with other properties has not the form; else they are not read. -/
  strict : Bool
  nodup : (fields.map SchemaField.name).Nodup := by decide
  named : "__proto__" ∉ fields.map SchemaField.name := by decide

namespace Shape

variable {shape : Shape} {ps qs : List (String × JsonValue)} {v w : JsonValue}

/-- The names of the fields. -/
def names (shape : Shape) : List String := shape.fields.map SchemaField.name

/-- Reads an object. A strict shape refuses an object that has other properties. -/
def read (shape : Shape) : JsonValue → Option JsonValue
  | .object ps =>
    if shape.strict && !(keysOf ps).all (· ∈ shape.names) then none
    else (readFields shape.fields ps).map .object
  | _ => none

/-- An object is read by its fields, if a strict shape has all of its keys. -/
theorem read_eq_some : shape.read v = some w ↔ ∃ ps qs, v = .object ps ∧
    (shape.strict = true → ∀ key ∈ keysOf ps, key ∈ shape.names) ∧
    readFields shape.fields ps = some qs ∧ w = .object qs := by
  cases v with
  | object ps =>
    unfold read
    dsimp only
    constructor
    · intro h
      split_ifs at h with hstrict
      obtain ⟨qs, hqs, rfl⟩ := Option.map_eq_some_iff.mp h
      refine ⟨ps, qs, rfl, ?_, hqs, rfl⟩
      intro hs key hkey
      by_contra hnot
      apply hstrict
      rw [hs, Bool.true_and, Bool.not_eq_true', List.all_eq_false]
      exact ⟨key, hkey, by simpa using hnot⟩
    · rintro ⟨ps', qs, heq, hstrict, hqs, rfl⟩
      obtain rfl := JsonValue.object.inj heq
      have hall : ¬ (shape.strict && !(keysOf ps).all (· ∈ shape.names)) = true := by
        intro h
        rw [Bool.and_eq_true, Bool.not_eq_true', List.all_eq_false] at h
        obtain ⟨hs, key, hkey, hnot⟩ := h
        exact hnot (decide_eq_true (hstrict hs key hkey))
      rw [if_neg hall, hqs]
      rfl
  | _ => simp [read]

/-- What was read is read again of an object that has the same properties. -/
theorem read_same (h : shape.read v = some (.object ps))
    (hsame : ∀ key ∈ shape.names, property? key qs = property? key ps)
    (hnames : shape.strict = true → ∀ key ∈ keysOf qs, key ∈ shape.names) :
    shape.read (.object qs) = some (.object ps) := by
  obtain ⟨rs, ps', -, -, hread, heq⟩ := read_eq_some.mp h
  obtain rfl := JsonValue.object.inj heq
  apply read_eq_some.mpr
  refine ⟨qs, ps, rfl, hnames, ?_, rfl⟩
  rw [← hread]
  apply readFields_congr
  intro f hf
  have hvalue := read_of_readFields shape.nodup hread f hf
  rw [hvalue]
  exact f.read_read hvalue (hsame f.name (List.mem_map_of_mem hf))

end Shape

/-- The schema of the objects of a shape. -/
def Schema.object (shape : Shape) : Schema where
  read := shape.read
  read_read h := by
    obtain ⟨ps, qs, rfl, -, hread, rfl⟩ := Shape.read_eq_some.mp h
    apply Shape.read_same h
    · intro key _
      rfl
    · intro _ key hkey
      obtain ⟨q, hq, rfl⟩ := List.mem_map.mp hkey
      exact mem_names_of_readFields hread q hq
  named h := by
    obtain ⟨ps, qs, rfl, -, hread, rfl⟩ := Shape.read_eq_some.mp h
    apply JsonValue.Named.object
    · intro q hq heq
      exact shape.named (heq ▸ mem_names_of_readFields hread q hq)
    · intro q hq
      obtain ⟨f, -, -, hq⟩ := exists_field_of_mem hread q hq
      obtain ⟨v, hv, -⟩ := f.exists_read hq
      exact f.item.named hv
  readable hzero hv h := by
    obtain ⟨ps, qs, rfl, -, hread, rfl⟩ := Shape.read_eq_some.mp h
    apply JsonValue.Readable.object (keysOf_nodup_of_readFields shape.nodup hread)
    intro q hq
    obtain ⟨f, -, -, hq⟩ := exists_field_of_mem hread q hq
    obtain ⟨v, hv', hmem | habsence⟩ := f.exists_read hq
    · cases hv with
      | object _ hproperties => exact f.item.readable hzero (hproperties _ hmem) hv'
    · exact f.item.readable hzero (f.zero hzero v habsence) hv'

/-! ## Objects of several kinds -/

/-- Objects of the kind that a property names. -/
structure Variant (key : String) where
  tag : String
  shape : Shape
  tagged : ∃ f ∈ shape.fields, f.name = key ∧ f.item = .literal tag ∧ f.absence = .invalid

section

variable {key : String} {variants : List (Variant key)} {variant : Variant key} {v w : JsonValue}
  {ps qs : List (String × JsonValue)}

/-- Reads an object by the kind that its property names. -/
def readVariant (key : String) (variants : List (Variant key)) : JsonValue → Option JsonValue
  | .object ps =>
    match property? key ps with
    | some (.string tag) =>
      (variants.find? fun variant => variant.tag = tag).bind fun variant => variant.shape.read (.object ps)
    | _ => none
  | _ => none

/-- The kind is read as it is. -/
theorem Variant.property?_of_read (h : variant.shape.read v = some (.object qs)) :
    property? key qs = some (.string variant.tag) := by
  obtain ⟨ps, qs', -, -, hread, heq⟩ := Shape.read_eq_some.mp h
  obtain rfl := JsonValue.object.inj heq
  obtain ⟨f, hf, rfl, hitem, habsence⟩ := variant.tagged
  have hvalue := read_of_readFields variant.shape.nodup hread f hf
  cases hproperty : property? f.name qs with
  | none =>
    rw [hproperty] at hvalue
    unfold SchemaField.read at hvalue
    rw [habsence] at hvalue
    split at hvalue
    · obtain ⟨w, -, heq⟩ := Option.map_eq_some_iff.mp hvalue
      cases heq
    · cases hvalue
    · rename_i h
      cases h
    · rename_i h
      cases h
  | some w =>
    rw [hproperty] at hvalue
    obtain ⟨v', hv', -⟩ := f.exists_read hvalue
    rw [hitem, Schema.literal_read] at hv'
    rw [hv'.2]

/-- An object is read by the variant whose tag it has. -/
theorem readVariant_object (hproperty : property? key ps = some (.string variant.tag))
    (hfind : variants.find? (fun c => c.tag = variant.tag) = some variant) :
    readVariant key variants (.object ps) = variant.shape.read (.object ps) := by
  unfold readVariant
  dsimp only
  rw [hproperty]
  dsimp only
  rw [hfind]
  rfl

/-- What a variant reads has the properties of the variant alone. -/
theorem Variant.names_of_read (h : variant.shape.read v = some (.object qs)) :
    ∀ k ∈ keysOf qs, k ∈ variant.shape.names := by
  obtain ⟨ps, qs', -, -, hread, heq⟩ := Shape.read_eq_some.mp h
  obtain rfl := JsonValue.object.inj heq
  intro k hk
  obtain ⟨q, hq, rfl⟩ := List.mem_map.mp hk
  exact mem_names_of_readFields hread q hq

/-- What was read is read again where the kind is taken out and put at the front. -/
theorem readVariant_again (hfind : variants.find? (fun c => c.tag = variant.tag) = some variant)
    (h : variant.shape.read v = some (.object qs)) :
    readVariant key variants (.object ((key, .string variant.tag) :: deleteProperty key qs)) =
      some (.object qs) := by
  have hkind : property? key ((key, .string variant.tag) :: deleteProperty key qs) =
      some (.string variant.tag) := by
    rw [property?_cons, if_pos rfl]
  rw [readVariant_object hkind hfind]
  apply Shape.read_same h
  · intro k _
    by_cases hk : k = key
    · rw [hk, hkind, variant.property?_of_read h]
    · have hother : property? k ((key, .string variant.tag) :: deleteProperty key qs) =
          property? k (deleteProperty key qs) := by
        rw [property?_cons, if_neg (Ne.symm hk)]
      rw [hother, property?_deleteProperty, if_neg (Ne.symm hk)]
  · intro _ k hk
    rcases List.mem_cons.mp hk with rfl | hk
    · obtain ⟨f, hf, hname, -⟩ := variant.tagged
      exact List.mem_map.mpr ⟨f, hf, hname⟩
    · obtain ⟨q, hq, rfl⟩ := List.mem_map.mp hk
      exact variant.names_of_read h _ (List.mem_map_of_mem (List.mem_of_mem_filter hq))

/-- What was read is an object of one of the kinds. -/
theorem exists_variant (h : readVariant key variants v = some w) :
    ∃ variant ps, variants.find? (fun c => c.tag = variant.tag) = some variant ∧
      w = .object ps ∧ variant.shape.read v = some (.object ps) := by
  unfold readVariant at h
  split at h
  · split at h
    · rename_i tag _
      obtain ⟨variant, hfind, hread⟩ := Option.bind_eq_some_iff.mp h
      have htag : variant.tag = tag := by simpa using List.find?_some hfind
      obtain ⟨ps, qs, -, -, -, rfl⟩ := Shape.read_eq_some.mp hread
      exact ⟨variant, qs, by rw [htag, hfind], rfl, hread⟩
    · cases h
  · cases h

end

/-- The schema of the objects that have one of the variants. -/
def Schema.union (key : String) (variants : List (Variant key)) : Schema where
  read := readVariant key variants
  read_read h := by
    obtain ⟨variant, ps, hfind, rfl, hread⟩ := exists_variant h
    rw [readVariant_object (variant.property?_of_read hread) hfind]
    exact (Schema.object variant.shape).read_read hread
  named h := by
    obtain ⟨variant, ps, -, rfl, hread⟩ := exists_variant h
    exact (Schema.object variant.shape).named hread
  readable hzero hv h := by
    obtain ⟨variant, ps, -, rfl, hread⟩ := exists_variant h
    exact (Schema.object variant.shape).readable hzero hv hread

end OsAgent.Library
