import OsAgent.Library.JsonSize
import OsAgent.Library.Utf16

/-!
# Writing JSON data part by part

The text of an object from the texts of its properties, and of an array from those of its items. A part may
be a piece of a text, and begin or end with half of a surrogate pair, which is written as an escape. Where
all parts are JSON data the text is that of `stringify` (`objectText_stringify`, `arrayText_stringify`,
`unitsText_encode`), and its bytes are those of its parts.
-/

namespace OsAgent.Library

/-! ## Code units -/

/-- How `JSON.stringify` writes half of a surrogate pair that stands alone. -/
def escapeUnit (u : CodeUnit) : List Char :=
  ['\\', 'u', Nat.digitChar (u.toNat / 0x1000), Nat.digitChar (u.toNat / 0x100 % 0x10),
    Nat.digitChar (u.toNat / 0x10 % 0x10), Nat.digitChar (u.toNat % 0x10)]

/-- How a code unit is written. Half of a surrogate pair is escaped. -/
def quoteUnit (u : CodeUnit) : List Char :=
  if Utf16.isHigh u || Utf16.isLow u then escapeUnit u else quoteChar (.ofNat u.toNat)

/-- How `JSON.stringify` writes code units within a text. -/
def quoteUnits : List CodeUnit → List Char
  | [] => []
  | [u] => quoteUnit u
  | u :: v :: rest =>
    if Utf16.isHigh u && Utf16.isLow v then quoteChar (Utf16.decodePair u v) ++ quoteUnits rest
    else quoteUnit u ++ quoteUnits (v :: rest)

/-- How `JSON.stringify` writes a text that is given by its code units. -/
def unitsText (units : List CodeUnit) : List Char := '"' :: (quoteUnits units ++ ['"'])

/-- A unit that begins no pair is written on its own. -/
theorem quoteUnits_cons {u : CodeUnit} {rest : List CodeUnit} (h : Utf16.isHigh u = false) :
    quoteUnits (u :: rest) = quoteUnit u ++ quoteUnits rest := by
  cases rest with
  | nil => simp [quoteUnits]
  | cons v rest => rw [quoteUnits, h, Bool.false_and, if_neg Bool.false_ne_true]

/-- A character is written as it is, whether it is one code unit or two. -/
theorem quoteUnits_encodeChar (c : Char) (rest : List CodeUnit) :
    quoteUnits (Utf16.encodeChar c ++ rest) = quoteChar c ++ quoteUnits rest := by
  have hvalid : c.toNat.isValidChar := c.valid
  unfold Nat.isValidChar at hvalid
  unfold Utf16.encodeChar
  -- A character of the basic plane is one unit, and no half of a pair.
  split_ifs with hbasic
  · have hunit : (UInt16.ofNat c.toNat).toNat = c.toNat := by
      rw [UInt16.toNat_ofNat']
      exact Nat.mod_eq_of_lt hbasic
    have hhigh : Utf16.isHigh (.ofNat c.toNat) = false := by
      simp only [Utf16.isHigh, hunit, Bool.and_eq_false_iff, decide_eq_false_iff_not]
      omega
    have hlow : Utf16.isLow (.ofNat c.toNat) = false := by
      simp only [Utf16.isLow, hunit, Bool.and_eq_false_iff, decide_eq_false_iff_not]
      omega
    rw [List.singleton_append, quoteUnits_cons hhigh, quoteUnit, hhigh, hlow, Bool.or_self,
      if_neg Bool.false_ne_true, hunit, Char.ofNat_toNat]
  · -- Any other is a pair, which is put together again.
    have hu : (UInt16.ofNat (0xD800 + (c.toNat - 0x10000) / 0x400)).toNat =
        0xD800 + (c.toNat - 0x10000) / 0x400 := by
      rw [UInt16.toNat_ofNat']
      exact Nat.mod_eq_of_lt (by omega)
    have hv : (UInt16.ofNat (0xDC00 + (c.toNat - 0x10000) % 0x400)).toNat =
        0xDC00 + (c.toNat - 0x10000) % 0x400 := by
      rw [UInt16.toNat_ofNat']
      exact Nat.mod_eq_of_lt (by omega)
    have hhigh : Utf16.isHigh (.ofNat (0xD800 + (c.toNat - 0x10000) / 0x400)) = true := by
      simp only [Utf16.isHigh, hu, Bool.and_eq_true, decide_eq_true_eq]
      omega
    have hlow : Utf16.isLow (.ofNat (0xDC00 + (c.toNat - 0x10000) % 0x400)) = true := by
      simp only [Utf16.isLow, hv, Bool.and_eq_true, decide_eq_true_eq]
      omega
    have hpair : Utf16.decodePair (.ofNat (0xD800 + (c.toNat - 0x10000) / 0x400))
        (.ofNat (0xDC00 + (c.toNat - 0x10000) % 0x400)) = c := by
      unfold Utf16.decodePair
      have hnat : 0x10000 + (0xD800 + (c.toNat - 0x10000) / 0x400 - 0xD800) * 0x400 +
          (0xDC00 + (c.toNat - 0x10000) % 0x400 - 0xDC00) = c.toNat := by omega
      rw [hu, hv, hnat, Char.ofNat_toNat]
    rw [List.cons_append, List.singleton_append, quoteUnits, hhigh, hlow, Bool.and_self, if_pos rfl, hpair]

/-- A text that has no half of a pair is written as always. -/
theorem unitsText_encode (s : String) : unitsText (Utf16.encode s.toList) = quote s := by
  have hunits : ∀ text : List Char, quoteUnits (Utf16.encode text) = text.flatMap quoteChar := by
    intro text
    induction text with
    | nil => rfl
    | cons c text ih => rw [Utf16.encode_cons, quoteUnits_encodeChar, ih, List.flatMap_cons]
  unfold unitsText quote
  rw [hunits]

/-! ## Arrays and objects -/

/-- The text of an array of items with these texts. -/
def arrayText (items : List (List Char)) : List Char :=
  '[' :: ((items.intersperse [',']).flatten ++ [']'])

/-- The text of a property. -/
def propertyText (p : String × List Char) : List Char := quote p.1 ++ ':' :: p.2

/-- The text of an object whose properties have these texts. -/
def objectText (properties : List (String × List Char)) : List Char :=
  '\x7b' :: (((properties.map propertyText).intersperse [',']).flatten ++ ['\x7d'])

/-- Texts with commas between them are the first and, behind a comma, each other. -/
theorem flatten_intersperse_cons (a : List Char) (rest : List (List Char)) :
    ((a :: rest).intersperse [',']).flatten = a ++ rest.flatMap fun b => ',' :: b := by
  induction rest generalizing a with
  | nil => simp
  | cons b rest ih =>
    rw [List.intersperse_cons_cons, List.flatten_cons, List.flatten_cons, ih, List.flatMap_cons]
    rfl

/-- The further items are their texts, each behind a comma. -/
theorem moreItems_eq (vs : List JsonValue) : moreItems vs = (vs.map stringify).flatMap fun b => ',' :: b := by
  induction vs with
  | nil => rfl
  | cons v vs ih =>
    rw [moreItems, List.map_cons, List.flatMap_cons, ih]
    rfl

/-- The text of an array is made of those of its items. -/
theorem arrayText_stringify (vs : List JsonValue) : arrayText (vs.map stringify) = stringify (.array vs) := by
  unfold arrayText
  cases vs with
  | nil => simp [stringify]
  | cons v vs =>
    rw [List.map_cons, flatten_intersperse_cons, stringify, moreItems_eq, List.append_assoc]

/-- The further properties are their texts, each behind a comma. -/
theorem moreProperties_eq (ps : List (String × JsonValue)) :
    moreProperties ps =
      (ps.map fun p => propertyText (p.1, stringify p.2)).flatMap fun b => ',' :: b := by
  induction ps with
  | nil => rfl
  | cons p ps ih =>
    obtain ⟨k, v⟩ := p
    rw [moreProperties, List.map_cons, List.flatMap_cons, ih]
    simp [propertyText]

/-- The text of an object is made of those of its properties. -/
theorem objectText_stringify (ps : List (String × JsonValue)) :
    objectText (ps.map fun p => (p.1, stringify p.2)) = stringify (.object ps) := by
  unfold objectText
  rw [List.map_map]
  cases ps with
  | nil => simp [stringify]
  | cons p ps =>
    obtain ⟨k, v⟩ := p
    have hrest : (ps.map (propertyText ∘ fun p => (p.1, stringify p.2))) =
        ps.map fun p => propertyText (p.1, stringify p.2) := rfl
    rw [List.map_cons, flatten_intersperse_cons, stringify, moreProperties_eq, hrest]
    simp [propertyText]

/-! ## Bytes -/

/-- The bytes of texts behind commas. -/
theorem byteLength_more (texts : List (List Char)) :
    byteLength (texts.flatMap fun b => ',' :: b) = (texts.map fun b => byteLength b + 1).sum := by
  have hcomma : (',').utf8Size = 1 := by decide
  induction texts with
  | nil => exact byteLength_nil
  | cons b texts ih =>
    rw [List.flatMap_cons, byteLength_append, byteLength_cons, List.map_cons, List.sum_cons, ih, hcomma]
    omega

/-- The bytes of an array are those of its items with a comma each, and one more. -/
theorem byteLength_arrayText {items : List (List Char)} (h : items ≠ []) :
    byteLength (arrayText items) = (items.map fun b => byteLength b + 1).sum + 1 := by
  have hopen : ('[').utf8Size = 1 := by decide
  have hclose : (']').utf8Size = 1 := by decide
  cases items with
  | nil => exact absurd rfl h
  | cons a items =>
    unfold arrayText
    rw [flatten_intersperse_cons, byteLength_cons, byteLength_append, byteLength_append, byteLength_more,
      byteLength_cons, byteLength_nil, List.map_cons, List.sum_cons]
    omega

/-- The bytes of a property with its colon and a comma. -/
def partSize (p : String × List Char) : ℕ := textSize p.1 + byteLength p.2 + 2

/-- The size of a part is that of its property and a comma. -/
theorem byteLength_propertyText (p : String × List Char) : byteLength (propertyText p) + 1 = partSize p := by
  have hcolon : (':').utf8Size = 1 := by decide
  unfold propertyText partSize textSize
  rw [byteLength_append, byteLength_cons]
  omega

/-- The bytes of an object are those of its properties, and one more. -/
theorem byteLength_objectText {ps : List (String × List Char)} (h : ps ≠ []) :
    byteLength (objectText ps) = (ps.map partSize).sum + 1 := by
  have hopen : ('\x7b').utf8Size = 1 := by decide
  have hclose : ('\x7d').utf8Size = 1 := by decide
  have hparts : (ps.map propertyText).map (fun b => byteLength b + 1) = ps.map partSize := by
    rw [List.map_map]
    exact List.map_congr_left fun p _ => byteLength_propertyText p
  cases ps with
  | nil => exact absurd rfl h
  | cons p ps =>
    unfold objectText
    rw [List.map_cons, flatten_intersperse_cons, byteLength_cons, byteLength_append, byteLength_append,
      byteLength_more, byteLength_cons, byteLength_nil, ← hparts, List.map_cons, List.map_cons, List.sum_cons]
    omega

end OsAgent.Library
